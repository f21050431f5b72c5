import CompilingProxy.Proofs.Emit.Constant
import CompilingProxy.Proofs.Emit.Declared
import CompilingProxy.Proofs.Emit.Untyped

/-!
# The rows of an enum

An enum is compiled to a row for each member. A row holds a constant when the initialiser denotes
one behind the rows before it, and else the compiled text of the initialiser, in which the names of
members stay as they are written. A member without an initialiser counts on from the row before.
-/

namespace CompilingProxy

open Text

/-- A member: its node, what names it, and its initialiser. -/
structure EnumMember where
  node : Node
  key : Node
  value : Option Node

namespace Node

def enumMember? (n : Node) : Option EnumMember :=
  if n.isA .enumAssignment then (n.child? .name).map fun key => ⟨n, key, n.child? .value⟩
  else some ⟨n, n, none⟩

/-- The members of an enum, in order. -/
def enumMembers (n : Node) : List EnumMember :=
  ((((n.child? .body).map namedChildren).getD []).filter (!·.isA .comment)).filterMap enumMember?

end Node

namespace Emit

/-- What is written for a member: a constant, or the expression that computes the value. -/
structure EnumRow where
  key : String
  value : EnumValue ⊕ String

namespace EnumRow

def slot (enumName : String) (r : EnumRow) : String := enumName ++ "[" ++ quoted r.key ++ "]"

def code (enumName : String) (r : EnumRow) : String :=
  let both (value : String) : String :=
    enumName ++ "[" ++ r.slot enumName ++ " = " ++ value ++ "] = " ++ quoted r.key ++ ";"
  match r.value with
  | .inl (.number x) => both (Number.code x)
  | .inl (.string literal) => r.slot enumName ++ " = " ++ literal ++ ";"
  | .inr expression => both expression

def constant? (r : EnumRow) : Option (String × EnumValue) :=
  r.value.getLeft?.map fun v => (r.key, v)

end EnumRow

/-- What the members of the rows are known to be, the latest first. -/
def scopeOf (enumName : String) (rows : List EnumRow) : EnumScope :=
  ⟨enumName, (rows.filterMap EnumRow.constant?).reverse⟩

/-- What a member without an initialiser counts on from behind the rows. -/
def successorOf (rows : List EnumRow) : Successor :=
  match rows.getLast? with
  | none => .number 0
  | some ⟨_, .inl (.number x)⟩ => .number (x + 1)
  | some ⟨_, .inl (.string _)⟩ => .nothing
  | some ⟨key, .inr _⟩ => .member key

def EnumState.ofRows (enumName indent : String) (rows : List EnumRow) (scope : List String) :
    EnumState :=
  { values := scopeOf enumName rows
    next := successorOf rows
    scope
    lines := rows.map fun r => indent ++ Layout.unit ++ r.code enumName }

/-- The call that fills an enum with the rows. -/
def enumText (f : Frame) (scope : List String) (enumName : String) (exported : Bool)
    (indent : String) (rows : List EnumRow) : String :=
  (wrap f scope enumName exported
    (bracedLines indent (rows.map fun r => indent ++ Layout.unit ++ r.code enumName)) indent).1

/-- The text is what the node is compiled to, on its own. -/
def CompiledTo (t : Setting) (v : Visit) (f : Frame) (n : Node) (text : String) : Prop :=
  ∃ around scope scope', render t v f { around } scope n = .ok (text.toList, scope')

/-- The initialiser of the member cannot be compiled on its own, for this reason. -/
def Stops (t : Setting) (v : Visit) (f : Frame) (m : EnumMember) (e : EditError) : Prop :=
  ∃ n around scope, m.value = some n ∧ render t v f { around } scope n = .error e

/-- How a member gets its value behind the rows before it. -/
inductive Assigns (t : Setting) (v : Visit) (f : Frame) (enumName : String)
    (before : List EnumRow) : Option Node → EnumValue ⊕ String → Prop
  | constant {n : Node} {c : EnumValue}
      (h : EnumValue.Denotes t.source (scopeOf enumName before) n c) :
      Assigns t v f enumName before (some n) (.inl c)
  | computed {n : Node} {text : String}
      (h : ∀ c, ¬ EnumValue.Denotes t.source (scopeOf enumName before) n c)
      (htext : CompiledTo t v f n text) : Assigns t v f enumName before (some n) (.inr text)
  | counted {x : Float} (h : successorOf before = .number x) :
      Assigns t v f enumName before none (.inl (.number x))
  | next {key : String} (h : successorOf before = .member key) :
      Assigns t v f enumName before none (.inr (enumName ++ "[" ++ quoted key ++ "] + 1"))
  | void (h : successorOf before = .nothing) : Assigns t v f enumName before none (.inr "void 0")

/-- The rows of members that stand behind others. -/
inductive Tabulates (t : Setting) (v : Visit) (f : Frame) (enumName : String) :
    (before : List EnumRow) → List EnumMember → List EnumRow → Prop
  | nil {before : List EnumRow} : Tabulates t v f enumName before [] []
  | cons {before rows : List EnumRow} {m : EnumMember} {ms : List EnumMember} {r : EnumRow}
      (hkey : r.key = m.key.unquoted t.source)
      (hvalue : Assigns t v f enumName before m.value r.value)
      (hrest : Tabulates t v f enumName (before ++ [r]) ms rows) :
      Tabulates t v f enumName before (m :: ms) (r :: rows)

section

variable {t : Setting} {v : Visit} {f : Frame} {p : Place} {scope : List String} {n d : Node}
  {enumName indent : String} {before rows : List EnumRow} {ms : List EnumMember}
  {around : List Node}

theorem Tabulates.length_eq (h : Tabulates t v f enumName before ms rows) :
    rows.length = ms.length := by
  induction h with
  | nil => rfl
  | cons _ _ _ ih => rw [List.length_cons, List.length_cons, ih]

theorem Tabulates.row (h : Tabulates t v f enumName before ms rows) {i : Nat} {m : EnumMember}
    {r : EnumRow} (hm : ms[i]? = some m) (hr : rows[i]? = some r) :
    r.key = m.key.unquoted t.source ∧
      Assigns t v f enumName (before ++ rows.take i) m.value r.value := by
  induction h generalizing i with
  | nil => cases hm
  | cons hkey hvalue _ ih =>
    cases i with
    | zero =>
      cases hm
      cases hr
      rw [List.take_zero, List.append_nil]
      exact ⟨hkey, hvalue⟩
    | succ i =>
      obtain ⟨hkey', hvalue'⟩ := ih hm hr
      rw [List.append_assoc, List.singleton_append] at hvalue'
      exact ⟨hkey', hvalue'⟩

theorem Assigns.of_denotes {x : EnumValue ⊕ String} {c : EnumValue}
    (h : Assigns t v f enumName before (some n) x)
    (hc : EnumValue.Denotes t.source (scopeOf enumName before) n c) : x = .inl c := by
  cases h with
  | constant hc' => rw [Option.some.inj (hc'.ofNode?_eq.symm.trans hc.ofNode?_eq)]
  | computed hnone => exact absurd hc (hnone c)

/-! ### One member -/

theorem scopeOf_concat (r : EnumRow) :
    scopeOf enumName (rows ++ [r]) =
      match r.value with
      | .inl c => (scopeOf enumName rows).add r.key c
      | .inr _ => scopeOf enumName rows := by
  obtain ⟨key, value⟩ := r
  rw [scopeOf, List.filterMap_append, List.reverse_append]
  cases value <;> rfl

theorem successorOf_concat (r : EnumRow) :
    successorOf (rows ++ [r]) =
      match r.value with
      | .inl (.number x) => .number (x + 1)
      | .inl (.string _) => .nothing
      | .inr _ => .member r.key := by
  obtain ⟨key, value⟩ := r
  rw [successorOf, List.getLast?_concat]
  rcases value with (x | literal) | expression <;> rfl

theorem memberValue_assigns (t : Setting) (v : Visit) (f : Frame) (around : List Node)
    (enumName indent : String) (rows : List EnumRow) (scope : List String) (value : Option Node) :
    (∃ x scope', memberValue t v f around (.ofRows enumName indent rows scope) value =
        .ok (x, scope') ∧ Assigns t v f enumName rows value x) ∨
      ∃ n e, value = some n ∧ render t v f { around } scope n = .error e ∧
        memberValue t v f around (.ofRows enumName indent rows scope) value = .error e := by
  cases value with
  | some n =>
    cases hc : EnumValue.ofNode? t.source (scopeOf enumName rows) n with
    | some c =>
      refine .inl ⟨.inl c, scope, ?_, .constant (EnumValue.ofNode?_sound hc)⟩
      rw [memberValue, EnumState.ofRows, hc]
    | none =>
      have hvalue : memberValue t v f around (.ofRows enumName indent rows scope) (some n) =
          (render t v f { around } scope n).map fun x => (.inr (String.ofList x.1), x.2) := by
        rw [memberValue, EnumState.ofRows, hc]
        rfl
      rw [hvalue]
      cases htext : render t v f { around } scope n with
      | error e => exact .inr ⟨n, e, rfl, htext, rfl⟩
      | ok x =>
        refine .inl ⟨_, _, rfl, .computed (EnumValue.ofNode?_eq_none_iff.mp hc) ?_⟩
        exact ⟨around, scope, x.2, by rw [String.toList_ofList, htext]⟩
  | none =>
    rw [memberValue, EnumState.ofRows]
    cases hnext : successorOf rows with
    | number x => exact .inl ⟨_, _, rfl, .counted hnext⟩
    | member key => exact .inl ⟨_, _, rfl, .next hnext⟩
    | nothing => exact .inl ⟨_, _, rfl, .void hnext⟩

theorem enumMember_ofRows :
    enumMember t v f around indent (.ofRows enumName indent rows scope) n =
      match n.enumMember? with
      | none => .ok (.ofRows enumName indent rows scope)
      | some m =>
        (memberValue t v f (n :: around) (.ofRows enumName indent rows scope) m.value).map fun x =>
          .ofRows enumName indent (rows ++ [⟨m.key.unquoted t.source, x.1⟩]) x.2 := by
  have hmember : n.enumMember? =
      let parts :=
        if n.isA .enumAssignment then (n.child? .name, n.child? .value) else (some n, none)
      parts.1.map fun key => ⟨n, key, parts.2⟩ := by
    rw [Node.enumMember?]
    split <;> rfl
  rw [enumMember, hmember]
  generalize (if n.isA .enumAssignment then (n.child? .name, n.child? .value)
    else (some n, none)) = parts
  obtain ⟨key, value⟩ := parts
  cases key with
  | none => rfl
  | some key =>
    dsimp only [Option.map_some]
    cases memberValue t v f (n :: around) (.ofRows enumName indent rows scope) value with
    | error e => rfl
    | ok x =>
      obtain ⟨computed, scope'⟩ := x
      rw [Except.map, EnumState.ofRows, EnumState.ofRows, scopeOf_concat, successorOf_concat,
        List.map_append]
      -- One case for each way that a member adds to what is known.
      rcases computed with (x | literal) | expression <;> rfl

/-! ### All members -/

/-- Compiling the members adds their rows, unless one of them stops it. -/
theorem foldlM_enumMember_ofRows (t : Setting) (v : Visit) (f : Frame) (around : List Node)
    (enumName indent : String) (before : List EnumRow) (scope : List String) (ns : List Node) :
    (∃ rows scope', Tabulates t v f enumName before (ns.filterMap Node.enumMember?) rows ∧
      ns.foldlM (enumMember t v f around indent) (.ofRows enumName indent before scope) =
        .ok (.ofRows enumName indent (before ++ rows) scope')) ∨
    ∃ m ∈ ns.filterMap Node.enumMember?, ∃ e, Stops t v f m e ∧
      ns.foldlM (enumMember t v f around indent) (.ofRows enumName indent before scope) =
        .error e := by
  induction ns generalizing before scope with
  | nil => exact .inl ⟨[], scope, .nil, by rw [List.append_nil]; rfl⟩
  | cons n ns ih =>
    rw [List.foldlM_cons, enumMember_ofRows]
    cases hm : n.enumMember? with
    | none =>
      rw [List.filterMap_cons_none hm]
      exact ih before scope
    | some m =>
      rw [List.filterMap_cons_some hm]
      dsimp only
      rcases memberValue_assigns t v f (n :: around) enumName indent before scope m.value with
        ⟨x, scope', hx, hassigns⟩ | ⟨value, e, hvalue, hrender, hx⟩
      · rw [hx]
        rcases ih (before ++ [⟨m.key.unquoted t.source, x⟩]) scope' with
          ⟨rows, scope'', hrows, hfold⟩ | ⟨m', hm', e, hstops, hfold⟩
        · refine .inl ⟨_ :: rows, scope'', .cons rfl hassigns hrows, hfold.trans ?_⟩
          rw [List.append_assoc, List.singleton_append]
        · exact .inr ⟨m', List.mem_cons_of_mem _ hm', e, hstops, hfold⟩
      · rw [hx]
        exact .inr ⟨m, List.mem_cons_self, e, ⟨value, _, _, hvalue, hrender⟩, rfl⟩

/-- The edit that an enum comes to: a call with a row for each member takes the place of the
statement. -/
structure FillsRows (t : Setting) (v : Visit) (f : Frame) (d statement : Node) (enumName : String)
    (rows : List EnumRow) (edits : List TextEdit) : Prop where
  tabulates : Tabulates t v f enumName [] d.enumMembers rows
  replaces : ∃ scope, edits = [.replace statement.start statement.stop
    (enumText f scope enumName (statement.isA .exportStatement)
      (String.ofList (Layout.indentAt t.source statement.start)) rows)]

/-- What comes of an enum: a call with rows of the kind, or the reason for which one of its members
stops it. -/
inductive FillsEnum (t : Setting) (v : Visit) (f : Frame) (d statement : Node) (enumName : String)
    (kind : List EnumRow → Prop) : Except EditError Emission → Prop
  | filled {rows : List EnumRow} {out : Emission}
      (h : FillsRows t v f d statement enumName rows out.edits) (hrows : kind rows) :
      FillsEnum t v f d statement enumName kind (.ok out)
  | stopped {m : EnumMember} {e : EditError} (hm : m ∈ d.enumMembers) (h : Stops t v f m e) :
      FillsEnum t v f d statement enumName kind (.error e)

theorem enumDeclaration_fillsEnum {statement name : Node} {kind : List EnumRow → Prop}
    (hname : d.child? .name = some name)
    (hkind : ∀ rows, Tabulates t v f (name.text t.source) [] d.enumMembers rows → kind rows) :
    FillsEnum t v f d statement (name.text t.source) kind
      (enumDeclaration t v f p scope d statement (statement.isA .exportStatement)) := by
  have hempty : ({ values := ⟨name.text t.source, []⟩, scope } : EnumState) =
      .ofRows (name.text t.source) (String.ofList (Layout.indentAt t.source statement.start)) []
        scope := rfl
  rw [enumDeclaration, hname]
  dsimp only
  rcases foldlM_enumMember_ofRows t v f ((d.child? .body).toList ++ d :: p.around)
      (name.text t.source) (String.ofList (Layout.indentAt t.source statement.start)) [] scope
      ((((d.child? .body).map Node.namedChildren).getD []).filter (!·.isA .comment)) with
    ⟨rows, scope', hrows, hfold⟩ | ⟨m, hm, e, hstops, hfold⟩
  · rw [hempty, hfold]
    exact .filled ⟨hrows, scope', rfl⟩ (hkind rows hrows)
  · rw [hempty, hfold]
    exact .stopped hm hstops

/-- A statement that consists of an enum or namespace, or exports one, is compiled as that. -/
theorem visitNode_of_container (hd : n.container? = some d) :
    ∃ p', visitNode t v f p scope n =
      if d.isA .enumDeclaration then enumDeclaration t v f p' scope d n (n.isA .exportStatement)
      else namespaceDeclaration t v f p scope d n (n.isA .exportStatement) := by
  rw [Node.container?] at hd
  split at hd
  case h_1 hn | h_2 hn | h_3 hn =>
    cases hd
    have hexport : n.isA .exportStatement = false := Node.isA_of_kind? hn _
    have henum := Node.isA_of_kind? hn .enumDeclaration
    refine ⟨p, ?_⟩
    rw [visitNode, lowered?, hn, hexport, henum]
    rfl
  case h_4 hn =>
    have hexport : n.isA .exportStatement = false := Node.isA_of_kind? hn _
    obtain ⟨-, hmodule⟩ := Option.filter_eq_some_iff.mp hd
    have henum := Node.isA_of_kind? (Node.isA_iff.mp hmodule) .enumDeclaration
    refine ⟨p, ?_⟩
    rw [visitNode, lowered?, hn, hexport, hd, henum]
    rfl
  case h_5 hn =>
    split at hd
    case isTrue => cases hd
    case isFalse htype =>
      obtain ⟨hdeclaration, hcontainer⟩ := Option.filter_eq_some_iff.mp hd
      have hexport : n.isA .exportStatement := Node.isA_iff.mpr hn
      have hkept : d.isOneOf erasedDeclarations = false := by
        rw [Bool.or_eq_true, Node.isA_iff, Node.isSpace_iff] at hcontainer
        rcases hcontainer with hk | hk | hk <;> exact Node.isOneOf_of_kind? hk _
      refine ⟨{ around := n :: p.around }, ?_⟩
      rw [visitNode, lowered?, hn, hexport]
      dsimp only
      rw [exportStatement, if_neg htype, hdeclaration]
      dsimp only
      rw [hkept, if_neg Bool.false_ne_true]
      split
      case isTrue => rfl
      case isFalse hspace =>
        have hmodule : d.isA .internalModule || d.isA .module := by
          simpa [hspace, Node.isSpace, Node.isOneOf_cons, Node.isOneOf_nil] using hcontainer
        rw [if_pos hmodule]
  case h_6 => cases hd

theorem visit_fillsEnum {fuel : Nat} {name : Node} {kind : List EnumRow → Prop}
    (hd : n.container? = some d) (henum : d.isA .enumDeclaration)
    (hname : d.child? .name = some name)
    (hkind : ∀ rows, Tabulates t (visit t fuel) f (name.text t.source) [] d.enumMembers rows →
      kind rows) :
    FillsEnum t (visit t fuel) f d n (name.text t.source) kind
      (visit t (fuel + 1) f p scope n) := by
  obtain ⟨p', heq⟩ := visitNode_of_container (t := t) (v := visit t fuel) (f := f) (p := p) hd
  rw [visit, heq, if_pos henum]
  exact enumDeclaration_fillsEnum hname hkind

/-! ### Where the values come from -/

/-- How the rows of an enum refer to its members: an initialiser is a constant exactly if it denotes
one, and else the compiled text of it, as it is written but for its types; a member without an
initialiser is reached from the one before it through the enum. -/
structure RefersToMembers (t : Setting) (v : Visit) (f : Frame) (d : Node) (enumName : String)
    (rows : List EnumRow) : Prop where
  length_eq : rows.length = d.enumMembers.length
  constant_iff : ∀ {i : Nat} {m : EnumMember} {r : EnumRow} {e : Node},
    d.enumMembers[i]? = some m → rows[i]? = some r → m.value = some e → ∀ c, r.value = .inl c ↔
      EnumValue.Denotes t.source (scopeOf enumName (rows.take i)) e c
  computed : ∀ {i : Nat} {m : EnumMember} {r : EnumRow} {e : Node} {text : String},
    d.enumMembers[i]? = some m → rows[i]? = some r → m.value = some e → r.value = .inr text →
      CompiledTo t v f e text ∧ (e.everywhere Node.isInert → text = e.text t.source)
  next : ∀ {i : Nat} {m : EnumMember} {r : EnumRow} {text : String},
    d.enumMembers[i]? = some m → rows[i]? = some r → m.value = none → r.value = .inr text →
      text = "void 0" ∨ ∃ j m', i = j + 1 ∧ d.enumMembers[j]? = some m' ∧
        text = enumName ++ "[" ++ quoted (m'.key.unquoted t.source) ++ "] + 1"

theorem CompiledTo.eq_text {fuel : Nat} {text : String} (h : CompiledTo t (visit t fuel) f n text)
    (hinert : n.everywhere Node.isInert) : text = n.text t.source := by
  obtain ⟨around, scope, scope', h⟩ := h
  rw [Node.text, ← render_inert hinert h, String.ofList_toList]

theorem Tabulates.row_before (h : Tabulates t v f enumName [] d.enumMembers rows) {j : Nat}
    {r : EnumRow} (hr : rows[j + 1]? = some r) :
    ∃ m' r', d.enumMembers[j]? = some m' ∧ rows[j]? = some r' ∧
      rows.take (j + 1) = rows.take j ++ [r'] := by
  have hlength := (List.getElem?_eq_some_iff.mp hr).1
  have hmembers : j < d.enumMembers.length := by
    rw [← h.length_eq]
    omega
  have hrow : rows[j]? = some rows[j] := List.getElem?_eq_getElem (by omega)
  exact ⟨_, _, List.getElem?_eq_getElem hmembers, hrow, by rw [List.take_add_one, hrow]; rfl⟩

theorem Tabulates.refersToMembers {fuel : Nat}
    (h : Tabulates t (visit t fuel) f enumName [] d.enumMembers rows) :
    RefersToMembers t (visit t fuel) f d enumName rows where
  length_eq := h.length_eq
  constant_iff := by
    intro i m r e hm hr he c
    obtain ⟨-, hvalue⟩ := h.row hm hr
    rw [he, List.nil_append] at hvalue
    constructor
    · intro hc
      rw [hc] at hvalue
      cases hvalue with
      | constant hdenotes => exact hdenotes
    · exact hvalue.of_denotes
  computed := by
    intro i m r e text hm hr he htext
    obtain ⟨-, hvalue⟩ := h.row hm hr
    rw [he, htext] at hvalue
    cases hvalue with
    | computed _ hcompiled => exact ⟨hcompiled, hcompiled.eq_text⟩
  next := by
    intro i m r text hm hr hnone htext
    obtain ⟨-, hvalue⟩ := h.row hm hr
    rw [hnone, htext, List.nil_append] at hvalue
    cases hvalue with
    | void => exact .inl rfl
    | next hnext =>
      cases i with
      | zero => cases hnext
      | succ j =>
        obtain ⟨m', r', hm', hr', htake⟩ := h.row_before hr
        obtain ⟨hkey, -⟩ := h.row hm' hr'
        rw [htake, successorOf_concat] at hnext
        split at hnext
        case h_1 | h_2 => cases hnext
        case h_3 =>
          obtain rfl := Successor.member.inj hnext
          exact .inr ⟨j, m', rfl, hm', by rw [hkey]⟩

/-- A member has no value only behind one that denotes a string. -/
theorem Tabulates.exists_string_before (h : Tabulates t v f enumName [] d.enumMembers rows)
    {i : Nat} {m : EnumMember} {r : EnumRow} (hm : d.enumMembers[i]? = some m)
    (hr : rows[i]? = some r) (hnone : m.value = none) (hvoid : r.value = .inr "void 0") :
    ∃ j m' e literal, i = j + 1 ∧ d.enumMembers[j]? = some m' ∧ m'.value = some e ∧
      EnumValue.Denotes t.source (scopeOf enumName (rows.take j)) e (.string literal) := by
  obtain ⟨-, hvalue⟩ := h.row hm hr
  rw [hnone, List.nil_append] at hvalue
  generalize hx : r.value = x at hvalue hvoid
  cases hvalue with
  | counted => cases hvoid
  | next hnext =>
    have hbracket := congrArg (fun text => '[' ∈ text.toList) (Sum.inr.inj hvoid)
    simp at hbracket
  | void hnext =>
    cases i with
    | zero => cases hnext
    | succ j =>
      obtain ⟨m', r', hm', hr', htake⟩ := h.row_before hr
      obtain ⟨-, hvalue'⟩ := h.row hm' hr'
      rw [htake, successorOf_concat] at hnext
      split at hnext
      case h_1 | h_3 => cases hnext
      case h_2 literal hliteral =>
        rw [hliteral] at hvalue'
        generalize he : m'.value = value at hvalue'
        cases hvalue' with
        | constant hdenotes => exact ⟨j, m', _, literal, rfl, hm', he, hdenotes⟩

/-- An enum is compiled to a call with a row for each of its members, in which an initialiser that
names members before it is a constant if it denotes one. -/
theorem visit_refersToMembers {fuel : Nat} {name : Node} (hd : n.container? = some d)
    (henum : d.isA .enumDeclaration) (hname : d.child? .name = some name) :
    FillsEnum t (visit t fuel) f d n (name.text t.source)
      (RefersToMembers t (visit t fuel) f d (name.text t.source))
      (visit t (fuel + 1) f p scope n) :=
  visit_fillsEnum hd henum hname fun _ h => h.refersToMembers

end

section

open Node

/-- A name is taken from the member before, and a member counts on from a call. -/
def enumOfNames : Node :=
  enumOf 0 37
    [member 9 (literal 13 1), word 16 ",", member 18 (leaf .identifier 22 23), word 23 ",",
      member 25 (call 29), word 32 ",",
      playing .name (leaf .propertyIdentifier 34 35)]

def namesInEnum : ModuleRecord :=
  .ofTree "m.ts" "enum E \x7b A = 'a', B = A, C = f(), D \x7d\n" (script 38 [enumOfNames])

/-- The setting that a module is compiled in by default. -/
def settingOf (r : ModuleRecord) : Setting := .ofModule r r.analysis false

def namesOut : Except EditError Emission :=
  visit (settingOf namesInEnum) 4 ⟨[], ⟨0, 38⟩⟩ {} [] enumOfNames

theorem enumOfNames_refersToMembers :
    namesOut.map (·.edits) = .ok [.replace 0 37 ("var E;\n(function (E) \x7b\n" ++
      "    E[\"A\"] = 'a';\n    E[\"B\"] = 'a';\n    E[E[\"C\"] = f()] = \"C\";\n" ++
      "    E[E[\"D\"] = E[\"C\"] + 1] = \"D\";\n\x7d)(E || (E = \x7b\x7d));")] ∧
    FillsEnum (settingOf namesInEnum) (visit (settingOf namesInEnum) 3) ⟨[], ⟨0, 38⟩⟩
      enumOfNames enumOfNames "E"
      (RefersToMembers (settingOf namesInEnum) (visit (settingOf namesInEnum) 3) ⟨[], ⟨0, 38⟩⟩
        enumOfNames "E") namesOut := by
  have hname : (playing .name (leaf .identifier 5 6)).text (settingOf namesInEnum).source = "E" := by
    decide +kernel
  have hchild : enumOfNames.child? .name = some (playing .name (leaf .identifier 5 6)) := rfl
  exact ⟨by decide +kernel, hname ▸ visit_refersToMembers (d := enumOfNames) rfl rfl hchild⟩

/-- A name in an expression that is no constant stands bare in the call, which it is not in scope
of. -/
def namesInSum : ModuleRecord :=
  .ofTree "m.ts" "enum E \x7b A = f(), B = A | 1 \x7d\n" <|
    script 30
      [enumOf 0 29
        [member 9 (call 13), word 16 ",",
          member 18 <| branch .binaryExpression
            [playing .left (leaf .identifier 22 23), playing .operator (word 24 "|"),
              playing .right (leaf .number 26 27)]]]

theorem namesInSum_stay_bare :
    namesInSum.tree.hasError = false ∧
      namesInSum.emit namesInSum.analysis {} = .ok
        ("var E;\n(function (E) \x7b\n    E[E[\"A\"] = f()] = \"A\";\n" ++
          "    E[E[\"B\"] = A | 1] = \"B\";\n\x7d)(E || (E = \x7b\x7d));\n") :=
  ⟨by decide, by decide +kernel⟩

end

end Emit

end CompilingProxy
