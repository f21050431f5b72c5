import CompilingProxy.Proofs.Analysis.Occurrence
import CompilingProxy.Proofs.Emit.Row
import CompilingProxy.Proofs.Outcome

/-!
# Types and the edits that erase them

Compiling a node goes on to some of its parts. What stands in those parts and says something of
types alone lies inside the ranges of the edits that the node comes to.
-/

namespace CompilingProxy

open Emit Text

namespace Node

/-- The kinds of nodes that are erased wherever they are compiled. -/
def typeKinds : List Kind :=
  erasedDeclarations ++ [.methodSignature, .abstractMethodSignature, .indexSignature, .typeClause,
    .typeParameters, .typeArguments, .assertsClause, .typePredicateClause, .optingTypeClause,
    .omittingTypeClause, .addingTypeClause, .implementsClause, .accessibilityModifier,
    .overrideModifier]

/-- Whether the node says something of types alone: it is of such a kind, a field without a value
of its own, or the parameter for the receiver of a call. -/
def isType (n : Node) : Bool :=
  n.isOneOf typeKinds ||
    n.isA .publicFieldDefinition && (n.hasWord "declare" || n.hasWord "abstract") ||
    n.isA .requiredParameter && (n.child? .pattern).any (·.isA .this)

/-- Expressions that say of a value what type it is of. -/
def isAssertion (n : Node) : Bool :=
  n.isOneOf [.asExpression, .satisfiesExpression, .nonNullExpression]

/-- Whether the node itself says nothing of types. -/
def isUnerased (n : Node) : Bool := !n.isType && !n.isAssertion

/-- The parts of a node that are compiled when it is. Nothing is compiled in names and literals, in
an import, in an export but for what it declares or what its value is, in the names of properties,
enums, their members and namespaces, and in front of or behind a block's braces. -/
def parts (n : Node) : List Node :=
  match n.kind? with
  | none | some .importStatement | some .importAlias | some .identifier | some .number
  | some .string => []
  | some .memberExpression => n.namedChildren.filter (·.role != some .property)
  | some .unaryExpression | some .binaryExpression =>
    n.namedChildren.filter (·.role != some .operator)
  | some .exportStatement => ((n.child? .declaration).or (n.child? .value)).toList
  | some .expressionStatement =>
    match n.namedChildren.head?.filter (·.isA .internalModule) with
    | some inner => [inner]
    | none => n.namedChildren
  | some .enumDeclaration =>
    if (n.child? .name).isSome then ((n.child? .body).filter (·.isA .enumBody)).toList else []
  | some .enumBody => n.children.filter (·.isA .enumAssignment)
  | some .enumAssignment => (n.child? .value).toList
  | some .internalModule | some .module =>
    if (n.child? .name).isSome then ((n.child? .body).filter (·.isA .statementBlock)).toList else []
  | some .statementBlock => n.namedChildren.filter fun c => n.start < c.start && c.stop < n.stop
  | some .asExpression | some .satisfiesExpression | some .nonNullExpression =>
    n.namedChildren.head?.toList
  | some _ => n.namedChildren

/-- What a node says of types: all of it, or what an assertion says of its value, which stands
behind the value. -/
inductive SaysType : Node → Node → Prop
  | own {n : Node} (h : n.isType) : SaysType n n
  | said {n value c : Node} (h : n.isAssertion) (hvalue : n.namedChildren.head? = some value)
      (hc : c ∈ n.children) (hbehind : value.stop ≤ c.start) : SaysType n c

/-- What is said of types where the node is compiled. -/
inductive HoldsType : Node → Node → Prop
  | here {n x : Node} (h : n.SaysType x) : HoldsType n x
  | part {n c x : Node} (hc : c ∈ n.parts) (h : HoldsType c x) : HoldsType n x

variable {n c d x : Node}

theorem isUnerased_iff : n.isUnerased ↔ n.isType = false ∧ n.isAssertion = false := by
  rw [isUnerased, Bool.and_eq_true, Bool.not_eq_true', Bool.not_eq_true']

theorem isUnerased_of_kind? {k : Kind} (h : n.kind? = some k)
    (hk : k ∉ typeKinds ++ [.publicFieldDefinition, .requiredParameter, .asExpression,
      .satisfiesExpression, .nonNullExpression]) : n.isUnerased := by
  rw [List.mem_append, not_or] at hk
  obtain ⟨htype, hother⟩ := hk
  simp only [List.mem_cons, List.not_mem_nil, or_false, not_or] at hother
  rw [isUnerased_iff]
  constructor
  · simp [isType, isOneOf_of_kind? h, isA_of_kind? h, htype, hother]
  · simp [isAssertion, isOneOf_of_kind? h, hother]

theorem isUnerased_of_isOneOf {kinds : List Kind} (h : n.isOneOf kinds)
    (hkinds : ∀ k ∈ kinds, k ∉ typeKinds ++ [.publicFieldDefinition, .requiredParameter,
      .asExpression, .satisfiesExpression, .nonNullExpression]) : n.isUnerased := by
  obtain ⟨k, hk, hkind⟩ := isOneOf_iff.mp h
  exact isUnerased_of_kind? hkind (hkinds k hk)

/-- An assertion is no type. -/
theorem isType_of_isAssertion (h : n.isAssertion) : n.isType = false := by
  obtain ⟨k, hk, hkind⟩ := isOneOf_iff.mp h
  simp only [List.mem_cons, List.not_mem_nil, or_false] at hk
  rcases hk with rfl | rfl | rfl <;>
    simp [isType, isOneOf_of_kind? hkind, isA_of_kind? hkind, typeKinds, erasedDeclarations]

theorem parts_of_isAssertion (h : n.isAssertion) : n.parts = n.namedChildren.head?.toList := by
  obtain ⟨k, hk, hkind⟩ := isOneOf_iff.mp h
  simp only [List.mem_cons, List.not_mem_nil, or_false] at hk
  rcases hk with rfl | rfl | rfl <;> simp only [parts, hkind]

theorem parts_subset : n.parts ⊆ n.children := by
  intro c hc
  have hnamed : ∀ {m}, m ∈ n.namedChildren → m ∈ n.children := fun h => (List.mem_filter.mp h).1
  have hchild : ∀ {role m}, n.child? role = some m → m ∈ n.children :=
    fun h => List.mem_of_find?_eq_some h
  rw [parts] at hc
  split at hc
  case h_1 | h_2 | h_3 | h_4 | h_5 | h_6 => cases hc
  case h_7 | h_8 | h_9 => exact hnamed (List.mem_filter.mp hc).1
  case h_10 =>
    rcases Option.or_eq_some_iff.mp (Option.mem_toList.mp hc) with h | ⟨-, h⟩
    · exact hchild h
    · exact hchild h
  case h_11 =>
    split at hc
    case h_1 inner hinner =>
      rw [List.mem_singleton.mp hc]
      exact hnamed (List.mem_of_head? (Option.filter_eq_some_iff.mp hinner).1)
    case h_2 => exact hnamed hc
  case h_12 | h_15 | h_16 =>
    split at hc
    · exact hchild (Option.filter_eq_some_iff.mp (Option.mem_toList.mp hc)).1
    · cases hc
  case h_13 => exact (List.mem_filter.mp hc).1
  case h_14 => exact hchild (Option.mem_toList.mp hc)
  case h_17 => exact hnamed (List.mem_filter.mp hc).1
  case h_18 | h_19 | h_20 => exact hnamed (List.mem_of_head? (Option.mem_toList.mp hc))
  case h_21 => exact hnamed hc

theorem SaysType.not_isUnerased (h : n.SaysType x) : n.isUnerased = false := by
  rw [← Bool.not_eq_true, isUnerased_iff]
  rintro ⟨htype, hsaid⟩
  cases h with
  | own hown =>
    rw [htype] at hown
    cases hown
  | said hassertion =>
    rw [hsaid] at hassertion
    cases hassertion

theorem SaysType.within (h : n.SaysType x) (hn : n.isOrdered) :
    n.start ≤ x.start ∧ x.stop ≤ n.stop := by
  cases h with
  | own => exact ⟨Nat.le_refl _, Nat.le_refl _⟩
  | said _ _ hc => exact bounds_of_mem (isOrdered_iff.mp hn).2 hc

/-- A node that says nothing of types itself holds those of its parts. -/
theorem HoldsType.exists_part (h : n.HoldsType x) (hn : n.isUnerased) :
    ∃ c ∈ n.parts, c.HoldsType x := by
  cases h with
  | here h =>
    rw [h.not_isUnerased] at hn
    cases hn
  | part hc h => exact ⟨_, hc, h⟩

theorem isUnerased_of_word (h : n.isNamed = false) : n.isUnerased := by
  have hkind := kind?_eq_none_iff.mpr h
  have hnone (kinds : List Kind) : n.isOneOf kinds = false := by
    rw [Bool.eq_false_iff, ne_eq, isOneOf_iff]
    rintro ⟨k, -, hk⟩
    rw [hkind] at hk
    cases hk
  simp [isUnerased, isType, isAssertion, hnone, isA_eq_kind?, hkind]

/-- Words hold no types. -/
theorem HoldsType.isNamed (h : n.HoldsType x) : n.isNamed := by
  rw [← Bool.not_eq_false]
  intro hword
  obtain ⟨c, hc, -⟩ := h.exists_part (isUnerased_of_word hword)
  simp [parts, kind?_eq_none_iff.mpr hword] at hc

/-- What a node holds lies in it. -/
theorem HoldsType.within (h : n.HoldsType x) (hn : n.isOrdered) :
    n.start ≤ x.start ∧ x.stop ≤ n.stop := by
  induction h with
  | here h => exact h.within hn
  | part hc _ ih =>
    have hrow := (isOrdered_iff.mp hn).2
    have hmem := parts_subset hc
    obtain ⟨hstart, hstop⟩ := bounds_of_mem hrow hmem
    obtain ⟨hfirst, hlast⟩ := ih (isOrdered_of_mem hrow hmem)
    omega

theorem depth_lt_of_mem (hc : c ∈ n.children) : c.depth < n.depth := by
  have hall : ∀ ns : List Node, c ∈ ns → c.depth ≤ depthAll ns := by
    intro ns
    induction ns with
    | nil => exact fun h => by cases h
    | cons m ns ih =>
      intro h
      rw [depthAll]
      rcases List.mem_cons.mp h with rfl | h
      · exact Nat.le_max_left _ _
      · exact Nat.le_trans (ih h) (Nat.le_max_right _ _)
  obtain ⟨label, role, start, stop, missing, children⟩ := n
  have := hall children hc
  rw [depth]
  omega

/-! ### Types anywhere in a tree -/

mutual

/-- Decides whether two trees are the same. -/
def decideEq : (n m : Node) → Decidable (n = m)
  | ⟨label, role, start, stop, missing, children⟩,
      ⟨label', role', start', stop', missing', children'⟩ =>
    match decideEqAll children children' with
    | isFalse h => isFalse fun heq => h (congrArg Node.children heq)
    | isTrue h =>
      decidable_of_iff (label = label' ∧ role = role' ∧ start = start' ∧ stop = stop' ∧
        missing = missing') (by simp [h])

/-- Decides whether the trees are the same, one after another. -/
def decideEqAll : (ns ms : List Node) → Decidable (ns = ms)
  | [], [] => isTrue rfl
  | [], _ :: _ => isFalse (by simp)
  | _ :: _, [] => isFalse (by simp)
  | n :: ns, m :: ms =>
    match decideEq n m, decideEqAll ns ms with
    | isTrue h, isTrue h' => isTrue (by rw [h, h'])
    | isFalse h, _ => isFalse fun heq => h (List.cons.inj heq).1
    | _, isFalse h => isFalse fun heq => h (List.cons.inj heq).2

end

instance : DecidableEq Node := decideEq

/-- Whether nothing is said of types in those children of the node that are not compiled with it. In
an assertion there are some behind the value, which are deleted. -/
def sparesTypes (n : Node) : Bool :=
  n.isType || n.children.all fun c => decide (c ∈ n.parts) || c.everywhere isUnerased ||
    n.isAssertion && n.namedChildren.head?.any fun value => value.stop ≤ c.start

theorem Reaches.within {way : List Descent} (h : n.Reaches way x) (hn : n.isOrdered) :
    x.isOrdered ∧ n.start ≤ x.start ∧ x.stop ≤ n.stop := by
  induction h with
  | here => exact ⟨hn, Nat.le_refl _, Nat.le_refl _⟩
  | @down n c _ _ _ _ hchildren _ ih =>
    have hmem : c ∈ n.children := by
      rw [hchildren]
      exact List.mem_append_right _ List.mem_cons_self
    have hrow := (isOrdered_iff.mp hn).2
    obtain ⟨hstart, hstop⟩ := bounds_of_mem hrow hmem
    obtain ⟨hx, hfirst, hlast⟩ := ih (isOrdered_of_mem hrow hmem)
    exact ⟨hx, Nat.le_trans hstart hfirst, Nat.le_trans hlast hstop⟩

/-- What a node says of types at whatever depth is held at the top, or lies in what is. -/
theorem SaysType.exists_holdsType {way : List Descent} (hx : x.SaysType d) (h : n.Reaches way x)
    (hn : n.isOrdered) (hspares : n.everywhere sparesTypes) :
    ∃ m, n.HoldsType m ∧ m.start ≤ d.start ∧ d.stop ≤ m.stop := by
  induction h with
  | here n => exact ⟨d, .here hx, Nat.le_refl _, Nat.le_refl _⟩
  | @down n c x _ _ _ hchildren hway ih =>
    have hmem : c ∈ n.children := by
      rw [hchildren]
      exact List.mem_append_right _ List.mem_cons_self
    have hrow := (isOrdered_iff.mp hn).2
    have hc := isOrdered_of_mem hrow hmem
    obtain ⟨hordered, hfirst, hlast⟩ := hway.within hc
    obtain ⟨hstart, hstop⟩ := hx.within hordered
    obtain ⟨hspare, hbelow⟩ := everywhere_iff.mp hspares
    simp only [sparesTypes, Bool.or_eq_true, List.all_eq_true, decide_eq_true_eq,
      Bool.and_eq_true] at hspare
    rcases hspare with htype | hspare
    · obtain ⟨hbegin, hend⟩ := bounds_of_mem hrow hmem
      exact ⟨n, .here (.own htype), by omega, by omega⟩
    · rcases hspare c hmem with (hpart | hnone) | ⟨hassertion, hbehind⟩
      · obtain ⟨m, hm, hrange⟩ := ih hx hc (hbelow c hmem)
        exact ⟨m, .part hpart hm, hrange⟩
      · have hunerased := (everywhere_iff.mp (hway.everywhere hnone)).1
        rw [hx.not_isUnerased] at hunerased
        cases hunerased
      · obtain ⟨value, hvalue, hle⟩ := (Option.any_eq_true _ _).mp hbehind
        have hsays : n.SaysType c := .said hassertion hvalue hmem (by simpa using hle)
        exact ⟨c, .here hsays, by omega, by omega⟩

end Node

namespace Layout

variable {source : List Char} {bounds r : Range} {x : Nat}

theorem lineStart_le : lineStart source x ≤ x := by
  rw [lineStart, takeTo]
  split
  case h_1 front back hsplit =>
    obtain ⟨-, rfl⟩ := splitAt?_eq_some hsplit
    have htake := List.take_append_drop (front.length - (lastLine front).length) front
    have hwidth := congrArg width htake
    rw [width_append] at hwidth
    omega
  case h_2 => exact Nat.zero_le _

theorem le_lineStop : x ≤ lineStop source x := by
  rw [lineStop]
  omega

theorem le_skipBlanks : x ≤ skipBlanks source bounds x := Nat.le_add_right _ _

/-- What is deleted with a range goes over the part of it that lies in the bounds. -/
theorem removalRange_covers (source : List Char) {start stop : Nat} (hfirst : bounds.start ≤ start)
    (hlast : stop ≤ bounds.stop) (hstart : r.start ≤ start) (hstop : stop ≤ r.stop) :
    (removalRange source bounds r).start ≤ start ∧ stop ≤ (removalRange source bounds r).stop := by
  have hhead : lineStart source r.start ≤ r.start := lineStart_le
  have htail : r.stop ≤ lineStop source r.stop := le_lineStop
  have hskip : r.stop ≤ skipBlanks source bounds r.stop := le_skipBlanks
  rw [removalRange]
  dsimp only
  split
  · exact ⟨by dsimp only; omega, by dsimp only; omega⟩
  · exact ⟨hstart, by dsimp only; omega⟩

end Layout

namespace Emit

variable {t : Setting} {v : Visit} {f : Frame} {p : Place} {scope : List String}
  {n c d x statement : Node} {es ds : List TextEdit} {out : Emission}

/-- The node lies inside the range of one of the edits. -/
def Covers (es : List TextEdit) (n : Node) : Prop :=
  ∃ e ∈ es, e.range.start ≤ n.start ∧ n.stop ≤ e.range.stop

/-- All that the node holds of types lies inside the ranges of the edits. -/
def Erases (es : List TextEdit) (n : Node) : Prop := ∀ x, n.HoldsType x → Covers es x

theorem Covers.mono (h : Covers es n) (hsubset : es ⊆ ds) : Covers ds n := by
  obtain ⟨e, he, hrange⟩ := h
  exact ⟨e, hsubset he, hrange⟩

theorem Covers.within (h : Covers es n) (hstart : n.start ≤ c.start) (hstop : c.stop ≤ n.stop) :
    Covers es c := by
  obtain ⟨e, he, hfirst, hlast⟩ := h
  exact ⟨e, he, Nat.le_trans hfirst hstart, Nat.le_trans hstop hlast⟩

theorem Covers.erases (h : Covers es n) (hn : n.isOrdered) : Erases es n := by
  intro x hx
  obtain ⟨hstart, hstop⟩ := hx.within hn
  exact h.within hstart hstop

theorem Erases.mono (h : Erases es n) (hsubset : es ⊆ ds) : Erases ds n :=
  fun x hx => (h x hx).mono hsubset

theorem covers_replace {start stop : Nat} {text : String} (hstart : start ≤ n.start)
    (hstop : n.stop ≤ stop) : Covers [.replace start stop text] n :=
  ⟨_, List.mem_singleton.mpr rfl, hstart, hstop⟩

theorem erases_of_parts (hn : n.isUnerased) (h : ∀ c ∈ n.parts, Erases es c) : Erases es n := by
  intro x hx
  obtain ⟨c, hc, hx⟩ := hx.exists_part hn
  exact h c hc x hx

/-- The bounds go over the node, and what stands beside the node stands beside it. -/
structure Place.Encloses (bounds : Range) (p : Place) (n : Node) : Prop where
  start : bounds.start ≤ n.start
  stop : n.stop ≤ bounds.stop
  before : p.start n ≤ n.start
  behind : ∀ mark, p.behind = some mark → n.stop ≤ mark.stop

theorem encloses_alone {around : List Node} {bounds : Range} (hstart : bounds.start ≤ n.start)
    (hstop : n.stop ≤ bounds.stop) : Place.Encloses bounds { around } n :=
  ⟨hstart, hstop, Nat.le_refl _, fun _ hmark => by cases hmark⟩

theorem row_encloses {around : List Node} {before : Option Node} {ns : List Node}
    {start stop : Nat} {bounds : Range} (hrow : Node.allOrdered start stop ns)
    (hbefore : ∀ b, before = some b → b.stop ≤ start) {q : Place}
    (hq : (q, c) ∈ Place.row around before ns) (hstart : bounds.start ≤ c.start)
    (hstop : c.stop ≤ bounds.stop) : q.Encloses bounds c := by
  induction ns generalizing start before with
  | nil => cases hq
  | cons m ns ih =>
    obtain ⟨hfirst, -, hrest⟩ := Node.allOrdered_cons_iff.mp hrow
    rcases List.mem_cons.mp hq with heq | hq
    · cases heq
      refine ⟨hstart, hstop, ?_, fun mark hmark => ?_⟩
      · cases hb : before with
        | none => exact Nat.le_refl _
        | some b => exact Nat.le_trans (hbefore b hb) hfirst
      · obtain ⟨back, rfl⟩ := List.head?_eq_some_iff.mp hmark
        obtain ⟨hnext, hmark, -⟩ := Node.allOrdered_cons_iff.mp hrest
        exact Nat.le_trans hnext (Node.start_le_stop_of_isOrdered hmark)
    · refine ih hrest (fun b hb => ?_) hq
      cases hb
      exact Nat.le_refl _

/-- The visit comes to edits that erase what a node holds, if it is not too deep. -/
def IsErasing (depth : Nat) (v : Visit) : Prop :=
  ∀ f p scope n out, n.depth ≤ depth → n.isOrdered → p.Encloses f.bounds n →
    v f p scope n = .ok out → Erases out.edits n

/-! ### Statements that go -/

theorem remove_covers (hp : p.Encloses f.bounds n) : Covers (remove t f p scope n).edits n := by
  have hdeleted : ∀ stop, n.stop ≤ stop →
      Covers [.delete (Layout.removalRange t.source f.bounds ⟨n.start, stop⟩).start
        (Layout.removalRange t.source f.bounds ⟨n.start, stop⟩).stop] n := by
    intro stop hstop
    have hrange := Layout.removalRange_covers t.source (r := ⟨n.start, stop⟩) hp.start hp.stop
      (Nat.le_refl _) hstop
    exact covers_replace hrange.1 hrange.2
  rw [remove]
  cases hbehind : p.behind with
  | none => exact hdeleted _ (Nat.le_refl _)
  | some mark =>
    dsimp only
    split
    · exact hdeleted _ (hp.behind mark hbehind)
    · exact hdeleted _ (Nat.le_refl _)

/-! ### Enums and namespaces -/

theorem enumDeclaration_covers {exported : Bool}
    (h : enumDeclaration t v f p scope n statement exported = .ok out) :
    Covers out.edits statement ∨ n.child? .name = none := by
  rw [enumDeclaration] at h
  cases hname : n.child? .name with
  | none => exact .inr rfl
  | some name =>
    rw [hname] at h
    obtain ⟨state, -, h⟩ := bind_eq_ok_iff.mp h
    cases h
    exact .inl (covers_replace (Nat.le_refl _) (Nat.le_refl _))

theorem namespaceDeclaration_covers {exported : Bool} (hp : p.Encloses f.bounds statement)
    (h : namespaceDeclaration t v f p scope n statement exported = .ok out) :
    Covers out.edits statement ∨ n.child? .name = none := by
  rw [namespaceDeclaration] at h
  cases hname : n.child? .name with
  | none => exact .inr rfl
  | some name =>
    rw [hname] at h
    dsimp only at h
    split at h
    · cases h
      exact .inl (remove_covers hp)
    · split at h
      · cases h
        exact .inl (remove_covers hp)
      · obtain ⟨text, -, h⟩ := bind_eq_ok_iff.mp h
        cases h
        exact .inl (covers_replace (Nat.le_refl _) (Nat.le_refl _))

/-- An enum or a namespace without a name holds no types. -/
theorem erases_nameless (h : n.isOneOf [.enumDeclaration, .internalModule, .module])
    (hname : n.child? .name = none) : Erases es n := by
  refine erases_of_parts (Node.isUnerased_of_isOneOf h (by decide)) fun c hc => ?_
  obtain ⟨k, hk, hkind⟩ := Node.isOneOf_iff.mp h
  simp only [List.mem_cons, List.not_mem_nil, or_false] at hk
  rcases hk with rfl | rfl | rfl <;> simp [Node.parts, hkind, hname] at hc

/-! ### Statements and expressions -/

section

variable {depth : Nat} (hv : IsErasing depth v) (hdepth : n.depth ≤ depth + 1)
  (hn : n.isOrdered) (hp : p.Encloses f.bounds n)

include hv hdepth hn hp

/-- A part that is compiled as if nothing stood beside it. -/
theorem part_erases {around : List Node} {g : Frame} (hc : c ∈ n.children)
    (hg : g.bounds = f.bounds) (h : v g { around } scope c = .ok out) : Erases out.edits c := by
  have hrow := (Node.isOrdered_iff.mp hn).2
  have hlevel := Node.depth_lt_of_mem hc
  obtain ⟨hstart, hstop⟩ := Node.bounds_of_mem hrow hc
  refine hv g { around } scope c out (by omega) (Node.isOrdered_of_mem hrow hc) ?_ h
  rw [hg]
  exact encloses_alone (Nat.le_trans hp.start hstart) (Nat.le_trans hstop hp.stop)

theorem keepValue_erases (hassertion : n.isAssertion) (h : keepValue v f p scope n = .ok out) :
    Erases out.edits n := by
  have hrow := (Node.isOrdered_iff.mp hn).2
  rw [keepValue] at h
  intro x hx
  cases hx with
  | here hsays =>
    cases hsays with
    | own htype =>
      rw [Node.isType_of_isAssertion hassertion] at htype
      cases htype
    | said _ hvalue hc hbehind =>
      rw [hvalue] at h
      obtain ⟨inner, -, h⟩ := bind_eq_ok_iff.mp h
      cases h
      exact ⟨_, List.mem_cons_self, hbehind, (Node.bounds_of_mem hrow hc).2⟩
  | @part _ c _ hc hx =>
    have hhead : n.namedChildren.head? = some c := by
      rw [Node.parts_of_isAssertion hassertion] at hc
      exact Option.mem_toList.mp hc
    rw [hhead] at h
    obtain ⟨inner, hinner, h⟩ := bind_eq_ok_iff.mp h
    cases h
    exact ((part_erases hv hdepth hn hp (Node.parts_subset hc) rfl hinner) x hx).mono
      (List.subset_cons_self _ _)

theorem namespaceExport_erases {container : String} (hd : d ∈ n.children)
    (h : namespaceExport t v f p scope n d container = .ok out) : Erases out.edits d := by
  rw [namespaceExport] at h
  obtain ⟨inner, hinner, h⟩ := bind_eq_ok_iff.mp h
  cases h
  refine (part_erases hv hdepth hn hp hd rfl hinner).mono fun e he => ?_
  exact List.mem_append_left _ (List.mem_cons_of_mem _ he)

theorem exportStatement_erases (hkind : n.kind? = some .exportStatement)
    (h : exportStatement t v f p scope n = .ok out) : Erases out.edits n := by
  have hremoved : Erases (remove t f p scope n).edits n := (remove_covers hp).erases hn
  have hunerased : n.isUnerased := Node.isUnerased_of_kind? hkind (by decide)
  -- An export holds what its declaration holds, or what its value does.
  have hpart : ∀ {es d}, n.parts = [d] → Erases es d → Erases es n := by
    intro es d hparts hd
    refine erases_of_parts hunerased fun c hc => ?_
    rw [hparts, List.mem_singleton] at hc
    rwa [hc]
  have hvisited : ∀ {d out}, n.parts = [d] → (do
      return { ← v f { around := n :: p.around } scope d with removed := false }) = .ok out →
      Erases out.edits n := by
    intro d out hparts h
    obtain ⟨inner, hinner, h⟩ := bind_eq_ok_iff.mp h
    cases h
    have hd : d ∈ n.parts := by simp [hparts]
    have herases := part_erases hv hdepth hn hp (Node.parts_subset hd) rfl hinner
    exact hpart hparts herases
  rw [exportStatement] at h
  split at h
  case isTrue =>
    cases h
    exact hremoved
  case isFalse =>
    split at h
    case h_1 d hdeclaration =>
      have hparts : n.parts = [d] := by simp [Node.parts, hkind, hdeclaration]
      have hd : d ∈ n.children := Node.parts_subset (by simp [hparts])
      split at h
      case isTrue =>
        cases h
        exact hremoved
      case isFalse =>
        split at h
        case isTrue henum =>
          rcases enumDeclaration_covers h with hcovers | hname
          · exact hcovers.erases hn
          · refine hpart hparts (erases_nameless ?_ hname)
            exact Node.isOneOf_iff.mpr ⟨_, by decide, Node.isA_iff.mp henum⟩
        case isFalse =>
          split at h
          case isTrue hmodule =>
            rcases namespaceDeclaration_covers hp h with hcovers | hname
            · exact hcovers.erases hn
            · refine hpart hparts (erases_nameless ?_ hname)
              rw [Bool.or_eq_true, Node.isA_iff, Node.isA_iff] at hmodule
              rcases hmodule with hmodule | hmodule
              · exact Node.isOneOf_iff.mpr ⟨_, by decide, hmodule⟩
              · exact Node.isOneOf_iff.mpr ⟨_, by decide, hmodule⟩
          case isFalse =>
            split at h
            · exact hpart hparts (namespaceExport_erases hv hdepth hn hp hd h)
            · exact hvisited hparts h
    case h_2 value hnone hvalue =>
      have hparts : n.parts = [value] := by simp [Node.parts, hkind, hnone, hvalue]
      split at h
      · cases h
        exact hremoved
      · exact hvisited hparts h
    case h_3 hnone hnone' =>
      refine erases_of_parts hunerased fun c hc => ?_
      simp [Node.parts, hkind, hnone, hnone'] at hc

/-- What becomes of a node that does not stay as it is erases the types in it. -/
theorem lowered?_erases (h : lowered? t v f p scope n = some (.ok out)) : Erases out.edits n := by
  have hremoved : Erases (remove t f p scope n).edits n := (remove_covers hp).erases hn
  have hdeleted : Erases [.delete n.start n.stop] n :=
    (covers_replace (Nat.le_refl _) (Nat.le_refl _)).erases hn
  have hclause : Erases [.delete (p.start n) n.stop] n :=
    (covers_replace hp.before (Nat.le_refl _)).erases hn
  -- Nothing is compiled in an import or in an alias of one.
  have hnothing : ∀ {k}, n.kind? = some k → k ∈ [.importStatement, .importAlias] →
      ∀ es, Erases es n := by
    intro k hkind hk es
    simp only [List.mem_cons, List.not_mem_nil, or_false] at hk
    refine erases_of_parts (Node.isUnerased_of_kind? hkind ?_) fun c hc => ?_
    · rcases hk with rfl | rfl <;> decide
    · rcases hk with rfl | rfl <;> simp [Node.parts, hkind] at hc
  rw [lowered?] at h
  dsimp only at h
  split at h
  case h_1 | h_2 | h_3 | h_4 | h_5 | h_6 | h_7 =>
    cases h
    exact hremoved
  case h_8 =>
    split at h
    · cases h
      exact hremoved
    · cases h
  case h_9 hk => exact hnothing hk (by decide) _
  case h_10 hk => exact exportStatement_erases hv hdepth hn hp hk (Option.some.inj h)
  case h_11 hk =>
    obtain ⟨inner, hinner, h⟩ := Option.map_eq_some_iff.mp h
    have hmodule := (Option.filter_eq_some_iff.mp hinner).2
    rcases namespaceDeclaration_covers hp h with hcovers | hname
    · exact hcovers.erases hn
    · refine erases_of_parts (Node.isUnerased_of_kind? hk (by decide)) fun c hc => ?_
      obtain rfl : c = inner := by simpa [Node.parts, hk, hinner] using hc
      exact erases_nameless (Node.isOneOf_iff.mpr ⟨_, by decide, Node.isA_iff.mp hmodule⟩) hname
  case h_12 hk | h_13 hk =>
    rcases namespaceDeclaration_covers hp (Option.some.inj h) with hcovers | hname
    · exact hcovers.erases hn
    · exact erases_nameless (Node.isOneOf_iff.mpr ⟨_, by decide, hk⟩) hname
  case h_14 hk =>
    rcases enumDeclaration_covers (Option.some.inj h) with hcovers | hname
    · exact hcovers.erases hn
    · exact erases_nameless (Node.isOneOf_iff.mpr ⟨_, by decide, hk⟩) hname
  case h_15 hk => exact hnothing hk (by decide) _
  case h_16 | h_17 | h_18 | h_19 | h_20 | h_21 | h_22 | h_23 =>
    cases h
    exact hdeleted
  case h_24 =>
    cases h
    exact hclause
  case h_25 =>
    split at h
    · split at h
      · cases h
        exact hclause
      · cases h
    · cases h
  case h_26 | h_27 =>
    cases h
    exact (covers_replace (Nat.le_refl _) Layout.le_skipBlanks).erases hn
  case h_28 hk | h_29 hk | h_30 hk =>
    exact keepValue_erases hv hdepth hn hp (Node.isOneOf_iff.mpr ⟨_, by decide, hk⟩)
      (Option.some.inj h)
  case h_31 =>
    split at h
    · split at h
      case h_1 comma hcomma =>
        cases h
        have hbehind := hp.behind comma (Option.filter_eq_some_iff.mp hcomma).1
        exact (covers_replace (Nat.le_refl _)
          (Nat.le_trans hbehind Layout.le_skipBlanks)).erases hn
      case h_2 =>
        cases h
        exact hdeleted
    · cases h
  case h_32 => cases h

end

/-- Types and assertions do not stay as they are. -/
theorem lowered?_isSome (h : n.isType ∨ n.isAssertion) : (lowered? t v f p scope n).isSome := by
  rw [Node.isType, Bool.or_eq_true, Bool.or_eq_true, Bool.and_eq_true, Bool.and_eq_true] at h
  rcases h with ((h | ⟨hfield, hword⟩) | ⟨hparameter, hthis⟩) | h
  · obtain ⟨k, hk, hkind⟩ := Node.isOneOf_iff.mp h
    simp only [Node.typeKinds, erasedDeclarations, List.cons_append, List.nil_append,
      List.mem_cons, List.not_mem_nil, or_false] at hk
    rcases hk with rfl | rfl | rfl | rfl | rfl | rfl | rfl | rfl | rfl | rfl | rfl | rfl | rfl |
      rfl | rfl | rfl | rfl | rfl <;> simp [lowered?, hkind]
  · simp only [lowered?, Node.isA_iff.mp hfield, hword, if_true, Option.isSome_some]
  · simp only [lowered?, Node.isA_iff.mp hparameter, hthis, if_true]
    split <;> rfl
  · obtain ⟨k, hk, hkind⟩ := Node.isOneOf_iff.mp h
    simp only [List.mem_cons, List.not_mem_nil, or_false] at hk
    rcases hk with rfl | rfl | rfl <;> simp [lowered?, hkind]

theorem isUnerased_of_lowered? (h : lowered? t v f p scope n = none) : n.isUnerased := by
  have hstays : ¬(n.isType ∨ n.isAssertion) := by
    intro hown
    have hsome : (lowered? t v f p scope n).isSome := lowered?_isSome hown
    rw [h] at hsome
    cases hsome
  rw [not_or, Bool.not_eq_true, Bool.not_eq_true] at hstays
  exact Node.isUnerased_iff.mpr hstays

/-! ### Every node -/

theorem visitChildren_mem {ps : List (Place × Node)} (h : visitChildren t v f n scope ps = .ok out)
    {q : Place} (hmem : (q, c) ∈ ps) (hnamed : c.isNamed) :
    ∃ scope' own, v f q scope' c = .ok own ∧ own.edits ⊆ out.edits := by
  induction ps generalizing scope out with
  | nil => cases hmem
  | cons first ps ih =>
    obtain ⟨q', m⟩ := first
    have hrest : ∀ {own more : Emission}, visitChildren t v f n own.scope ps = .ok more →
        (q, c) ∈ ps →
        ∃ scope' own', v f q scope' c = .ok own' ∧ own'.edits ⊆ own.edits ++ more.edits := by
      intro own more hmore hmem
      obtain ⟨scope', own', hown', hsubset⟩ := ih hmore hmem
      exact ⟨scope', own', hown', List.subset_append_of_subset_right _ hsubset⟩
    rw [visitChildren] at h
    split at h
    case isTrue =>
      obtain ⟨own, hown, h⟩ := bind_eq_ok_iff.mp h
      obtain ⟨more, hmore, h⟩ := bind_eq_ok_iff.mp h
      cases h
      rcases List.mem_cons.mp hmem with heq | hmem
      · cases heq
        exact ⟨scope, own, hown, List.subset_append_left _ _⟩
      · exact hrest hmore hmem
    case isFalse hword =>
      obtain ⟨own, -, h⟩ := bind_eq_ok_iff.mp h
      obtain ⟨more, hmore, h⟩ := bind_eq_ok_iff.mp h
      cases h
      rcases List.mem_cons.mp hmem with heq | hmem
      · cases heq
        exact absurd hnamed hword
      · exact hrest hmore hmem

/-- The visit of a node erases types when that of its parts does. -/
theorem visitNode_isErasing {depth : Nat} (hv : IsErasing depth v) :
    IsErasing (depth + 1) (visitNode t v) := by
  intro f p scope n out hdepth hn hp h
  rw [visitNode] at h
  cases hlowered : lowered? t v f p scope n with
  | some result =>
    rw [hlowered] at h
    dsimp only at h
    subst h
    exact lowered?_erases hv hdepth hn hp hlowered
  | none =>
    rw [hlowered] at h
    obtain ⟨inner, hinner, h⟩ := bind_eq_ok_iff.mp h
    cases h
    refine erases_of_parts (isUnerased_of_lowered? hlowered) fun c hc x hx => ?_
    have hmem := Node.parts_subset hc
    have hrow := (Node.isOrdered_iff.mp hn).2
    have hlevel := Node.depth_lt_of_mem hmem
    obtain ⟨hstart, hstop⟩ := Node.bounds_of_mem hrow hmem
    obtain ⟨q, hq⟩ := Place.exists_mem_row (n :: p.around) none hmem
    have hencloses : q.Encloses f.bounds c :=
      row_encloses hrow (fun _ hb => by cases hb) hq (Nat.le_trans hp.start hstart)
        (Nat.le_trans hstop hp.stop)
    obtain ⟨scope', own, hown, hsubset⟩ := visitChildren_mem hinner hq hx.isNamed
    exact (hv f q scope' c own (by omega) (Node.isOrdered_of_mem hrow hmem) hencloses hown x
      hx).mono (List.subset_append_of_subset_right _ hsubset)

theorem visit_isErasing (fuel : Nat) : IsErasing fuel (visit t fuel) := by
  induction fuel with
  | zero =>
    intro f p scope n out hdepth
    obtain ⟨label, role, start, stop, missing, children⟩ := n
    rw [Node.depth] at hdepth
    omega
  | succ fuel ih => exact visitNode_isErasing ih

end Emit

end CompilingProxy
