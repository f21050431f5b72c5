import CompilingProxy.Proofs.Emit.Scope
import CompilingProxy.Proofs.Emit.Totality
import CompilingProxy.Proofs.Emit.Types

/-!
# Enums and namespaces are declared once

Every enum and every namespace in a scope is written out with one declaration of its name, or with
none where the scope has a value of that name, unless the name is mistaken for that of another
scope. What is compiled is followed node by node, with and without a check of that; what a node needs
to know of the list of names is kept from each node to the next.
-/

namespace CompilingProxy

open Text

namespace Emit

variable {t : Setting} {v v' : Visit} {f : Frame} {p : Place} {scope names : List String}
  {n c d statement root : Node} {seed : List String} {around : List Node} {depth : Nat}
  {ps : List (Place × Node)}

/-- The list of names is as it has to be behind the node. -/
structure Settled (source : List Char) (scope : List String) (n : Node) (scope' : List String) :
    Prop where
  grown : Grown scope (n.calls source) scope'
  filled : ∀ x, n.called? source = some x → x ∈ scope'

/-- The visits come to the same wherever the list of names fits, and settle it. -/
def Follow (source : List Char) (root : Node) (seed : List String) (depth : Nat) (v v' : Visit) :
    Prop :=
  ∀ f p scope n, n.depth ≤ depth → Standing source root seed p.around scope n →
    Concur (fun out => Settled source scope n out.scope) (v f p scope n) (v' f p scope n)

/-- What comes of an enum or a namespace: nothing is filled, or a call fills an object. -/
inductive Fills (t : Setting) (f : Frame) (scope : List String) (d statement : Node)
    (exported : Bool) : Emission → Prop
  | still {edits : List TextEdit} {removed : Bool} (hname : d.objectName? t.source = none) :
    Fills t f scope d statement exported ⟨edits, removed, scope⟩
  | call {name body : String} {scope' : List String} {text : String × List String}
      (hname : d.objectName? t.source = some name)
      (hgrown : Grown scope (d.innerCalls t.source) scope')
      (htext : text = wrap f scope' name exported body
        (String.ofList (Layout.indentAt t.source statement.start))) :
    Fills t f scope d statement exported
      ⟨[.replace statement.start statement.stop text.1], false, text.2⟩

/-! ### Nodes in a row -/

section

variable (hv : Follow t.source root seed depth v v')

include hv

theorem visitAll_concur (hdepth : ∀ x ∈ ps, x.2.depth ≤ depth)
    (hplace : ∀ x ∈ ps, x.1.around = around)
    (hq : Queue t.source root seed around scope (ps.map (·.2))) :
    Concur (fun _ => True) (visitAll v f scope ps) (visitAll v' f scope ps) := by
  induction ps generalizing scope with
  | nil => exact .refl fun _ _ => trivial
  | cons x ps ih =>
    obtain ⟨q, m⟩ := x
    obtain rfl : q.around = around := hplace _ List.mem_cons_self
    rw [visitAll, visitAll]
    refine (hv f q scope m (hdepth _ List.mem_cons_self) hq.standing).andThen fun out hout => ?_
    refine (ih (fun x hx => hdepth x (List.mem_cons_of_mem _ hx))
      (fun x hx => hplace x (List.mem_cons_of_mem _ hx))
      (hq.next hout.grown fun _ => hout.filled)).andThen fun _ _ => ?_
    exact .refl fun _ _ => trivial

theorem render_concur (hdepth : n.depth ≤ depth)
    (hn : Standing t.source root seed p.around scope n) :
    Concur (fun r => Settled t.source scope n r.2) (render t v f p scope n)
      (render t v' f p scope n) := by
  rw [render, render]
  refine (hv _ p scope n hdepth hn).andThen fun out hout => ?_
  exact .refl (Yields.bind fun _ => .pure hout)

theorem statementLines_concur {indent : List Char} (hdepth : ∀ x ∈ ps, x.2.depth ≤ depth)
    (hplace : ∀ x ∈ ps, x.1.around = around)
    (hq : Queue t.source root seed around scope (ps.map (·.2))) :
    Concur (fun _ => True) (statementLines t v f indent scope ps)
      (statementLines t v' f indent scope ps) := by
  induction ps generalizing scope with
  | nil => exact .refl fun _ _ => trivial
  | cons x ps ih =>
    obtain ⟨q, m⟩ := x
    obtain rfl : q.around = around := hplace _ List.mem_cons_self
    rw [statementLines, statementLines]
    refine (render_concur hv (hdepth _ List.mem_cons_self) hq.standing).andThen
      fun r hr => ?_
    refine (ih (fun x hx => hdepth x (List.mem_cons_of_mem _ hx))
      (fun x hx => hplace x (List.mem_cons_of_mem _ hx))
      (hq.next hr.grown fun _ => hr.filled)).andThen fun _ _ => ?_
    exact .refl fun _ _ => trivial

theorem visitChildren_concur (hdepth : ∀ x ∈ ps, x.2.depth ≤ depth)
    (hplace : ∀ x ∈ ps, x.1.around = around)
    (hq : Queue t.source root seed around scope (ps.map (·.2)))
    (hnames : ∀ x ∈ ps, x.2.calls t.source ⊆ names) :
    Concur (fun out => Grown scope names out.scope) (visitChildren t v f n scope ps)
      (visitChildren t v' f n scope ps) := by
  induction ps generalizing scope with
  | nil =>
    refine .refl fun out hout => ?_
    cases hout
    exact .refl
  | cons x ps ih =>
    obtain ⟨q, m⟩ := x
    obtain rfl : q.around = around := hplace _ List.mem_cons_self
    have hrest (own : Emission) (hown : Settled t.source scope m own.scope) :
        Concur (fun out : Emission => Grown scope names out.scope)
          (do
            let more ← visitChildren t v f n own.scope ps
            return ⟨own.edits ++ more.edits, false, more.scope⟩)
          (do
            let more ← visitChildren t v' f n own.scope ps
            return ⟨own.edits ++ more.edits, false, more.scope⟩) := by
      refine (ih (fun x hx => hdepth x (List.mem_cons_of_mem _ hx))
        (fun x hx => hplace x (List.mem_cons_of_mem _ hx))
        (hq.next hown.grown fun _ => hown.filled)
        fun x hx => hnames x (List.mem_cons_of_mem _ hx)).andThen fun more hmore => ?_
      exact .pure ((hown.grown.mono (hnames _ List.mem_cons_self)).trans hmore)
    rw [visitChildren, visitChildren]
    split
    case isTrue =>
      exact (hv f q scope m (hdepth _ List.mem_cons_self) hq.standing).andThen hrest
    case isFalse hword =>
      exact hrest _ ⟨.refl, fun x hx => absurd (Node.isNamed_of_called? hx) hword⟩

/-! ### Enums -/

theorem memberValue_concur {s : EnumState} {value : Option Node}
    (hn : Standing t.source root seed around s.scope n)
    (hvalue : ∀ m, value = some m → n.isA .enumAssignment ∧ m ∈ n.children ∧ m.depth ≤ depth) :
    Concur (fun r => Grown s.scope (n.calls t.source) r.2)
      (memberValue t v f (n :: around) s value) (memberValue t v' f (n :: around) s value) := by
  cases value with
  | none =>
    rw [memberValue, memberValue]
    refine .refl ?_
    split <;> exact Yields.pure .refl
  | some m =>
    obtain ⟨hassigned, hm, hdepth⟩ := hvalue m rfl
    have hkind := Node.isA_iff.mp hassigned
    have hspace : n.isSpace = false := Node.isOneOf_of_kind? hkind _
    rw [memberValue, memberValue]
    dsimp only
    split
    case h_1 => exact .pure .refl
    case h_2 =>
      have hpart := hn.part hspace (Node.isA_of_kind? hkind _) hm
      refine (render_concur (p := { around := n :: around }) hv hdepth hpart).andThen
        fun r hr => .pure (hr.grown.mono ?_)
      exact Node.calls_subset_of_mem hm hspace (Node.isA_of_kind? hkind _)

theorem enumMember_concur {s : EnumState} {indent : String} (hdepth : n.depth ≤ depth)
    (hn : Standing t.source root seed around s.scope n) :
    Concur (fun s' => Grown s.scope (n.calls t.source) s'.scope)
      (enumMember t v f around indent s n) (enumMember t v' f around indent s n) := by
  rw [enumMember, enumMember]
  cases hassigned : n.isA .enumAssignment with
  | false =>
    simp only [Bool.false_eq_true, if_false]
    refine (memberValue_concur hv hn fun _ hm => by cases hm).andThen fun r hr => .refl ?_
    obtain ⟨computed, last⟩ := r
    dsimp only
    split <;> exact .pure hr
  | true =>
    simp only [if_true]
    cases hname : n.child? .name with
    | none => exact .pure .refl
    | some key =>
      dsimp only
      refine (memberValue_concur hv hn fun m hm => ?_).andThen fun r hr => .refl ?_
      · have hmem := mem_of_child? hm
        have hlevel := Node.depth_lt_of_mem hmem
        exact ⟨hassigned, hmem, by omega⟩
      · obtain ⟨computed, last⟩ := r
        dsimp only
        split <;> exact .pure hr

/-- The members of an enum are compiled one after another. -/
theorem foldlM_enumMember_concur {s : EnumState} {indent : String} {members : List Node}
    (hscope : opensScope around = false) (hdepth : ∀ m ∈ members, m.depth ≤ depth)
    (hq : Queue t.source root seed around s.scope members)
    (hnames : ∀ m ∈ members, m.calls t.source ⊆ names) :
    Concur (fun s' => Grown s.scope names s'.scope)
      (members.foldlM (enumMember t v f around indent) s)
      (members.foldlM (enumMember t v' f around indent) s) := by
  induction members generalizing s with
  | nil => exact .pure .refl
  | cons m members ih =>
    rw [List.foldlM_cons, List.foldlM_cons]
    refine (enumMember_concur hv (hdepth m List.mem_cons_self) hq.standing).andThen
      fun s' hs' => ?_
    refine (ih (fun m hm => hdepth m (List.mem_cons_of_mem _ hm))
      (hq.next hs' fun hopen => by simp [hscope] at hopen)
      fun m hm => hnames m (List.mem_cons_of_mem _ hm)).imp fun s'' hs'' => ?_
    exact (hs'.mono (hnames m List.mem_cons_self)).trans hs''

theorem enumDeclaration_concur {exported : Bool} (henum : d.isA .enumDeclaration)
    (hdepth : d.depth ≤ depth + 1) (hd : Standing t.source root seed p.around scope d) :
    Concur (Fills t f scope d statement exported)
      (enumDeclaration t v f p scope d statement exported)
      (enumDeclaration t v' f p scope d statement exported) := by
  have hkind := Node.isA_iff.mp henum
  rw [enumDeclaration, enumDeclaration]
  cases hname : d.child? .name with
  | none => exact .pure (.still (by rw [Node.objectName?, if_pos henum, hname]; rfl))
  | some name =>
    have hobject : d.objectName? t.source = some (name.text t.source) := by
      rw [Node.objectName?, if_pos henum, hname]
      rfl
    dsimp only
    cases hbody : d.child? .body with
    | none => exact .pure (.call hobject .refl rfl)
    | some body =>
      have hmem := mem_of_child? hbody
      have hlevel := Node.depth_lt_of_mem hmem
      obtain ⟨hown, hbelow⟩ := Node.everywhere_iff.mp hd.bodied
      have hkind' : body.kind? = some .enumBody := by
        rw [Node.hasOwnBody, hbody, Option.all_some, henum] at hown
        exact Node.isA_iff.mp (by simpa using (Bool.and_eq_true_iff.mp hown).1)
      have hspace : d.isSpace = false := Node.isOneOf_of_kind? hkind _
      have hspace' : body.isSpace = false := Node.isOneOf_of_kind? hkind' _
      have hscope : opensScope (body :: d :: p.around) = false := Node.isA_of_kind? hkind' _
      have hpart := hd.part hspace (Node.isA_of_kind? hkind _) hmem
      have hclosed : ¬opensScope (body :: d :: p.around) := by simp [hscope]
      have hq := (hpart.queue hspace').named.filter (fun m => !m.isA .comment) fun h =>
        absurd h hclosed
      have hinside : ∀ m ∈ (body.children.filter Node.isNamed).filter fun m => !m.isA .comment,
          m ∈ body.children := fun m hm => (List.mem_filter.mp (List.mem_filter.mp hm).1).1
      have hinner : body.calls t.source ⊆ d.innerCalls t.source := by
        intro x hx
        rw [Node.innerCalls, if_pos henum, Node.callsOf_eq]
        exact List.mem_flatMap.mpr ⟨body, hmem, hx⟩
      have hnames : ∀ m ∈ (body.children.filter Node.isNamed).filter fun m => !m.isA .comment,
          m.calls t.source ⊆ d.innerCalls t.source := fun m hm x hx =>
        hinner (Node.calls_subset_of_mem (hinside m hm) hspace' (Node.isA_of_kind? hkind' _) hx)
      refine (foldlM_enumMember_concur hv hscope (fun m hm => ?_) hq hnames).andThen
        fun s hs => .pure (.call hobject hs rfl)
      have hlevel' := Node.depth_lt_of_mem (hinside m hm)
      omega

/-! ### Namespaces -/

/-- The body of a namespace is compiled with a list of names of its own. -/
theorem bodyText_concur {indent : List Char} {body : Node} (hdepth : body.depth ≤ depth + 1)
    (hblock : body.isBlock)
    (hq : Queue t.source root seed (body :: p.around) [] body.children) :
    Concur (fun _ => True) (bodyText t v f p indent body) (bodyText t v' f p indent body) := by
  have hplace : ∀ x ∈ p.children body, x.2.depth ≤ depth ∧ x.1.around = body :: p.around := by
    intro x hx
    obtain ⟨hmem, haround⟩ := mem_row hx
    have hlevel := Node.depth_lt_of_mem hmem
    exact ⟨by omega, haround⟩
  rw [bodyText, bodyText]
  dsimp only
  split
  case isTrue =>
    have hinner := hq.inBraces hblock
    rw [← map_snd_filter_children] at hinner
    refine (visitAll_concur hv (fun x hx => (hplace x (List.mem_filter.mp hx).1).1)
      (fun x hx => (hplace x (List.mem_filter.mp hx).1).2) hinner).andThen fun _ _ => ?_
    exact .refl fun _ _ => trivial
  case isFalse =>
    have hinner := hq.named
    rw [← map_snd_filter_children] at hinner
    refine (statementLines_concur hv (fun x hx => (hplace x (List.mem_filter.mp hx).1).1)
      (fun x hx => (hplace x (List.mem_filter.mp hx).1).2) hinner).andThen fun _ _ => ?_
    exact .refl fun _ _ => trivial

omit hv in
theorem headD_parts (name : List Char) :
    ((splitOnChar '.' name).map fun part => String.ofList (trim part)).headD "" =
      firstName (String.ofList name) := by
  rw [firstName, String.toList_ofList]
  cases splitOnChar '.' name <;> rfl

theorem namespaceDeclaration_concur {exported : Bool} (hspace : d.isSpace)
    (hdepth : d.depth ≤ depth + 1) (hordered : d.isOrdered)
    (hbodied : d.everywhere Node.hasOwnBody)
    (hn : Standing t.source root seed p.around scope n) :
    Concur (Fills t f scope d statement exported)
      (namespaceDeclaration t v f p scope d statement exported)
      (namespaceDeclaration t v' f p scope d statement exported) := by
  have henum : d.isA .enumDeclaration = false := by
    rcases Node.isSpace_iff.mp hspace with hkind | hkind <;> exact Node.isA_of_kind? hkind _
  have hobject : d.objectName? t.source =
      if d.isInstantiated && (d.child? .body).isSome then
        ((d.child? .name).filter (!·.isA .string)).map fun name => firstName (name.text t.source)
      else none := by
    rw [Node.objectName?, henum, if_neg Bool.false_ne_true]
  rw [namespaceDeclaration, namespaceDeclaration]
  cases hname : d.child? .name with
  | none =>
    refine .pure (.still ?_)
    rw [hobject, hname]
    simp
  | some name =>
    dsimp only
    by_cases hnothing : name.isA .string || !d.isInstantiated
    · rw [if_pos hnothing, if_pos hnothing]
      refine .pure (.still ?_)
      rw [hobject, hname]
      cases hstring : name.isA .string with
      | true => simp [hstring]
      | false =>
        rw [hstring, Bool.false_or, Bool.not_eq_true'] at hnothing
        simp [hnothing]
    rw [if_neg hnothing, if_neg hnothing]
    cases hbody : d.child? .body with
    | none =>
      refine .pure (.still ?_)
      rw [hobject, hbody]
      simp
    | some body =>
      have hmem := mem_of_child? hbody
      have hlevel := Node.depth_lt_of_mem hmem
      obtain ⟨hown, hbelow⟩ := Node.everywhere_iff.mp hbodied
      have hblock : body.isBlock := by
        rw [Node.hasOwnBody, hbody, Option.all_some, hspace] at hown
        simpa using (Bool.and_eq_true_iff.mp hown).2
      have hplain : body.isSpace = false :=
        Node.isOneOf_of_kind? (Node.isA_iff.mp (Node.isBlock_iff.mp hblock).1) _
      have hq := hn.body (Node.isOrdered_of_mem (Node.isOrdered_iff.mp hordered).2 hmem)
        (hbelow body hmem) hplain hspace
      have hcall : d.objectName? t.source = some
          (((splitOnChar '.' (slice t.source name.start name.stop)).map fun part =>
            String.ofList (trim part)).headD "") := by
        rw [Bool.or_eq_true, not_or, Bool.not_eq_true', Bool.not_eq_false] at hnothing
        rw [hobject, hname, hbody, headD_parts]
        simp [hnothing.1, hnothing.2, Node.text]
      dsimp only
      refine (bodyText_concur (p := { around := d :: p.around }) hv (by omega) hblock hq).andThen
        fun text _ => .pure (.call hcall .refl rfl)

end

/-! ### Every node -/

/-- What comes of a node is as its scope asks for it. -/
def Suits (source : List Char) (f : Frame) (p : Place) (scope : List String) (n : Node)
    (out : Emission) : Prop :=
  Settled source scope n out.scope ∧ p.declaresOnce source f n out

/-- Whatever comes of a node that fills no object is as its scope asks for it. -/
theorem suits_of_grown {out : Emission} (hcalled : n.called? t.source = none)
    (hgrown : Grown scope (n.calls t.source) out.scope) : Suits t.source f p scope n out := by
  refine ⟨⟨hgrown, fun x hx => ?_⟩, by rw [Place.declaresOnce, hcalled]⟩
  rw [hcalled] at hx
  cases hx

theorem suits_of_still {edits : List TextEdit} {removed : Bool}
    (hcalled : n.called? t.source = none) :
    Suits t.source f p scope n ⟨edits, removed, scope⟩ :=
  suits_of_grown hcalled .refl

section

variable (hroot : root.isSpace = false)
  (hseed : ∀ x, x ∈ seed ↔ ∃ c ∈ root.children, ⟨.name, x⟩ ∈ c.valueNames t.source)
  (hn : Standing t.source root seed p.around scope n)

include hroot hseed hn

theorem suits_of_fills {out : Emission} (hcontainer : n.container? = some d)
    (h : Fills t f scope d n (n.isA .exportStatement) out) : Suits t.source f p scope n out := by
  have hcalled : n.called? t.source = d.objectName? t.source := by
    rw [Node.called?, hcontainer]
    rfl
  cases h with
  | still hname => exact suits_of_still (hcalled.trans hname)
  | call hname hgrown htext =>
    subst htext
    rw [hname] at hcalled
    refine ⟨⟨?_, fun x hx => ?_⟩, ?_⟩
    · dsimp only
      exact (hgrown.mono (innerCalls_subset hcontainer)).trans
        (grown_wrap (Node.mem_calls_of_called? hcalled))
    · obtain rfl := Option.some.inj (hcalled.symm.trans hx)
      dsimp only
      exact mem_wrap
    · exact declaresOnce_of_wrap hn hroot hseed hcontainer hcalled hgrown

variable (hv : Follow t.source root seed depth v v') (hdepth : n.depth ≤ depth + 1)

include hv hdepth

omit hroot hseed in
theorem part_concur (hspace : n.isSpace = false) (hblock : n.isA .statementBlock = false)
    (hambient : n.isA .ambientDeclaration = false) (hc : c ∈ n.children) :
    Concur (fun out => Grown scope (n.calls t.source) out.scope)
      (v f { around := n :: p.around } scope c) (v' f { around := n :: p.around } scope c) := by
  have hlevel := Node.depth_lt_of_mem hc
  refine (hv f _ scope c (by omega) (hn.part hspace hblock hc)).imp fun out hout => ?_
  exact hout.grown.mono (Node.calls_subset_of_mem hc hspace hambient)

omit hroot hseed in
theorem keepValue_concur
    (hkind : n.isOneOf [.asExpression, .satisfiesExpression, .nonNullExpression]) :
    Concur (fun out => Grown scope (n.calls t.source) out.scope) (keepValue v f p scope n)
      (keepValue v' f p scope n) := by
  have hplain : n.isSpace = false ∧ n.isA .statementBlock = false ∧
      n.isA .ambientDeclaration = false := by
    obtain ⟨k, hk, hkind⟩ := Node.isOneOf_iff.mp hkind
    rw [Node.isSpace, Node.isOneOf_of_kind? hkind, Node.isA_of_kind? hkind, Node.isA_of_kind? hkind]
    simp only [List.mem_cons, List.not_mem_nil, or_false] at hk
    rcases hk with rfl | rfl | rfl <;> decide
  obtain ⟨hspace, hblock, hambient⟩ := hplain
  rw [keepValue, keepValue]
  cases hvalue : n.namedChildren.head? with
  | none => exact .pure .refl
  | some value =>
    have hmem := mem_of_namedChildren (List.mem_of_head? hvalue)
    exact (part_concur hn hv hdepth hspace hblock hambient hmem).andThen fun _ hout => .pure hout

omit hroot hseed hn hv hdepth in
theorem plain_of_erased (h : d.isOneOf erasedDeclarations) :
    d.isA .enumDeclaration = false ∧ d.isSpace = false := by
  obtain ⟨k, hk, hkind⟩ := Node.isOneOf_iff.mp h
  rw [Node.isA_of_kind? hkind, Node.isSpace, Node.isOneOf_of_kind? hkind]
  simp only [erasedDeclarations, List.mem_cons, List.not_mem_nil, or_false] at hk
  rcases hk with rfl | rfl | rfl | rfl <;> decide

theorem exportStatement_concur (hkind : n.kind? = some .exportStatement) :
    Concur (Suits t.source f p scope n) (exportStatement t v f p scope n)
      (exportStatement t v' f p scope n) := by
  have hexport : n.isA .exportStatement := Node.isA_iff.mpr hkind
  have hspace : n.isSpace = false := Node.isOneOf_of_kind? hkind _
  have hblock : n.isA .statementBlock = false := Node.isA_of_kind? hkind _
  have hambient : n.isA .ambientDeclaration = false := Node.isA_of_kind? hkind _
  have hcontainer : n.container? = if n.hasWord "type" then none else
      (n.child? .declaration).filter fun d => d.isA .enumDeclaration || d.isSpace := by
    rw [Node.container?, hkind]
  have hstill (h : n.container? = none) : n.called? t.source = none := by
    rw [Node.called?, h]
    rfl
  rw [exportStatement, exportStatement]
  by_cases htype : n.hasWord "type"
  · rw [if_pos htype, if_pos htype]
    exact .pure (suits_of_still (hstill (by rw [hcontainer, if_pos htype])))
  rw [if_neg htype] at hcontainer
  rw [if_neg htype, if_neg htype]
  cases hdeclaration : n.child? .declaration with
  | some d =>
    rw [hdeclaration] at hcontainer
    have hd := mem_of_child? hdeclaration
    have hlevel := Node.depth_lt_of_mem hd
    have hpart := hn.part hspace hblock hd
    have hother (h : d.isA .enumDeclaration = false ∧ d.isSpace = false) :
        n.called? t.source = none := hstill (by simp [hcontainer, h])
    dsimp only
    by_cases herased : d.isOneOf erasedDeclarations
    · rw [if_pos herased, if_pos herased]
      exact .pure (suits_of_still (hother (plain_of_erased herased)))
    rw [if_neg herased, if_neg herased]
    by_cases henum : d.isA .enumDeclaration
    · rw [if_pos henum, if_pos henum]
      have hfills : Concur (Fills t f scope d n true)
          (enumDeclaration t v f { around := n :: p.around } scope d n true)
          (enumDeclaration t v' f { around := n :: p.around } scope d n true) :=
        enumDeclaration_concur hv henum (by omega) hpart
      refine hfills.imp fun out hout => suits_of_fills hroot hseed hn ?_ (by rwa [hexport])
      rw [hcontainer, Option.filter_some, henum, Bool.true_or, if_pos rfl]
    rw [if_neg henum, if_neg henum]
    have hmodule : (d.isA .internalModule || d.isA .module) = d.isSpace := by
      rw [Node.isSpace, Node.isOneOf_cons, Node.isOneOf_cons, Node.isOneOf_nil, Bool.or_false]
    rw [hmodule]
    by_cases hspace' : d.isSpace
    · rw [if_pos hspace', if_pos hspace']
      have hfills : Concur (Fills t f scope d n true) (namespaceDeclaration t v f p scope d n true)
          (namespaceDeclaration t v' f p scope d n true) :=
        namespaceDeclaration_concur hv hspace' (by omega) hpart.ordered hpart.bodied hn
      refine hfills.imp fun out hout => suits_of_fills hroot hseed hn ?_ (by rwa [hexport])
      rw [hcontainer, Option.filter_some, hspace', Bool.or_true, if_pos rfl]
    rw [if_neg hspace', if_neg hspace']
    rw [Bool.not_eq_true] at henum hspace'
    have hgrown := part_concur (f := f) hn hv hdepth hspace hblock hambient hd
    cases f.namespaces.head? with
    | none =>
      exact hgrown.andThen fun out hout => .pure (suits_of_grown (hother ⟨henum, hspace'⟩) hout)
    | some container =>
      dsimp only
      rw [namespaceExport, namespaceExport]
      exact hgrown.andThen fun out hout => .pure (suits_of_grown (hother ⟨henum, hspace'⟩) hout)
  | none =>
    rw [hdeclaration] at hcontainer
    have hcalled := hstill hcontainer
    cases hvalue : n.child? .value with
    | some value =>
      dsimp only
      split
      case isTrue => exact .pure (suits_of_still hcalled)
      case isFalse =>
        exact (part_concur hn hv hdepth hspace hblock hambient (mem_of_child? hvalue)).andThen
          fun _ hout => .pure (suits_of_grown hcalled hout)
    | none =>
      dsimp only
      cases n.childOf? .exportClause with
      | none => exact .pure (suits_of_still hcalled)
      | some clause =>
        refine .pure ?_
        rw [exportClause]
        dsimp only
        split
        · exact suits_of_still hcalled
        · split <;> exact suits_of_still hcalled

omit hroot hseed hn hv hdepth in
theorem importStatement_scope : (importStatement t f p scope n).scope = scope := by
  rw [importStatement]
  split
  · rfl
  · dsimp only
    split
    · rfl
    · split
      · rfl
      · split <;> rfl

/-- What takes a node's place suits the node's scope. -/
theorem lowered?_concur :
    Option.Rel (Concur (Suits t.source f p scope n)) (lowered? t v f p scope n)
      (lowered? t v' f p scope n) := by
  have hplain {k : Kind} {out : Emission} (hk : n.kind? = some k) (hkind : k ∉ Node.containerKinds)
      (hscope : out.scope = scope) :
      Option.Rel (Concur (Suits t.source f p scope n)) (some (.ok out : Except EditError Emission))
        (some (.ok out)) := by
    refine .some (.pure (suits_of_grown (Node.called?_of_kind? hk hkind) ?_))
    rw [hscope]
    exact .refl
  have hkept {k : Kind} (hk : n.kind? = some k) (hkind : k ∉ Node.containerKinds)
      (hassertion : k ∈ [.asExpression, .satisfiesExpression, .nonNullExpression]) :
      Option.Rel (Concur (Suits t.source f p scope n)) (some (keepValue v f p scope n))
        (some (keepValue v' f p scope n)) := by
    have hassertion : n.isOneOf [.asExpression, .satisfiesExpression, .nonNullExpression] :=
      Node.isOneOf_iff.mpr ⟨k, hassertion, hk⟩
    exact .some ((keepValue_concur hn hv hdepth hassertion).imp
      fun out hout => suits_of_grown (Node.called?_of_kind? hk hkind) hout)
  have hspace (hmodule : n.isSpace) (hexport : n.isA .exportStatement = false)
      (hcontainer : n.container? = some n) :
      Option.Rel (Concur (Suits t.source f p scope n))
        (some (namespaceDeclaration t v f p scope n n false))
        (some (namespaceDeclaration t v' f p scope n n false)) :=
    .some ((namespaceDeclaration_concur hv hmodule hdepth hn.ordered hn.bodied hn).imp
      fun out hout => suits_of_fills hroot hseed hn hcontainer (by rwa [hexport]))
  rw [lowered?, lowered?]
  dsimp only
  split
  case h_1 hk | h_2 hk | h_3 hk | h_4 hk | h_5 hk | h_6 hk | h_7 hk | h_15 hk | h_16 hk | h_17 hk
      | h_18 hk | h_19 hk | h_20 hk | h_21 hk | h_22 hk | h_23 hk | h_24 hk | h_26 hk | h_27 hk =>
    exact hplain hk (by decide) rfl
  case h_8 hk =>
    split
    · exact hplain hk (by decide) rfl
    · exact .none
  case h_9 hk => exact hplain hk (by decide) importStatement_scope
  case h_10 hk => exact .some (exportStatement_concur hroot hseed hn hv hdepth hk)
  case h_11 hk =>
    cases hfirst : n.namedChildren.head?.filter (·.isA .internalModule) with
    | none => exact .none
    | some inner =>
      obtain ⟨hhead, hmodule⟩ := Option.filter_eq_some_iff.mp hfirst
      have hmem := mem_of_namedChildren (List.mem_of_head? hhead)
      have hlevel := Node.depth_lt_of_mem hmem
      have hexport : n.isA .exportStatement = false := Node.isA_of_kind? hk _
      refine .some ((namespaceDeclaration_concur hv
        (Node.isSpace_iff.mpr (.inl (Node.isA_iff.mp hmodule))) (by omega)
        (Node.isOrdered_of_mem (Node.isOrdered_iff.mp hn.ordered).2 hmem) (hn.bodied_child hmem)
        hn).imp fun out hout => suits_of_fills hroot hseed hn ?_ (by rwa [hexport]))
      rw [Node.container?, hk]
      exact hfirst
  case h_12 hk =>
    exact hspace (Node.isSpace_iff.mpr (.inl hk)) (Node.isA_of_kind? hk _)
      (by rw [Node.container?, hk])
  case h_13 hk =>
    exact hspace (Node.isSpace_iff.mpr (.inr hk)) (Node.isA_of_kind? hk _)
      (by rw [Node.container?, hk])
  case h_14 hk =>
    have hexport : n.isA .exportStatement = false := Node.isA_of_kind? hk _
    refine .some ((enumDeclaration_concur hv (Node.isA_iff.mpr hk) hdepth hn).imp fun out hout =>
      suits_of_fills hroot hseed hn ?_ (by rwa [hexport]))
    rw [Node.container?, hk]
  case h_25 hk =>
    split
    · split
      · exact hplain hk (by decide) rfl
      · exact .none
    · exact .none
  case h_28 hk | h_29 hk | h_30 hk => exact hkept hk (by decide) (by decide)
  case h_31 hk =>
    split
    · split <;> exact hplain hk (by decide) rfl
    · exact .none
  case h_32 => exact .none

omit hroot hseed hn hv hdepth in
/-- A node that stays as it is fills no object. -/
theorem called?_of_lowered? (h : lowered? t v f p scope n = none) :
    n.called? t.source = none ∧ n.isSpace = false ∧ n.isA .ambientDeclaration = false := by
  have hlowered : ∀ k ∈ [.enumDeclaration, .internalModule, .module, .exportStatement,
      .ambientDeclaration], n.kind? ≠ some k := by
    intro k hk heq
    simp only [List.mem_cons, List.not_mem_nil, or_false] at hk
    rcases hk with rfl | rfl | rfl | rfl | rfl <;>
      · rw [lowered?, heq] at h
        cases h
  refine ⟨?_, ?_, ?_⟩
  · by_cases hexpression : n.kind? = some .expressionStatement
    · rw [lowered?, hexpression] at h
      have hnone := Option.map_eq_none_iff.mp h
      rw [Node.called?, Node.container?, hexpression]
      dsimp only
      rw [hnone]
      rfl
    · refine Node.called?_eq_none fun k hk => ?_
      simp only [Node.containerKinds, List.mem_cons, List.not_mem_nil, or_false] at hk
      rcases hk with rfl | rfl | rfl | rfl | rfl
      · exact hlowered _ (by decide)
      · exact hlowered _ (by decide)
      · exact hlowered _ (by decide)
      · exact hexpression
      · exact hlowered _ (by decide)
  · rw [Bool.eq_false_iff, Ne, Node.isSpace_iff]
    rintro (hk | hk)
    · exact hlowered _ (by decide) hk
    · exact hlowered _ (by decide) hk
  · rw [Bool.eq_false_iff, Ne, Node.isA_iff]
    exact hlowered _ (by decide)

/-- What comes of a node suits its scope, if what comes of its parts suits theirs. -/
theorem visitNode_concur :
    Concur (Suits t.source f p scope n) (visitNode t v f p scope n)
      (visitNode t v' f p scope n) := by
  have hrel : Option.Rel (Concur (Suits t.source f p scope n)) (lowered? t v f p scope n)
      (lowered? t v' f p scope n) := lowered?_concur hroot hseed hn hv hdepth
  rw [visitNode, visitNode]
  cases hlowered : lowered? t v f p scope n with
  | some out =>
    rw [hlowered] at hrel
    cases hlowered' : lowered? t v' f p scope n with
    | some out' =>
      rw [hlowered'] at hrel
      cases hrel with
      | some h => exact h
    | none =>
      rw [hlowered'] at hrel
      cases hrel
  | none =>
    rw [hlowered] at hrel
    cases hlowered' : lowered? t v' f p scope n with
    | some out' =>
      rw [hlowered'] at hrel
      cases hrel
    | none =>
      obtain ⟨hcalled, hspace, hambient⟩ := called?_of_lowered? hlowered
      have hinside : ∀ x ∈ p.children n, x.2 ∈ n.children ∧ x.1.around = n :: p.around :=
        fun x hx => mem_row hx
      have hq := hn.queue hspace
      rw [← map_snd_row (n :: p.around) none n.children] at hq
      have hnames : ∀ x ∈ p.children n, x.2.calls t.source ⊆ n.calls t.source :=
        fun x hx => Node.calls_subset_of_mem (hinside x hx).1 hspace hambient
      refine (visitChildren_concur hv (fun x hx => ?_) (fun x hx => (hinside x hx).2) hq
        hnames).andThen fun out hout => .pure (suits_of_grown hcalled hout)
      have hlevel := Node.depth_lt_of_mem (hinside x hx).1
      omega

end

/-- Compiling with the check at every node comes to the same as without. -/
theorem guardedVisit_follows (hroot : root.isSpace = false)
    (hseed : ∀ x, x ∈ seed ↔ ∃ c ∈ root.children, ⟨.name, x⟩ ∈ c.valueNames t.source)
    (fuel : Nat) :
    Follow t.source root seed fuel (visit t fuel)
      (guardedVisit (fun f p n out => p.declaresOnce t.source f n out) t fuel) := by
  induction fuel with
  | zero =>
    intro f p scope n hdepth
    cases n
    rw [Node.depth] at hdepth
    omega
  | succ fuel ih =>
    intro f p scope n hdepth hn
    exact concur_guarded (visitNode_concur hroot hseed hn ih hdepth)

theorem visitStatements_concur (hv : Follow t.source root seed depth v v')
    (hdepth : ∀ x ∈ ps, x.2.depth ≤ depth) (hplace : ∀ x ∈ ps, x.1.around = around)
    (hq : Queue t.source root seed around scope (ps.map (·.2))) :
    Concur (fun _ => True) (visitStatements v f scope ps) (visitStatements v' f scope ps) := by
  induction ps generalizing scope with
  | nil => exact .refl fun _ _ => trivial
  | cons x ps ih =>
    obtain ⟨q, m⟩ := x
    obtain rfl : q.around = around := hplace _ List.mem_cons_self
    rw [visitStatements, visitStatements]
    refine (hv f q scope m (hdepth _ List.mem_cons_self) hq.standing).andThen fun out hout => ?_
    refine (ih (fun x hx => hdepth x (List.mem_cons_of_mem _ hx))
      (fun x hx => hplace x (List.mem_cons_of_mem _ hx))
      (hq.next hout.grown fun _ => hout.filled)).andThen fun _ _ => ?_
    exact .refl fun _ _ => trivial

/-- The names that a module starts out with fit its statements. -/
theorem queue_topScope {r : ModuleRecord} (hprogram : r.tree.isA .program)
    (hordered : r.tree.isOrdered) (hbodied : r.tree.everywhere Node.hasOwnBody) :
    Queue r.text.toList r.tree (topScope r.analysis) [r.tree] (topScope r.analysis)
      r.tree.children := by
  have hspace : r.tree.isSpace = false := Node.isOneOf_of_kind? (Node.isA_iff.mp hprogram) _
  have hrow := (Node.isOrdered_iff.mp hordered).2
  exact {
    inside := fun _ hm => hm
    ordered := fun _ => Node.isOrdered_of_mem hrow
    bodied := (Node.everywhere_iff.mp hbodied).2
    sorted := pairwise_of_allOrdered hrow
    last := rfl
    head := by simp [hspace]
    known := fun x hx => .inr ⟨hx, by simpa using hspace⟩
    seeded := fun _ _ hx => hx
    filled := fun _ _ _ c hc _ _ _ => .inr hc }

end Emit

open Emit

/-- Every enum and namespace that stands directly in a scope is written out with one declaration of
its name, or with none behind another one of the name and where the scope has a value of that name:
compiling a module with the check of that at every node comes to the same as without. -/
theorem ModuleRecord.emit_declaresOnce {r : ModuleRecord} {o : CompilerOptions}
    (hprogram : r.tree.isA .program) (hordered : r.tree.isOrdered)
    (hbodied : r.tree.everywhere Node.hasOwnBody) :
    r.emitBy r.analysis o (fun t => guardedVisit
        (fun f p n out => p.declaresOnce t.source f n out) t r.tree.depth) =
      r.emit r.analysis o := by
  have hspace : r.tree.isSpace = false := Node.isOneOf_of_kind? (Node.isA_iff.mp hprogram) _
  have hrow : ∀ x ∈ Place.children {} r.tree,
      x.2.depth ≤ r.tree.depth ∧ x.1.around = [r.tree] := by
    intro x hx
    obtain ⟨hmem, haround⟩ := mem_row hx
    exact ⟨Nat.le_of_lt (Node.depth_lt_of_mem hmem), haround⟩
  have hq := queue_topScope hprogram hordered hbodied
  rw [← map_snd_row [r.tree] none r.tree.children] at hq
  let t := Setting.ofModule r r.analysis o.verbatimModuleSyntax
  have hfollow := guardedVisit_follows (t := t) hspace (fun _ => ModuleRecord.mem_topScope_iff)
    r.tree.depth
  obtain ⟨heq, -⟩ := visitStatements_concur (t := t) (f := ⟨[], ⟨0, width t.source⟩⟩) hfollow
    (fun x hx => (hrow x hx).1) (fun x hx => (hrow x hx).2) hq
  rw [emit_eq_emitBy, emitBy, emitBy]
  split
  · rfl
  · exact congrArg (· >>= _) heq.symm

section

open Node

/-- An enum, and another one of its name in a function. -/
def enumInFunction : ModuleRecord :=
  .ofTree "m.ts"
    "enum E \x7b A = 'a' \x7d\nfunction f() \x7b\n    enum E \x7b B = 'b' \x7d\n\x7d\n" <|
    script 59
      [branch .enumDeclaration
        [word 0 "enum", playing .name (leaf .identifier 5 6),
          playing .body <| branch .enumBody
            [word 7 "\x7b",
              branch .enumAssignment
                [playing .name (leaf .propertyIdentifier 9 10), word 11 "=",
                  playing .value (literal 13 1)],
              word 17 "\x7d"]],
        branch .functionDeclaration
          [word 19 "function", playing .name (leaf .identifier 28 29),
            playing .parameters (branch .formalParameters [word 29 "(", word 30 ")"]),
            playing .body <| branch .statementBlock
              [word 32 "\x7b",
                branch .enumDeclaration
                  [word 38 "enum", playing .name (leaf .identifier 43 44),
                    playing .body <| branch .enumBody
                      [word 45 "\x7b",
                        branch .enumAssignment
                          [playing .name (leaf .propertyIdentifier 47 48), word 49 "=",
                            playing .value (literal 51 1)],
                        word 55 "\x7d"]],
                word 57 "\x7d"]]]

theorem enumInFunction_declaresOnce :
    enumInFunction.emitBy enumInFunction.analysis {} (fun t => guardedVisit
        (fun f p n out => p.declaresOnce t.source f n out) t enumInFunction.tree.depth) =
      enumInFunction.emit enumInFunction.analysis {} :=
  ModuleRecord.emit_declaresOnce (by decide) (by decide) (by decide)

/-- An enum in a function is not declared in the function when one of its name stands in front. -/
theorem enum_declared_outside :
    enumInFunction.tree.hasError = false ∧
      enumInFunction.emit enumInFunction.analysis {} = .ok
        ("var E;\n(function (E) \x7b\n    E[\"A\"] = 'a';\n\x7d)(E || (E = \x7b\x7d));\n" ++
          "function f() \x7b\n    (function (E) \x7b\n        E[\"B\"] = 'b';\n" ++
          "    \x7d)(E || (E = \x7b\x7d));\n\x7d\n") :=
  ⟨by decide, by cbv⟩

end

end CompilingProxy
