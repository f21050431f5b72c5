import CompilingProxy.Proofs.Analysis.ImportOrder
import CompilingProxy.Proofs.Analysis.Kept
import CompilingProxy.Proofs.Emit.Types
import CompilingProxy.Proofs.Grammar.Regular
import CompilingProxy.Proofs.Text.Alike

/-!
# What is read of a text

Compiling reads names, literals and operators off a text. Two texts that differ in types alone are
read alike.
-/

namespace CompilingProxy

open Emit Text

/-- Nothing in the range is hidden. -/
def Range.IsOpen (hidden : Nat → Prop) (r : Range) : Prop :=
  ∀ x, r.start ≤ x → x < r.stop → ¬hidden x

namespace Node

/-- A type that the node holds stands at the offset. -/
def HasTypeAt (n : Node) (x : Nat) : Prop := ∃ m, n.HoldsType m ∧ m.start ≤ x ∧ x < m.stop

/-- Whether the node says nothing of types and is made of words at most. -/
def isBare (n : Node) : Bool := n.isUnerased && n.namedChildren.isEmpty

/-- Whether the names that are read off the node are those of values: what an export declares in a
namespace has a bare name, the parameters of a method are parameters, and no import or export is
among what is declared to exist elsewhere. -/
def readsPlainly (n : Node) : Bool :=
  match n.kind? with
  | some .exportStatement =>
    (n.child? .declaration).all fun d =>
      d.isOneOf (erasedDeclarations ++ [.enumDeclaration, .internalModule, .module]) ||
        d.isUnerased && (d.child? .name).all isBare
  | some .methodDefinition =>
    (n.child? .parameters).all fun ps => ps.isA .formalParameters &&
      ps.namedChildren.all fun c =>
        c.isOneOf [.requiredParameter, .optionalParameter] || (c.child? .pattern).isNone
  | some .ambientDeclaration =>
    n.children.all fun c => !c.isOneOf [.importStatement, .exportStatement]
  | _ => true

/-- Whether the object of a member is told from an enum's name: it is a name itself, or it is not
written like that name. -/
def isApartFrom (source : List Char) (name : String) (n : Node) : Bool :=
  !n.isA .memberExpression ||
    (n.child? .object).all fun object => object.isBare || object.text source != name

/-- Whether what has parts is told from the names that it is compared with. -/
def namesApart (source : List Char) (n : Node) : Bool :=
  match n.kind? with
  | some .enumDeclaration =>
    (n.child? .name).all fun name => (n.child? .body).all fun body =>
      body.everywhere (isApartFrom source (name.text source))
  | some .methodDefinition =>
    (n.child? .name).all fun name => name.isBare || name.text source != "constructor"
  | _ => true

/-- All that is hidden of the node are types that it holds, and from both texts it can be told which
names are meant. -/
structure IsVeiled (hidden : Nat → Prop) (source source' : List Char) (n : Node) : Prop where
  ordered : n.isOrdered
  only : ∀ x, n.start ≤ x → x < n.stop → hidden x → n.HasTypeAt x
  plain : n.everywhere readsPlainly
  apart : n.everywhere (namesApart source)
  apart' : n.everywhere (namesApart source')

/-- In both texts the objects of members are told from the name. -/
structure IsApart (source source' : List Char) (name : String) (n : Node) : Prop where
  left : n.everywhere (isApartFrom source name)
  right : n.everywhere (isApartFrom source' name)

variable {hidden : Nat → Prop} {source source' : List Char} {n c d : Node}

theorem IsApart.child {name : String} (h : n.IsApart source source' name) (hc : c ∈ n.children) :
    c.IsApart source source' name :=
  ⟨(everywhere_iff.mp h.left).2 c hc, (everywhere_iff.mp h.right).2 c hc⟩

theorem role_of_child? {role : Role} (h : n.child? role = some c) : c.role = some role := by
  simpa using List.find?_some h

theorem eq_of_between {start stop x : Nat} {ns : List Node} (h : allOrdered start stop ns)
    (hc : c ∈ ns) (hd : d ∈ ns) (hcx : c.start ≤ x ∧ x < c.stop)
    (hdx : d.start ≤ x ∧ x < d.stop) : c = d := by
  induction ns generalizing start with
  | nil => cases hc
  | cons m ns ih =>
    obtain ⟨-, -, hrest⟩ := allOrdered_cons_iff.mp h
    rcases List.mem_cons.mp hc with rfl | hc'
    · rcases List.mem_cons.mp hd with rfl | hd'
      · rfl
      · have := (bounds_of_mem hrest hd').1
        omega
    · rcases List.mem_cons.mp hd with rfl | hd'
      · have := (bounds_of_mem hrest hc').1
        omega
      · exact ih hrest hc' hd'

theorem isOpen_of_mem (h : n.range.IsOpen hidden) (hn : n.isOrdered) (hc : c ∈ n.children) :
    c.range.IsOpen hidden := by
  obtain ⟨hstart, hstop⟩ := bounds_of_mem (isOrdered_iff.mp hn).2 hc
  exact fun x hfirst hlast => h x (Nat.le_trans hstart hfirst) (Nat.lt_of_lt_of_le hlast hstop)

namespace IsVeiled

variable (h : n.IsVeiled hidden source source')

include h

theorem row : allOrdered n.start n.stop n.children := (isOrdered_iff.mp h.ordered).2

/-- What is hidden in a child of a node is hidden in a part that is compiled with the node. -/
theorem mem_parts (hn : n.isUnerased) (hc : c ∈ n.children) {x : Nat} (hfirst : c.start ≤ x)
    (hlast : x < c.stop) (hx : hidden x) : c ∈ n.parts ∧ c.HasTypeAt x := by
  obtain ⟨hstart, hstop⟩ := bounds_of_mem h.row hc
  obtain ⟨m, hm, hmx⟩ := h.only x (by omega) (by omega) hx
  obtain ⟨d, hd, hm⟩ := hm.exists_part hn
  obtain ⟨hbegin, hend⟩ := hm.within (isOrdered_of_mem h.row (parts_subset hd))
  obtain rfl := eq_of_between h.row hc (parts_subset hd) ⟨hfirst, hlast⟩ ⟨by omega, by omega⟩
  exact ⟨hd, m, hm, hmx⟩

theorem of_mem (hc : c ∈ n.children)
    (honly : ∀ x, c.start ≤ x → x < c.stop → hidden x → c.HasTypeAt x) :
    c.IsVeiled hidden source source' where
  ordered := isOrdered_of_mem h.row hc
  only := honly
  plain := (everywhere_iff.mp h.plain).2 c hc
  apart := (everywhere_iff.mp h.apart).2 c hc
  apart' := (everywhere_iff.mp h.apart').2 c hc

theorem child (hn : n.isUnerased) (hc : c ∈ n.children) : c.IsVeiled hidden source source' :=
  h.of_mem hc fun _ hfirst hlast hx => (h.mem_parts hn hc hfirst hlast hx).2

theorem child_of_isOpen (hopen : n.range.IsOpen hidden) (hc : c ∈ n.children) :
    c.IsVeiled hidden source source' :=
  h.of_mem hc fun x hfirst hlast hx =>
    absurd hx (isOpen_of_mem hopen h.ordered hc x hfirst hlast)

/-- Nothing is hidden in a child that is not compiled with the node. -/
theorem isOpen_child (hn : n.isUnerased) (hc : c ∈ n.children) (hpart : c ∉ n.parts) :
    c.range.IsOpen hidden :=
  fun _ hfirst hlast hx => hpart (h.mem_parts hn hc hfirst hlast hx).1

theorem isOpen_of_role {role : Role} (hn : n.isUnerased) (hc : n.child? role = some c)
    (hparts : ∀ d ∈ n.parts, d.role ≠ some role) : c.range.IsOpen hidden := by
  exact h.isOpen_child hn (List.mem_of_find?_eq_some hc) fun hpart =>
    hparts c hpart (role_of_child? hc)

/-- Nothing is hidden in a node that holds no types. -/
theorem isOpen (hnone : ∀ m, ¬n.HoldsType m) : n.range.IsOpen hidden := by
  intro x hfirst hlast hx
  obtain ⟨m, hm, -⟩ := h.only x hfirst hlast hx
  exact hnone m hm

theorem isOpen_of_parts (hn : n.isUnerased) (hparts : n.parts = []) : n.range.IsOpen hidden := by
  refine h.isOpen fun m hm => ?_
  obtain ⟨c, hc, -⟩ := hm.exists_part hn
  rw [hparts] at hc
  cases hc

theorem isOpen_of_kind? {k : Kind} (hkind : n.kind? = some k)
    (hk : k ∈ [Kind.importStatement, .importAlias, .identifier, .number, .string]) :
    n.range.IsOpen hidden := by
  simp only [List.mem_cons, List.not_mem_nil, or_false] at hk
  refine h.isOpen_of_parts (isUnerased_of_kind? hkind ?_) ?_
  · rcases hk with rfl | rfl | rfl | rfl | rfl <;> decide
  · rcases hk with rfl | rfl | rfl | rfl | rfl <;> simp only [parts, hkind]

theorem isOpen_of_isBare (hbare : n.isBare) : n.range.IsOpen hidden := by
  obtain ⟨hunerased, hempty⟩ := Bool.and_eq_true_iff.mp hbare
  refine h.isOpen fun m hm => ?_
  obtain ⟨c, hc, hm⟩ := hm.exists_part hunerased
  have hnamed : c ∈ n.namedChildren := List.mem_filter.mpr ⟨parts_subset hc, hm.isNamed⟩
  rw [List.isEmpty_iff.mp hempty] at hnamed
  cases hnamed

/-- Nothing is hidden in the name of what is compiled with its body alone. -/
theorem isOpen_name {k : Kind} {name : Node} (hn : n.isUnerased)
    (hparts : n.parts = ((n.child? .body).filter (·.isA k)).toList)
    (hname : n.child? .name = some name) : name.range.IsOpen hidden := by
  refine h.isOpen_of_role hn hname fun d hd => ?_
  rw [hparts, Option.mem_toList, Option.filter_eq_some_iff] at hd
  simp [role_of_child? hd.1]

/-- A body that is of another kind than it is compiled for has nothing hidden in it. -/
theorem body {k : Kind} {body : Node} (hn : n.isUnerased)
    (hparts : n.parts = ((n.child? .body).filter (·.isA k)).toList)
    (hk : ∀ m : Node, m.isA k → m.isUnerased) (hbody : n.child? .body = some body) :
    (∀ c ∈ body.children, c.IsVeiled hidden source source') ∧
      (body.isA k ∨ body.range.IsOpen hidden) := by
  have hmem : body ∈ n.children := List.mem_of_find?_eq_some hbody
  have hveiled := h.child hn hmem
  cases hkind : body.isA k with
  | true => exact ⟨fun c => hveiled.child (hk body hkind), .inl rfl⟩
  | false =>
    have hopen := h.isOpen_child hn hmem (by simp [hparts, hbody, hkind])
    exact ⟨fun c => hveiled.child_of_isOpen hopen, .inr hopen⟩

/-- Of the members of an enum, nothing is hidden but in what they are set to. -/
theorem member {body m : Node} (hkind : n.kind? = some .enumDeclaration)
    (hparts : n.parts = ((n.child? .body).filter (·.isA .enumBody)).toList)
    (hbody : n.child? .body = some body) (hm : m ∈ body.children) :
    m.IsVeiled hidden source source' ∧ (m.isA .enumAssignment ∨ m.range.IsOpen hidden) := by
  have hunerased := isUnerased_of_kind? hkind (by decide)
  have hveiled := h.child hunerased (List.mem_of_find?_eq_some hbody)
  obtain ⟨hchildren, hblock⟩ := h.body hunerased hparts
    (fun m hm => isUnerased_of_kind? (isA_iff.mp hm) (by decide)) hbody
  refine ⟨hchildren m hm, ?_⟩
  by_cases hassigned : m.isA .enumAssignment
  · exact .inl hassigned
  rcases hblock with hblock | hopen
  · have hbodykind := isA_iff.mp hblock
    refine .inr (hveiled.isOpen_child (isUnerased_of_kind? hbodykind (by decide)) hm ?_)
    simp [parts, hbodykind, hassigned]
  · exact .inr (isOpen_of_mem hopen hveiled.ordered hm)

/-- In the body of an enum the objects of members are told from its name. -/
theorem isApart_body {name body : Node} (hkind : n.kind? = some .enumDeclaration)
    (hname : n.child? .name = some name) (hbody : n.child? .body = some body)
    (htext : name.text source = name.text source') :
    body.IsApart source source' (name.text source') := by
  have hapart := (everywhere_iff.mp h.apart).1
  have hapart' := (everywhere_iff.mp h.apart').1
  simp only [namesApart, hkind, hname, hbody, Option.all_some, htext] at hapart hapart'
  exact ⟨hapart, hapart'⟩

/-- What an export declares is erased or lowered, or it is a value with a bare name. -/
theorem exported (hkind : n.kind? = some .exportStatement) (hd : n.child? .declaration = some d)
    (herased : ¬d.isOneOf erasedDeclarations) (henum : ¬d.isA .enumDeclaration)
    (hmodule : ¬(d.isA .internalModule || d.isA .module)) :
    d.isUnerased ∧ (d.child? .name).all isBare := by
  have hplain := (everywhere_iff.mp h.plain).1
  rw [readsPlainly, hkind] at hplain
  simp only [hd, Option.all_some, Bool.or_eq_true, Bool.and_eq_true] at hplain
  refine hplain.resolve_left fun hone => ?_
  rw [Bool.or_eq_true, isA_iff, isA_iff] at hmodule
  rw [isA_iff] at henum
  obtain ⟨k, hk, hkind⟩ := isOneOf_iff.mp hone
  rcases List.mem_append.mp hk with hk | hk
  · exact herased (isOneOf_iff.mpr ⟨k, hk, hkind⟩)
  · simp only [List.mem_cons, List.not_mem_nil, or_false] at hk
    rcases hk with rfl | rfl | rfl
    · exact henum hkind
    · exact hmodule (.inl hkind)
    · exact hmodule (.inr hkind)

/-- The value of an assertion has its types hidden in it, and no others. -/
theorem value {value : Node} (hassertion : n.isAssertion)
    (hvalue : n.namedChildren.head? = some value) :
    value.IsVeiled hidden source source' := by
  have hmem : value ∈ n.children := (List.mem_filter.mp (List.mem_of_head? hvalue)).1
  obtain ⟨hstart, hstop⟩ := bounds_of_mem h.row hmem
  refine h.of_mem hmem fun x hfirst hlast hx => ?_
  obtain ⟨m, hm, hmx⟩ := h.only x (by omega) (by omega) hx
  cases hm with
  | here hsays =>
    cases hsays with
    | own hown =>
      rw [isType_of_isAssertion hassertion] at hown
      cases hown
    | said _ hhead _ hbehind =>
      obtain rfl := Option.some.inj (hvalue.symm.trans hhead)
      omega
  | part hc hm =>
    rw [parts_of_isAssertion hassertion, hvalue] at hc
    obtain rfl := List.mem_singleton.mp hc
    exact ⟨m, hm, hmx⟩

end IsVeiled

end Node

/-- A parameter that is a name is not the one for a receiver. -/
theorem Node.isUnerased_of_pattern {n name : Node}
    (h : n.isOneOf [.requiredParameter, .optionalParameter])
    (hpattern : n.child? .pattern = some name) (hname : name.isA .identifier) : n.isUnerased := by
  have hthis : name.isA .this = false := by
    rw [isA_of_kind? (isA_iff.mp hname)]
    rfl
  obtain ⟨k, hk, hkind⟩ := isOneOf_iff.mp h
  simp only [List.mem_cons, List.not_mem_nil, or_false] at hk
  rw [isUnerased_iff]
  rcases hk with rfl | rfl <;>
    simp [isType, isAssertion, isOneOf_of_kind? hkind, isA_of_kind? hkind, typeKinds,
      erasedDeclarations, hpattern, hthis]

/-! ### Texts -/

section

variable {hidden : Nat → Prop} {source source' : List Char} {n c d : Node}
  (halike : AlikeBut hidden 0 source source')

include halike

theorem slice_eq {r : Range} (h : r.IsOpen hidden) :
    slice source r.start r.stop = slice source' r.start r.stop := by
  rcases halike.slice?_cases r.start r.stop with
    ⟨hnone, hnone'⟩ | ⟨mid, mid', hsome, hsome', hmid⟩
  · rw [slice, slice, hnone, hnone']
  · have hwidth := width_of_slice? hsome
    rw [slice, slice, hsome, hsome']
    exact hmid.eq fun x hfirst hlast => h x (by omega) (by omega)

theorem Node.text_eq (h : n.range.IsOpen hidden) : n.text source = n.text source' :=
  congrArg String.ofList (slice_eq halike h)

theorem Node.unquoted_eq (h : n.range.IsOpen hidden) : n.unquoted source = n.unquoted source' :=
  congrArg (fun text => String.ofList (unquote text)) (slice_eq halike h)

/-! ### Constants -/

namespace EnumValue

variable {s : EnumScope} {ns : List Node}

omit halike in
theorem ofFirst?_eq (h : ∀ c ∈ ns, ofNode? source s c = ofNode? source' s c) :
    ofFirst? source s ns = ofFirst? source' s ns := by
  induction ns with
  | nil => rw [ofFirst?, ofFirst?]
  | cons c ns ih =>
    rw [ofFirst?, ofFirst?, h c List.mem_cons_self,
      ih fun d hd => h d (List.mem_cons_of_mem _ hd)]

omit halike in
theorem ofRole?_eq {role : Role} (h : ∀ c ∈ ns, ofNode? source s c = ofNode? source' s c) :
    ofRole? source s role ns = ofRole? source' s role ns := by
  induction ns with
  | nil => rw [ofRole?, ofRole?]
  | cons c ns ih =>
    rw [ofRole?, ofRole?, h c List.mem_cons_self,
      ih fun d hd => h d (List.mem_cons_of_mem _ hd)]

/-- An initialiser has the same value in both texts. -/
theorem ofNode?_eq (hn : n.IsVeiled hidden source source')
    (hapart : n.IsApart source source' s.enumName) :
    ofNode? source s n = ofNode? source' s n := by
  induction n using Node.induction_below with
  | step n ih =>
    have hmember := (Node.everywhere_iff.mp hapart.left).1
    have hmember' := (Node.everywhere_iff.mp hapart.right).1
    have hbelow : n.isUnerased → ∀ c ∈ n.children, ofNode? source s c = ofNode? source' s c :=
      fun hunerased c hc => ih c hc (hn.child hunerased hc) (hapart.child hc)
    obtain ⟨label, role, start, stop, missing, children⟩ := n
    rw [ofNode?, ofNode?]
    split
    case h_1 hkind | h_2 hkind | h_5 hkind =>
      rw [Node.text_eq halike (hn.isOpen_of_kind? hkind (by decide))]
    case h_3 hkind =>
      split
      case isTrue hempty =>
        have hbare := Bool.and_eq_true_iff.mpr
          ⟨Node.isUnerased_of_kind? hkind (by decide), hempty⟩
        rw [Node.unquoted_eq halike (hn.isOpen_of_isBare hbare)]
      case isFalse => rfl
    case h_4 hkind => exact ofFirst?_eq (hbelow (Node.isUnerased_of_kind? hkind (by decide)))
    case h_6 hkind =>
      have hunerased := Node.isUnerased_of_kind? hkind (by decide)
      refine Option.bind_congr fun object hobject => Option.bind_congr fun property hproperty => ?_
      have hopen := hn.isOpen_of_role hunerased hproperty (by simp [Node.parts, hkind])
      rw [Node.text_eq halike hopen]
      simp only [Node.isApartFrom, Node.isA_iff.mpr hkind, hobject, Option.all_some,
        Bool.not_true, Bool.false_or, Bool.or_eq_true, bne_iff_ne, ne_eq] at hmember hmember'
      by_cases hbare : object.isBare
      · have hveiled := hn.child hunerased (List.mem_of_find?_eq_some hobject)
        rw [Node.text_eq halike (hveiled.isOpen_of_isBare hbare)]
      · have hname := hmember.resolve_left hbare
        have hname' := hmember'.resolve_left hbare
        rw [if_neg (by simpa using hname), if_neg (by simpa using hname')]
    case h_7 hkind =>
      have hunerased := Node.isUnerased_of_kind? hkind (by decide)
      refine Option.bind_congr fun operator hoperator => ?_
      have hopen := hn.isOpen_of_role hunerased hoperator (by simp [Node.parts, hkind])
      rw [Node.text_eq halike hopen, ofRole?_eq (hbelow hunerased)]
    case h_8 hkind =>
      have hunerased := Node.isUnerased_of_kind? hkind (by decide)
      refine Option.bind_congr fun operator hoperator => ?_
      have hopen := hn.isOpen_of_role hunerased hoperator (by simp [Node.parts, hkind])
      rw [Node.text_eq halike hopen, ofRole?_eq (hbelow hunerased), ofRole?_eq (hbelow hunerased)]
    case h_9 => rfl

end EnumValue

/-! ### Names -/

namespace Emit

theorem boundNames_eq (hd : d.IsVeiled hidden source source') (hunerased : d.isUnerased)
    (hbare : (d.child? .name).all Node.isBare) : boundNames source d = boundNames source' d := by
  rw [boundNames, boundNames]
  split
  case isTrue =>
    refine List.map_congr_left fun name hname => ?_
    obtain ⟨hname, hidentifier⟩ := List.mem_filter.mp hname
    obtain ⟨declarator, hdeclarator, hchild⟩ := List.mem_filterMap.mp hname
    obtain ⟨hmem, hkind⟩ := List.mem_filter.mp hdeclarator
    have hdeclared : declarator.isUnerased :=
      Node.isUnerased_of_kind? (Node.isA_iff.mp hkind) (by decide)
    have hveiled := (hd.child hunerased hmem).child hdeclared (List.mem_of_find?_eq_some hchild)
    exact Node.text_eq halike (hveiled.isOpen_of_kind? (Node.isA_iff.mp hidentifier) (by decide))
  case isFalse =>
    cases hname : d.child? .name with
    | none => rfl
    | some name =>
      rw [hname, Option.all_some] at hbare
      have hveiled := hd.child hunerased (List.mem_of_find?_eq_some hname)
      rw [Option.map_some, Option.map_some,
        Node.text_eq halike (hveiled.isOpen_of_isBare hbare)]

theorem parameterProperties_eq (hn : n.IsVeiled hidden source source')
    (hkind : n.kind? = some .methodDefinition) :
    parameterProperties source n = parameterProperties source' n := by
  have hunerased : n.isUnerased := Node.isUnerased_of_kind? hkind (by decide)
  have hplain := (Node.everywhere_iff.mp hn.plain).1
  have hapart := (Node.everywhere_iff.mp hn.apart).1
  have hapart' := (Node.everywhere_iff.mp hn.apart').1
  rw [Node.readsPlainly, hkind] at hplain
  rw [Node.namesApart, hkind] at hapart hapart'
  dsimp only at hplain hapart hapart'
  have hname : ((n.child? .name).any fun m => m.text source == "constructor") =
      (n.child? .name).any fun m => m.text source' == "constructor" := by
    cases hname : n.child? .name with
    | none => rfl
    | some name =>
      simp only [hname, Option.all_some, Bool.or_eq_true, bne_iff_ne, ne_eq] at hapart hapart'
      rw [Option.any_some, Option.any_some]
      by_cases hbare : name.isBare
      · have hveiled := hn.child hunerased (List.mem_of_find?_eq_some hname)
        rw [Node.text_eq halike (hveiled.isOpen_of_isBare hbare)]
      · rw [beq_eq_false_iff_ne.mpr (hapart.resolve_left hbare),
          beq_eq_false_iff_ne.mpr (hapart'.resolve_left hbare)]
  rw [parameterProperties, parameterProperties, hname]
  split
  case isFalse => rfl
  case isTrue =>
    cases hps : n.child? .parameters with
    | none => rfl
    | some ps =>
      simp only [hps, Option.all_some, Bool.and_eq_true] at hplain
      obtain ⟨hformal, hparameters⟩ := hplain
      refine List.map_congr_left fun name hname => ?_
      obtain ⟨hname, hidentifier⟩ := List.mem_filter.mp hname
      obtain ⟨c, hc, hpattern⟩ := List.mem_filterMap.mp hname
      have hmem : c ∈ ps.namedChildren := (List.mem_filter.mp hc).1
      have hkinds := List.all_eq_true.mp hparameters c hmem
      rw [hpattern, Option.isNone_some, Bool.or_false] at hkinds
      have hparameter := Node.isUnerased_of_pattern hkinds hpattern hidentifier
      have hveiled := hn.child hunerased (List.mem_of_find?_eq_some hps)
      have hveiled := hveiled.child (Node.isUnerased_of_kind? (Node.isA_iff.mp hformal) (by decide))
        (List.mem_filter.mp hmem).1
      have hveiled := hveiled.child hparameter (List.mem_of_find?_eq_some hpattern)
      exact Node.text_eq halike
        (hveiled.isOpen_of_kind? (Node.isA_iff.mp hidentifier) (by decide))

end Emit

end

/-! ### Imports -/

/-- Nothing is hidden in what an import is written out again from. -/
def ImportDecl.IsOpen (hidden : Nat → Prop) (i : ImportDecl) : Prop :=
  i.specifierRange.IsOpen hidden ∧ ∀ b ∈ i.bindings, b.range.IsOpen hidden

section

variable {hidden : Nat → Prop} {source source' : List Char} {n part : Node}

theorem clauseBindings_isOpen {typeOnly : Bool} {b : ImportBinding}
    (h : part.range.IsOpen hidden) (hpart : part.isOrdered)
    (hb : b ∈ clauseBindings source typeOnly part) : b.range.IsOpen hidden := by
  rw [clauseBindings] at hb
  split at hb
  case h_1 =>
    obtain rfl := List.mem_singleton.mp hb
    exact h
  case h_2 =>
    obtain ⟨name, -, rfl⟩ := Option.map_eq_some_iff.mp (Option.mem_toList.mp hb)
    exact h
  case h_3 =>
    obtain ⟨spec, hspec, hb⟩ := List.mem_filterMap.mp hb
    obtain ⟨name, -, hb⟩ := Option.bind_eq_some_iff.mp hb
    cases hb
    exact Node.isOpen_of_mem h hpart (List.mem_filter.mp hspec).1
  case h_4 => cases hb

theorem importDecl?_isOpen {i : ImportDecl} (h : n.range.IsOpen hidden) (hn : n.isOrdered)
    (hi : importDecl? source n = some i) : i.IsOpen hidden := by
  obtain ⟨specifier, hspecifier, hi⟩ := Option.bind_eq_some_iff.mp hi
  cases hi
  refine ⟨Node.isOpen_of_mem h hn (List.mem_of_find?_eq_some hspecifier), fun b hb => ?_⟩
  dsimp only at hb
  split at hb
  case h_1 clause hclause =>
    have hmem : clause ∈ n.children := List.mem_of_find?_eq_some hclause
    have hordered := Node.isOrdered_of_mem (Node.isOrdered_iff.mp hn).2 hmem
    obtain ⟨part, hpart, hb⟩ := List.mem_flatMap.mp hb
    have hopen := Node.isOpen_of_mem (Node.isOpen_of_mem h hn hmem) hordered hpart
    exact clauseBindings_isOpen hopen
      (Node.isOrdered_of_mem (Node.isOrdered_iff.mp hordered).2 hpart) hb
  case h_2 => cases hb

namespace ModuleAnalysis

variable {s : Setting} {a : ModuleAnalysis} {ns : List Node}

theorem statement_module_imports (h : n.isA .internalModule) :
    (statement source s a n).imports = a.imports := by
  obtain ⟨label, role, start, stop, missing, children⟩ := n
  rw [statement]
  simp only [Node.isA_iff.mp h]
  split
  · rfl
  · split
    · rfl
    · exact declare_imports

theorem firstModule_imports : (firstModule source s a ns).imports = a.imports := by
  induction ns with
  | nil => rw [firstModule]
  | cons c ns ih =>
    rw [firstModule]
    split
    case isTrue hmodule => exact statement_module_imports hmodule
    case isFalse =>
      split
      · rfl
      · exact ih

/-- The imports that a statement lists are open. Among what is declared to exist elsewhere, where
all may be hidden, none are listed. -/
theorem statement_isOpen (hn : n.IsVeiled hidden source source' ∨ n.everywhere Node.readsPlainly ∧
      n.isOneOf [.importStatement, .exportStatement] = false)
    (ha : ∀ i ∈ a.imports, i.IsOpen hidden) :
    ∀ i ∈ (statement source s a n).imports, i.IsOpen hidden := by
  induction n using Node.induction_below generalizing s a with
  | step n ih =>
    have hlisting {k : Kind} (hkind : n.kind? = some k)
        (hk : k ∈ [Kind.importStatement, .exportStatement]) : n.IsVeiled hidden source source' := by
      refine hn.resolve_right fun h => ?_
      rw [Node.isOneOf_of_kind? hkind, List.contains_iff_mem.mpr hk] at h
      cases h.2
    have hplain : n.everywhere Node.readsPlainly := hn.elim (·.plain) (·.1)
    obtain ⟨label, role, start, stop, missing, children⟩ := n
    rw [statement]
    split
    case h_1 hkind =>
      have hveiled := hlisting hkind (by decide)
      have hopen := hveiled.isOpen_of_kind? hkind (by decide)
      intro i hi
      rcases List.mem_append.mp hi with hi | hi
      · exact ha i hi
      · exact importDecl?_isOpen hopen hveiled.ordered (Option.mem_toList.mp hi)
    case h_2 => exact ha
    case h_3 hkind =>
      have hveiled := hlisting hkind (by decide)
      have hunerased := Node.isUnerased_of_kind? hkind (by decide)
      dsimp only
      split
      · exact ha
      · split
        · exact declarationIn_kept (P := fun a => ∀ i ∈ a.imports, i.IsOpen hidden)
            (fun c hc s a ha => ih c hc (.inl (hveiled.child hunerased hc)) ha) ha
        · split
          · exact ha
          · rw [exportClause_imports]
            exact ha
    case h_4 hkind =>
      obtain ⟨hnone, hbelow⟩ := Node.everywhere_iff.mp hplain
      simp only [Node.readsPlainly, hkind] at hnone
      refine statements_kept (P := fun a => ∀ i ∈ a.imports, i.IsOpen hidden)
        (fun c hc s a ha => ih c hc (.inr ⟨hbelow c hc, ?_⟩) ha) ha
      simpa using List.all_eq_true.mp hnone c hc
    case h_5 =>
      rw [firstModule_imports]
      exact ha
    case h_6 | h_7 =>
      split
      · exact ha
      · split
        · exact ha
        · rw [declare_imports]
          exact ha
    case h_8 | h_9 =>
      rw [declareVariables_imports]
      exact ha
    case h_10 =>
      split
      · rw [declare_imports]
        exact ha
      · exact ha
    case h_11 => exact ha

end ModuleAnalysis

/-- Nothing is hidden in the imports of a module. -/
theorem ModuleRecord.analysis_isOpen {r : ModuleRecord}
    (h : ∀ c ∈ r.tree.children, c.IsVeiled hidden r.text.toList source') :
    ∀ i ∈ r.analysis.imports, i.IsOpen hidden := by
  have hstatements : ∀ i ∈ (ModuleAnalysis.statements r.text.toList {} {} r.tree.children).imports,
      i.IsOpen hidden :=
    ModuleAnalysis.statements_kept (P := fun a => ∀ i ∈ a.imports, i.IsOpen hidden)
      (fun c hc _ _ ha => ModuleAnalysis.statement_isOpen (.inl (h c hc)) ha) (by simp)
  exact hstatements

end

end CompilingProxy
