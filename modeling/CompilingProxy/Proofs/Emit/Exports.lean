import CompilingProxy.Proofs.Emit.Dangling
import CompilingProxy.Proofs.Emit.Types

/-!
# What namespaces export

The values that a statement exports by a declaration, where their names are written, and which of
them a namespace exports that stands at some depth of a statement.
-/

namespace CompilingProxy

open Emit Text

namespace Node

/-- The names that a statement exports by a declaration of which something stays. -/
def exportedValues (source : List Char) (n : Node) : List ExportedName :=
  if n.isA .exportStatement && !n.isErased then
    ((n.child? .declaration).map (boundNames source)).getD []
  else []

/-- The statement exports the declaration, of which something stays. -/
structure ExportsDeclaration (n d : Node) : Prop where
  isExport : n.isA .exportStatement
  declaration : n.child? .declaration = some d
  plain : n.hasWord "type" = false
  stays : d.isOneOf erasedDeclarations = false
  container : (d.isA .enumDeclaration || d.isSpace) → n.container? = some d
  fills : d.isSpace → d.leavesNothing = false

variable {source : List Char} {n c d : Node} {x : ExportedName}

theorem exists_exportsDeclaration (hx : x ∈ n.exportedValues source) :
    ∃ d, n.ExportsDeclaration d ∧ x ∈ d.boundNames source := by
  rw [exportedValues] at hx
  split at hx
  case isFalse => cases hx
  case isTrue hstatement =>
    rw [Bool.and_eq_true, Bool.not_eq_true', isErased, Bool.or_eq_false_iff,
      Bool.or_eq_false_iff] at hstatement
    obtain ⟨hexport, ⟨-, hspaces⟩, hdeclarations⟩ := hstatement
    rw [hexport, Bool.true_and, Bool.or_eq_false_iff] at hdeclarations
    obtain ⟨htype, herased⟩ := hdeclarations
    cases hd : n.child? .declaration with
    | none =>
      rw [hd] at hx
      cases hx
    | some d =>
      rw [hd] at hx
      rw [hd, Option.any_some] at herased
      have hcontainer : (d.isA .enumDeclaration || d.isSpace) → n.container? = some d := by
        intro hobject
        rw [container?, isA_iff.mp hexport]
        dsimp only
        rw [if_neg (by simp [htype]), hd, Option.filter_some, if_pos hobject]
      refine ⟨d, ⟨hexport, hd, htype, herased, hcontainer, fun hspace => ?_⟩, hx⟩
      rwa [hcontainer (by rw [hspace, Bool.or_true]), Option.any_some] at hspaces

theorem isNamed_of_isA {k : Kind} (h : n.isA k) : n.isNamed := by
  obtain ⟨label, role, start, stop, missing, children⟩ := n
  cases label with
  | word => cases h
  | kind => rfl

/-! ### Where names are written -/

theorem Reaches.isSound {way : List Descent} (h : n.Reaches way c) (hn : n.IsSound source) :
    c.IsSound source :=
  ⟨(h.within hn.ordered).1, h.everywhere hn.regular, h.everywhere hn.firm, h.everywhere hn.bodies⟩

/-- What is written at some depth of a node that is written on one line is. -/
theorem Reaches.notMem_text {way : List Descent} (h : n.Reaches way c) (hn : n.IsSound source)
    (hunbroken : '\n' ∉ slice source n.start n.stop) : '\n' ∉ (c.text source).toList := by
  obtain ⟨-, hfirst, hlast⟩ := h.within hn.ordered
  have hc := h.isSound hn
  have hwidth := hc.start_le_stop
  rw [slice_split hn.isBoundary_start hc.isBoundary_start hn.isBoundary_stop hfirst
      (Nat.le_trans hwidth hlast),
    slice_split hc.isBoundary_start hc.isBoundary_stop hn.isBoundary_stop hwidth hlast,
    List.mem_append, List.mem_append, not_or, not_or] at hunbroken
  rw [text, String.toList_ofList]
  exact hunbroken.2.1

theorem exists_reaches_firstLeaf (n : Node) : ∃ way, n.Reaches way n.firstLeaf := by
  induction n using induction_below with
  | step n ih =>
    obtain ⟨label, role, start, stop, missing, children⟩ := n
    cases children with
    | nil =>
      rw [firstLeaf, firstLeafOf]
      exact ⟨[], .here _⟩
    | cons c cs =>
      rw [firstLeaf, firstLeafOf]
      exact Reaches.exists_of_mem List.mem_cons_self (ih c List.mem_cons_self)

theorem exists_reaches_child {role : Role} (h : n.child? role = some c) :
    ∃ way, n.Reaches way c :=
  Reaches.exists_of_mem (mem_of_child? h) ⟨[], .here c⟩

/-- By itself a variable binds the identifier that it is declared by. -/
theorem eq_of_mem_variableNames (hx : x ∈ n.variableNames source) (hform : x.form = .name) :
    n.isA .identifier ∧ x.name = n.text source := by
  rw [variableNames] at hx
  split at hx
  case isTrue hidentifier =>
    obtain rfl := List.mem_singleton.mp hx
    exact ⟨hidentifier, rfl⟩
  case isFalse =>
    obtain ⟨y, -, rfl⟩ := List.mem_map.mp hx
    cases hform

/-- A name that is bound by itself is written in the declaration. -/
theorem exists_reaches_of_mem_boundNames (hx : x ∈ n.boundNames source) (hform : x.form = .name) :
    ∃ way m, n.Reaches way m ∧ x.name = m.text source := by
  induction n using induction_below with
  | step n ih =>
    obtain ⟨label, role, start, stop, missing, children⟩ := n
    rw [boundNames] at hx
    dsimp only at hx
    have hbelow : ∀ {c m : Node}, c ∈ children → (∃ way, c.Reaches way m) →
        ∃ way, Reaches ⟨label, role, start, stop, missing, children⟩ way m :=
      fun hc => Reaches.exists_of_mem hc
    split at hx
    case h_1 | h_2 =>
      obtain ⟨name, hname, hx⟩ := List.mem_flatMap.mp hx
      obtain ⟨declarator, hdeclarator, hname⟩ := List.mem_filterMap.mp hname
      obtain ⟨way, hway⟩ := hbelow (List.mem_filter.mp hdeclarator).1 (exists_reaches_child hname)
      exact ⟨way, name, hway, (eq_of_mem_variableNames hx hform).2⟩
    case h_3 | h_4 =>
      obtain ⟨name, hname, rfl⟩ := Option.map_eq_some_iff.mp (Option.mem_toList.mp hx)
      obtain ⟨hname, -⟩ := Option.filter_eq_some_iff.mp hname
      obtain ⟨way, hway⟩ := hbelow (mem_of_child? hname) (exists_reaches_firstLeaf name)
      exact ⟨way, _, hway, rfl⟩
    case h_5 =>
      obtain ⟨name, -, rfl⟩ := Option.map_eq_some_iff.mp (Option.mem_toList.mp hx)
      cases hform
    case h_6 =>
      rw [boundNamesOf_eq] at hx
      obtain ⟨c, hc, hx⟩ := List.mem_flatMap.mp hx
      obtain ⟨way, m, hway, hname⟩ := ih c hc hx
      obtain ⟨way', hway'⟩ := hbelow hc ⟨way, hway⟩
      exact ⟨way', m, hway', hname⟩
    case h_7 =>
      split at hx
      case isTrue =>
        obtain ⟨name, hname, rfl⟩ := Option.map_eq_some_iff.mp (Option.mem_toList.mp hx)
        obtain ⟨way, hway⟩ := exists_reaches_child hname
        exact ⟨way, name, hway, rfl⟩
      case isFalse => cases hx
    case h_8 => cases hx

/-! ### Namespaces in others -/

/-- The statement fills a namespace, between whose braces these statements stand. -/
structure FillsSpace (n d name body : Node) (inner : List Node) : Prop where
  container : n.container? = some d
  isSpace : d.isSpace
  called : d.child? .name = some name
  plain : name.isA .string = false
  isInstantiated : d.isInstantiated
  block : d.child? .body = some body
  closed : ∃ right rest, body.children = inner ++ right :: rest ∧ right.start < right.stop

/-- Nothing comes of the node but what comes of its parts. -/
def StaysWhole (n : Node) : Prop := ∀ t v f p scope, lowered? t v f p scope n = none

/-- A namespace of that name exports a value by its own name, at any depth of the statement: in the
namespace that it fills, or in a part of what stays of it. -/
inductive Exports (source : List Char) : Node → Node → String → Prop
  | own {n d name body s : Node} {inner : List Node} {x : ExportedName}
      (h : n.FillsSpace d name body inner) (hs : s ∈ inner) (hx : x ∈ s.exportedValues source)
      (hform : x.form = .name) : Exports source n name x.name
  | inner {n d outer body s name : Node} {inner : List Node} {member : String}
      (h : n.FillsSpace d outer body inner) (hs : s ∈ inner) (hnamed : s.isNamed)
      (hbelow : Exports source s name member) : Exports source n name member
  | part {n c name : Node} {member : String} (h : n.StaysWhole) (hc : c ∈ n.children)
      (hnamed : c.isNamed) (hbelow : Exports source c name member) : Exports source n name member

variable {name body s : Node} {inner : List Node} {member : String}

theorem eq_or_mem_of_container? (h : n.container? = some d) : d = n ∨ d ∈ n.children := by
  rw [container?] at h
  split at h
  case h_1 | h_2 | h_3 => exact .inl (Option.some.inj h).symm
  case h_4 =>
    obtain ⟨hhead, -⟩ := Option.filter_eq_some_iff.mp h
    exact .inr (mem_of_namedChildren (List.mem_of_head? hhead))
  case h_5 =>
    split at h
    · cases h
    · obtain ⟨hchild, -⟩ := Option.filter_eq_some_iff.mp h
      exact .inr (mem_of_child? hchild)
  case h_6 => cases h

namespace FillsSpace

variable (h : n.FillsSpace d name body inner)

include h

theorem mem_children (hs : s ∈ inner) : s ∈ body.children := by
  obtain ⟨right, rest, hclosed, -⟩ := h.closed
  rw [hclosed]
  exact List.mem_append_left _ hs

theorem depth_lt (hs : s ∈ inner) : s.depth + 2 ≤ n.depth := by
  have hinner := depth_lt_of_mem (h.mem_children hs)
  have hbody := depth_lt_of_mem (mem_of_child? h.block)
  rcases eq_or_mem_of_container? h.container with rfl | hd
  · omega
  · have houter := depth_lt_of_mem hd
    omega

theorem isSound_space (hn : n.IsSound source) : d.IsSound source := by
  rcases eq_or_mem_of_container? h.container with rfl | hd
  · exact hn
  · exact hn.child hd

theorem isSound_body (hn : n.IsSound source) : body.IsSound source :=
  (h.isSound_space hn).child (mem_of_child? h.block)

theorem exists_reaches (hs : s ∈ inner) {m : Node} (hm : ∃ way, s.Reaches way m) :
    ∃ way, n.Reaches way m := by
  have hspace := Reaches.exists_of_mem (mem_of_child? h.block)
    (Reaches.exists_of_mem (h.mem_children hs) hm)
  rcases eq_or_mem_of_container? h.container with rfl | hd
  · exact hspace
  · exact Reaches.exists_of_mem hd hspace

/-- In a body on one line, a name is written on that line. -/
theorem notMem_member (hn : n.IsSound source) (hs : s ∈ inner)
    (hmember : ∃ way m, s.Reaches way m ∧ member = m.text source)
    (hunbroken : '\n' ∉ slice source body.start body.stop) : '\n' ∉ member.toList := by
  obtain ⟨way, m, hway, rfl⟩ := hmember
  obtain ⟨way, hway⟩ := Reaches.exists_of_mem (h.mem_children hs) ⟨way, hway⟩
  exact hway.notMem_text (h.isSound_body hn) hunbroken

end FillsSpace

theorem exists_reaches_of_mem_exportedValues {x : ExportedName} (hx : x ∈ n.exportedValues source)
    (hform : x.form = .name) : ∃ way m, n.Reaches way m ∧ x.name = m.text source := by
  obtain ⟨d, hd, hx⟩ := exists_exportsDeclaration hx
  obtain ⟨way, m, hway, hname⟩ := exists_reaches_of_mem_boundNames hx hform
  obtain ⟨way, hway⟩ := Reaches.exists_of_mem (mem_of_child? hd.declaration) ⟨way, hway⟩
  exact ⟨way, m, hway, hname⟩

/-- What a namespace exports is written in the statement. -/
theorem Exports.exists_reaches (h : n.Exports source name member) :
    ∃ way m, n.Reaches way m ∧ member = m.text source := by
  induction h with
  | own h hs hx hform =>
    obtain ⟨way, m, hway, hname⟩ := exists_reaches_of_mem_exportedValues hx hform
    obtain ⟨way, hway⟩ := h.exists_reaches hs ⟨way, hway⟩
    exact ⟨way, m, hway, hname⟩
  | inner h hs _ _ ih =>
    obtain ⟨way, m, hway, hname⟩ := ih
    obtain ⟨way, hway⟩ := h.exists_reaches hs ⟨way, hway⟩
    exact ⟨way, m, hway, hname⟩
  | part _ hc _ _ ih =>
    obtain ⟨way, m, hway, hname⟩ := ih
    obtain ⟨way, hway⟩ := Reaches.exists_of_mem hc ⟨way, hway⟩
    exact ⟨way, m, hway, hname⟩

end Node

end CompilingProxy
