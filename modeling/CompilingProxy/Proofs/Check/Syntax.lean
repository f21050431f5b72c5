import CompilingProxy.Check.Syntax
import CompilingProxy.Proofs.Grammar.Tree

/-!
# Text that could not be read is reported

A tree with an error in it leads to a diagnostic whatever language the text is in: the walk that
looks for complaints turns back at a complaint only, so on the way to the error there is one.
-/

namespace CompilingProxy

namespace Node

theorem anyHasError_iff {ns : List Node} : anyHasError ns ↔ ∃ n ∈ ns, n.hasError := by
  induction ns with
  | nil => simp [anyHasError]
  | cons n ns ih => simp [anyHasError, ih]

theorem hasError_iff {n : Node} :
    n.hasError ↔ n.isA .error ∨ n.missing ∨ ∃ c ∈ n.children, c.hasError := by
  cases n
  rw [hasError, Bool.or_eq_true, Bool.or_eq_true, anyHasError_iff, or_assoc]
  rfl

theorem hasError_eq_false_iff {n : Node} :
    n.hasError = false ↔ ¬(n.isA .error ∨ n.missing) ∧ ∀ c ∈ n.children, c.hasError = false := by
  rw [← Bool.not_eq_true, hasError_iff, ← or_assoc, not_or]
  simp

end Node

namespace SyntaxCheck

variable {typeScript : Bool} {parent : Option Label} {n : Node}

/-! ### Complaints -/

theorem complaintsInAll_eq_nil_iff {ns : List Node} :
    complaintsInAll typeScript parent ns = [] ↔
      ∀ n ∈ ns, complaints typeScript parent n = [] := by
  induction ns with
  | nil => simp [complaintsInAll]
  | cons n ns ih => simp [complaintsInAll, ih]

/-- Whatever the language, there is a complaint about a node that stands for unreadable text. -/
theorem complaint?_ne_none (h : n.isA .error ∨ n.missing) :
    complaint? typeScript parent n ≠ none := by
  rw [complaint?]
  split
  case isTrue => exact Option.some_ne_none _
  case isFalse hmissing =>
    rw [if_pos (h.resolve_right hmissing)]
    exact Option.some_ne_none _

theorem complaint?_eq_none_iff : complaint? true parent n = none ↔
    ¬(n.isA .error ∨ n.missing) := by
  refine ⟨fun hnone herror => complaint?_ne_none herror hnone, fun hclean => ?_⟩
  obtain ⟨hreadable, hwritten⟩ := not_or.mp hclean
  rw [complaint?, if_neg hwritten, if_neg hreadable, if_pos rfl]

theorem complaint?_of_clean (h : n.hasError = false) : complaint? true parent n = none :=
  complaint?_eq_none_iff.mpr (Node.hasError_eq_false_iff.mp h).1

/-- Of a text in TypeScript nothing else is said. -/
theorem complaints_eq_nil_of_clean (h : n.hasError = false) : complaints true parent n = [] := by
  have hnone : complaint? true parent n = none := complaint?_of_clean h
  cases n
  rw [complaints, hnone, h]
  rfl

/-- That trees without an error are passed over makes no difference. -/
theorem complaints_eq (typeScript : Bool) (parent : Option Label) (n : Node) :
    complaints typeScript parent n =
      match complaint? typeScript parent n with
      | some c => [(n.start, c)]
      | none => complaintsInAll typeScript (some n.label) n.children := by
  cases hpassed : n.hasError || !typeScript with
  | true =>
    cases n
    rw [complaints, hpassed]
    rfl
  | false =>
    obtain ⟨hclean, hlanguage⟩ := Bool.or_eq_false_iff.mp hpassed
    obtain rfl : typeScript = true := by simpa using hlanguage
    have hbelow := (Node.hasError_eq_false_iff.mp hclean).2
    rw [complaints_eq_nil_of_clean hclean, complaint?_of_clean hclean]
    exact (complaintsInAll_eq_nil_iff.mpr fun c hc =>
      complaints_eq_nil_of_clean (hbelow c hc)).symm

/-- Nothing is said of a tree only if nothing is to be said of the node and of what is below it. -/
theorem complaints_eq_nil_iff :
    complaints typeScript parent n = [] ↔
      complaint? typeScript parent n = none ∧
        ∀ c ∈ n.children, complaints typeScript (some n.label) c = [] := by
  rw [complaints_eq]
  split
  case h_1 hsome => simp [hsome]
  case h_2 hnone =>
    rw [complaintsInAll_eq_nil_iff]
    simp [hnone]

theorem complaints_ne_nil (h : n.hasError) : complaints typeScript parent n ≠ [] := by
  induction n using Node.induction_below generalizing parent with
  | step n ih =>
    intro hnil
    obtain ⟨hnone, hbelow⟩ := complaints_eq_nil_iff.mp hnil
    rcases Node.hasError_iff.mp h with herror | hmissing | ⟨c, hc, herror⟩
    · exact complaint?_ne_none (.inl herror) hnone
    · exact complaint?_ne_none (.inr hmissing) hnone
    · exact ih c hc herror (hbelow c hc)

/-! ### Repeated diagnostics -/

/-- The first of repeated diagnostics stays. -/
theorem dropRepeated_eq_nil_iff {ds : List Diagnostic} : dropRepeated ds = [] ↔ ds = [] := by
  fun_induction dropRepeated ds with
  | case1 a b rest _ ih => simp [ih]
  | case2 a b rest _ ih => simp
  | case3 ds => rfl

theorem dropRepeated_subset (ds : List Diagnostic) : dropRepeated ds ⊆ ds := by
  fun_induction dropRepeated ds with
  | case1 a b rest _ ih =>
    refine List.Subset.trans ih (List.cons_subset_cons a (List.subset_cons_self b rest))
  | case2 a b rest _ ih => exact List.cons_subset_cons a ih
  | case3 ds => exact List.Subset.refl ds

end SyntaxCheck

namespace ModuleRecord

variable {r : ModuleRecord}

theorem isError_of_mem_syntaxDiagnostics {d : Diagnostic} (h : d ∈ r.syntaxDiagnostics) :
    d.isError := by
  obtain ⟨⟨offset, code, text⟩, -, rfl⟩ :=
    List.mem_map.mp (SyntaxCheck.dropRepeated_subset _ h)
  rfl

/-- Where the text could not be read there is an error, in whatever language it is. -/
theorem exists_syntaxDiagnostic_of_hasError (h : r.tree.hasError) :
    ∃ d ∈ r.syntaxDiagnostics, d.isError := by
  have hsome : r.syntaxDiagnostics ≠ [] := by
    rw [syntaxDiagnostics, ne_eq, SyntaxCheck.dropRepeated_eq_nil_iff, List.map_eq_nil_iff]
    exact SyntaxCheck.complaints_ne_nil h
  obtain ⟨d, hd⟩ := List.exists_mem_of_ne_nil _ hsome
  exact ⟨d, hd, isError_of_mem_syntaxDiagnostics hd⟩

/-- A text in TypeScript has errors of its text just if it could not be read. -/
theorem syntaxDiagnostics_eq_nil_iff (h : r.kind.isTypeScript) :
    r.syntaxDiagnostics = [] ↔ r.tree.hasError = false := by
  rw [syntaxDiagnostics, SyntaxCheck.dropRepeated_eq_nil_iff, List.map_eq_nil_iff, h]
  refine ⟨fun hnil => ?_, SyntaxCheck.complaints_eq_nil_of_clean⟩
  exact Bool.eq_false_iff.mpr fun herror => SyntaxCheck.complaints_ne_nil herror hnil

end ModuleRecord

end CompilingProxy
