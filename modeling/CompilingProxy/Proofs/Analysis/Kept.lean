import CompilingProxy.Analysis.Basic
import CompilingProxy.Proofs.Grammar.Tree
import Mathlib.Data.List.Induction

/-!
# What statements keep

The analysis of a module grows by few kinds of steps. What each of them keeps is kept by every
statement, however deep the declarations stand that it leads to.
-/

namespace CompilingProxy.ModuleAnalysis

/-- Each step by which statements add to an analysis keeps the property, when what it is taken for
is so at the nodes that it is taken at. -/
structure IsKept (source : List Char) (q : Node → Prop) (P : ModuleAnalysis → Prop) : Prop where
  below {n c : Node} : q n → c ∈ n.children → q c
  module {a : ModuleAnalysis} : P a → P { a with isModule := true }
  importing {a : ModuleAnalysis} {n : Node} : q n → P a →
    P { a with imports := a.imports ++ (importDecl? source n).toList }
  assignment {a : ModuleAnalysis} : P a → P { a with hasExportAssignment := true }
  default {a : ModuleAnalysis} {b : Bool} : P a →
    P { a with hasDefaultExport := a.hasDefaultExport || b }
  reExport {a : ModuleAnalysis} {e : ReExport} : P a → P { a with reExports := a.reExports ++ [e] }
  ambient {a : ModuleAnalysis} {name : String} : P a →
    P { a with ambientModules := a.ambientModules ++ [name] }
  exported {a : ModuleAnalysis} {name : String} : P a → P (a.addExport name)
  declare {a : ModuleAnalysis} {s : Setting} {name : String} {kind : DeclarationKind}
    {n node : Node} : q n →
    (kind.isValue = false → n.isOneOf [.interfaceDeclaration, .typeAliasDeclaration]) →
    P a → P (a.declare s name kind node)

variable {source : List Char} {s : Setting} {a : ModuleAnalysis} {q : Node → Prop}
  {P : ModuleAnalysis → Prop} {n : Node} {ns : List Node}

theorem statements_kept
    (hstatement : ∀ n ∈ ns, ∀ s a, P a → P (statement source s a n)) (ha : P a) :
    P (statements source s a ns) := by
  induction ns generalizing a with
  | nil =>
    rw [statements]
    exact ha
  | cons n ns ih =>
    rw [statements]
    exact ih (fun m hm => hstatement m (List.mem_cons_of_mem _ hm))
      (hstatement n List.mem_cons_self s a ha)

theorem declarationIn_kept
    (hstatement : ∀ n ∈ ns, ∀ s a, P a → P (statement source s a n)) (ha : P a) :
    P (declarationIn source s a ns) := by
  induction ns with
  | nil =>
    rw [declarationIn]
    exact ha
  | cons n ns ih =>
    rw [declarationIn]
    split
    · exact hstatement n List.mem_cons_self s a ha
    · exact ih fun m hm => hstatement m (List.mem_cons_of_mem _ hm)

theorem firstModule_kept
    (hstatement : ∀ n ∈ ns, ∀ s a, P a → P (statement source s a n)) (ha : P a) :
    P (firstModule source s a ns) := by
  induction ns with
  | nil =>
    rw [firstModule]
    exact ha
  | cons n ns ih =>
    rw [firstModule]
    split
    · exact hstatement n List.mem_cons_self s a ha
    · split
      · exact ha
      · exact ih fun m hm => hstatement m (List.mem_cons_of_mem _ hm)

theorem declarationKind?_type {k : Kind} {declared : DeclarationKind}
    (h : declarationKind? k = some declared) (htype : declared.isValue = false) :
    [Kind.interfaceDeclaration, .typeAliasDeclaration].contains k := by
  unfold declarationKind? at h
  split at h
  all_goals first | rfl | (cases h; cases htype) | cases h

theorem IsKept.clause (h : IsKept source q P) (ha : P a) : P (a.exportClause source n) := by
  rw [exportClause]
  have hdefault : ∀ b, P { a with hasDefaultExport := a.hasDefaultExport || b } :=
    fun _ => h.default ha
  split
  · exact h.reExport (hdefault _)
  · exact List.foldlRecOn _ _ (hdefault _) fun _ ha _ _ => h.exported ha

theorem IsKept.variables (h : IsKept source q P) (hn : q n) (ha : P a) :
    P (a.declareVariables s source n) := by
  rw [declareVariables]
  refine List.foldlRecOn _ _ ha fun _ ha _ _ => h.declare hn (fun htype => ?_) ha
  split at htype <;> cases htype

/-- What the steps keep is kept by a statement. -/
theorem IsKept.statement (h : IsKept source q P) (hn : q n) (ha : P a) :
    P (statement source s a n) := by
  induction n using Node.induction_below generalizing s a with
  | step n ih =>
    have hbelow : ∀ c ∈ n.children, ∀ s a, P a → P (ModuleAnalysis.statement source s a c) :=
      fun c hc s a => ih c hc (h.below hn hc)
    obtain ⟨label, role, start, stop, missing, children⟩ := n
    rw [ModuleAnalysis.statement]
    dsimp only
    split
    case h_1 => exact h.module (h.importing hn ha)
    case h_2 => exact h.module ha
    case h_3 =>
      split
      · exact h.assignment (h.module ha)
      · split
        · exact declarationIn_kept hbelow (h.default (h.module ha))
        · split
          · have hdefault := h.default (b := true) (h.module ha)
            rwa [Bool.or_true] at hdefault
          · exact h.clause (h.module ha)
    case h_4 => exact statements_kept hbelow ha
    case h_5 => exact firstModule_kept hbelow ha
    case h_6 | h_7 =>
      split
      · exact ha
      · split
        · exact h.ambient ha
        · exact h.declare hn (fun htype => by cases htype) ha
    case h_8 | h_9 => exact h.variables hn ha
    case h_10 _ _ _ _ _ _ _ _ _ hkind =>
      split
      case h_1 declared name hdeclared _ =>
        refine h.declare hn (fun htype => ?_) ha
        rw [Node.isOneOf_of_kind? hkind]
        exact declarationKind?_type hdeclared htype
      case h_2 => exact ha
    case h_11 => exact ha

end CompilingProxy.ModuleAnalysis
