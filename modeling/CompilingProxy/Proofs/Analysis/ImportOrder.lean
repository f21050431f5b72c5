import CompilingProxy.Analysis.Basic
import CompilingProxy.Proofs.Grammar.Tree

/-!
# The imports of a module in order

The imports that the analysis lists begin one behind another, so that an import is told apart from
the others by where it begins.
-/

namespace CompilingProxy

theorem importDecl?_range {source : List Char} {n : Node} {i : ImportDecl}
    (h : importDecl? source n = some i) : i.range = n.range := by
  rw [importDecl?] at h
  cases hspecifier : n.child? .source with
  | none => simp [hspecifier] at h
  | some specifier =>
    simp only [hspecifier, Option.bind_eq_bind, Option.bind_some, Option.pure_def,
      Option.some.injEq] at h
    rw [← h]

namespace ModuleAnalysis

/-- What is known gains imports that begin between the offsets, each behind the one before. -/
def Gains (start stop : Nat) (a b : ModuleAnalysis) : Prop :=
  ∃ more, b.imports = a.imports ++ more ∧
    more.Pairwise (fun i j => i.range.start < j.range.start) ∧
    ∀ i ∈ more, start ≤ i.range.start ∧ i.range.start < stop

namespace Gains

variable {start middle stop : Nat} {a b c : ModuleAnalysis}

theorem of_imports_eq (h : b.imports = a.imports) : Gains start stop a b :=
  ⟨[], by rw [h, List.append_nil], .nil, by simp⟩

theorem trans (hab : Gains start middle a b) (hbc : Gains middle stop b c)
    (hstart : start ≤ middle) (hstop : middle ≤ stop) : Gains start stop a c := by
  obtain ⟨first, hfirst, hfirstOrder, hfirstRange⟩ := hab
  obtain ⟨second, hsecond, hsecondOrder, hsecondRange⟩ := hbc
  refine ⟨first ++ second, by rw [hsecond, hfirst, List.append_assoc], ?_, fun i hi => ?_⟩
  · refine List.pairwise_append.mpr ⟨hfirstOrder, hsecondOrder, fun i hi j hj => ?_⟩
    have := (hfirstRange i hi).2
    have := (hsecondRange j hj).1
    omega
  · rcases List.mem_append.mp hi with hi | hi
    · have := hfirstRange i hi
      omega
    · have := hsecondRange i hi
      omega

theorem widen {start' stop' : Nat} (h : Gains start stop a b) (hstart : start' ≤ start)
    (hstop : stop ≤ stop') : Gains start' stop' a b := by
  obtain ⟨more, himports, horder, hrange⟩ := h
  refine ⟨more, himports, horder, fun i hi => ?_⟩
  have := hrange i hi
  omega

/-- Imports that are known stay known. -/
theorem subset (h : Gains start stop a b) : a.imports ⊆ b.imports := by
  obtain ⟨more, himports, -⟩ := h
  rw [himports]
  exact List.subset_append_left _ _

end Gains

/-! ### What leaves the imports as they are -/

@[simp]
theorem addExport_imports {a : ModuleAnalysis} {name : String} :
    (a.addExport name).imports = a.imports := by
  rw [addExport]
  split <;> rfl

@[simp]
theorem declare_imports {a : ModuleAnalysis} {s : Setting} {name : String}
    {kind : DeclarationKind} {node : Node} : (a.declare s name kind node).imports = a.imports := by
  rw [declare]
  split <;> simp

theorem foldl_keeps {α β : Type} {f : ModuleAnalysis → α → ModuleAnalysis}
    {g : ModuleAnalysis → β} (hf : ∀ a x, g (f a x) = g a) (xs : List α) (a : ModuleAnalysis) :
    g (xs.foldl f a) = g a := by
  induction xs generalizing a with
  | nil => rfl
  | cons x xs ih => rw [List.foldl_cons, ih, hf]

@[simp]
theorem declareVariables_imports {a : ModuleAnalysis} {s : Setting} {source : List Char}
    {n : Node} : (a.declareVariables s source n).imports = a.imports :=
  foldl_keeps (fun _ _ => declare_imports) _ _

@[simp]
theorem exportClause_imports {a : ModuleAnalysis} {source : List Char} {n : Node} :
    (a.exportClause source n).imports = a.imports := by
  rw [exportClause]
  split
  · rfl
  · exact foldl_keeps (fun _ _ => addExport_imports) _ _

/-! ### Statements -/

section

variable {source : List Char} {s : Setting} {a : ModuleAnalysis}

theorem statements_gains {ns : List Node} {start stop : Nat} (h : Node.allOrdered start stop ns)
    (hstatement : ∀ n ∈ ns, n.isOrdered → ∀ s a,
      Gains n.start n.stop a (statement source s a n)) :
    Gains start stop a (statements source s a ns) := by
  induction ns generalizing start a with
  | nil =>
    rw [statements]
    exact .of_imports_eq rfl
  | cons n ns ih =>
    obtain ⟨hstart, hn, hns⟩ := Node.allOrdered_cons_iff.mp h
    have hwidth := Node.start_le_stop_of_isOrdered hn
    have hrest := Node.start_le_stop_of_allOrdered hns
    have hfirst := hstatement n List.mem_cons_self hn s a
    rw [statements]
    refine (hfirst.widen hstart (Nat.le_refl _)).trans ?_ (by omega) hrest
    exact ih hns fun m hm => hstatement m (List.mem_cons_of_mem _ hm)

theorem declarationIn_gains {ns : List Node} {start stop : Nat}
    (h : Node.allOrdered start stop ns)
    (hstatement : ∀ n ∈ ns, n.isOrdered → ∀ s a,
      Gains n.start n.stop a (statement source s a n)) :
    Gains start stop a (declarationIn source s a ns) := by
  induction ns generalizing start with
  | nil =>
    rw [declarationIn]
    exact .of_imports_eq rfl
  | cons n ns ih =>
    obtain ⟨hstart, hn, hns⟩ := Node.allOrdered_cons_iff.mp h
    have hwidth := Node.start_le_stop_of_isOrdered hn
    have hrest := Node.start_le_stop_of_allOrdered hns
    rw [declarationIn]
    split
    · exact (hstatement n List.mem_cons_self hn s a).widen hstart hrest
    · exact (ih hns fun m hm => hstatement m (List.mem_cons_of_mem _ hm)).widen
        (by omega) (Nat.le_refl _)

theorem firstModule_gains {ns : List Node} {start stop : Nat}
    (h : Node.allOrdered start stop ns)
    (hstatement : ∀ n ∈ ns, n.isOrdered → ∀ s a,
      Gains n.start n.stop a (statement source s a n)) :
    Gains start stop a (firstModule source s a ns) := by
  induction ns generalizing start with
  | nil =>
    rw [firstModule]
    exact .of_imports_eq rfl
  | cons n ns ih =>
    obtain ⟨hstart, hn, hns⟩ := Node.allOrdered_cons_iff.mp h
    have hwidth := Node.start_le_stop_of_isOrdered hn
    have hrest := Node.start_le_stop_of_allOrdered hns
    rw [firstModule]
    split
    · exact (hstatement n List.mem_cons_self hn s a).widen hstart hrest
    · split
      · exact .of_imports_eq rfl
      · exact (ih hns fun m hm => hstatement m (List.mem_cons_of_mem _ hm)).widen
          (by omega) (Nat.le_refl _)

end

theorem statement_import {source : List Char} {s : Setting} {a : ModuleAnalysis} {n : Node}
    (h : n.kind? = some .importStatement) :
    statement source s a n =
      { a with isModule := true, imports := a.imports ++ (importDecl? source n).toList } := by
  cases n
  rw [statement]
  simp only [h]

theorem statement_export {source : List Char} {s : Setting} {a : ModuleAnalysis} {n : Node}
    (h : n.kind? = some .exportStatement) :
    statement source s a n =
      if n.hasWord "=" then { a with isModule := true, hasExportAssignment := true }
      else if (n.child? .declaration).isSome then
        declarationIn source { s with exported := !n.hasWord "default" }
          { a with
            isModule := true, hasDefaultExport := a.hasDefaultExport || n.hasWord "default" }
          n.children
      else if n.hasWord "default" then { a with isModule := true, hasDefaultExport := true }
      else exportClause { a with isModule := true } source n := by
  cases n
  rw [statement]
  simp only [h]

/-- The imports of a statement begin in it, each behind the one before. -/
theorem statement_gains {source : List Char} {s : Setting} {a : ModuleAnalysis} {n : Node}
    (h : n.isOrdered) : Gains n.start n.stop a (statement source s a n) := by
  induction n using Node.induction_below generalizing s a with
  | step n ih =>
    obtain ⟨hwidth, hchildren⟩ := Node.isOrdered_iff.mp h
    by_cases himport : n.kind? = some .importStatement
    · rw [statement_import himport]
      refine ⟨(importDecl? source n).toList, rfl, ?_, fun i hi => ?_⟩
      · cases importDecl? source n <;> simp
      · rw [importDecl?_range (Option.mem_toList.mp hi)]
        exact ⟨Nat.le_refl _, hwidth (Node.isA_iff.mpr himport)⟩
    · have hbelow : ∀ c ∈ n.children, c.isOrdered → ∀ s a,
          Gains c.start c.stop a (statement source s a c) := fun c hc hord s a => ih c hc hord
      obtain ⟨label, role, start, stop, missing, children⟩ := n
      rw [statement]
      dsimp only
      split
      case h_1 hkind => exact absurd hkind himport
      case h_2 => exact .of_imports_eq rfl
      case h_3 =>
        split
        · exact .of_imports_eq rfl
        · split
          · exact declarationIn_gains (a := { a with isModule := true, hasDefaultExport := _ })
              hchildren hbelow
          · split
            · exact .of_imports_eq rfl
            · exact .of_imports_eq exportClause_imports
      case h_4 => exact statements_gains hchildren hbelow
      case h_5 => exact firstModule_gains hchildren hbelow
      case h_6 | h_7 =>
        split
        · exact .of_imports_eq rfl
        · split
          · exact .of_imports_eq rfl
          · exact .of_imports_eq declare_imports
      case h_8 | h_9 => exact .of_imports_eq declareVariables_imports
      case h_10 =>
        split
        · exact .of_imports_eq declare_imports
        · exact .of_imports_eq rfl
      case h_11 => exact .of_imports_eq rfl

theorem mem_imports_statements {source : List Char} {s : Setting} {a : ModuleAnalysis} {n : Node}
    {i : ImportDecl} {ns : List Node} {start stop : Nat} (h : Node.allOrdered start stop ns)
    (hmem : n ∈ ns) (himport : n.isA .importStatement)
    (hdecl : importDecl? source n = some i) : i ∈ (statements source s a ns).imports := by
  induction ns generalizing start a with
  | nil => cases hmem
  | cons m ns ih =>
    obtain ⟨-, -, hns⟩ := Node.allOrdered_cons_iff.mp h
    rw [statements]
    rcases List.mem_cons.mp hmem with rfl | hmem
    · have hgains : Gains n.stop stop (statement source s a n)
          (statements source s (statement source s a n) ns) :=
        statements_gains hns fun c _ hc s a => statement_gains hc
      apply hgains.subset
      rw [statement_import (Node.isA_iff.mp himport), hdecl]
      simp
    · exact ih hns hmem

end ModuleAnalysis

/-- An import at the top of a module is the one that is listed to begin where it does. -/
theorem ModuleRecord.find?_imports {r : ModuleRecord} (h : r.tree.isOrdered) {n : Node}
    {i : ImportDecl} (hmem : n ∈ r.tree.children) (himport : n.isA .importStatement)
    (hdecl : importDecl? r.text.toList n = some i) :
    r.analysis.imports.find? (·.range.start == n.start) = some i := by
  have hchildren := (Node.isOrdered_iff.mp h).2
  obtain ⟨more, himports, horder, -⟩ : ModuleAnalysis.Gains r.tree.start r.tree.stop {}
      (ModuleAnalysis.statements r.text.toList {} {} r.tree.children) :=
    ModuleAnalysis.statements_gains hchildren fun c _ hc s a => ModuleAnalysis.statement_gains hc
  have hlisted : r.analysis.imports = more := himports
  have hi : i ∈ r.analysis.imports :=
    ModuleAnalysis.mem_imports_statements hchildren hmem himport hdecl
  have hstart : i.range.start = n.start := by rw [importDecl?_range hdecl]; rfl
  obtain ⟨front, back, hsplit⟩ := List.append_of_mem hi
  refine List.find?_eq_some_iff_append.mpr ⟨by simp [hstart], front, back, hsplit, fun j hj => ?_⟩
  rw [← hlisted, hsplit] at horder
  have hbefore := (List.pairwise_append.mp horder).2.2 j hj i List.mem_cons_self
  rw [← hstart]
  simpa using Nat.ne_of_lt hbefore

end CompilingProxy
