import CompilingProxy.Check.Binding
import CompilingProxy.Proofs.Grammar.Tree
import CompilingProxy.Proofs.Program.Memo

/-!
# Missing modules

Among all that the check of a module's meaning reports, a missing module is reported for nothing
but the specifier of an import or export that leads nowhere.
-/

namespace CompilingProxy

namespace BindingCheck

/-- The finding says that a module is missing. -/
def Finding.isMissing (x : Finding) : Prop := x.code = 2307

/-- The finding is about another module and what that exports. -/
def Finding.concernsModules (x : Finding) : Prop := x.code ∈ [1192, 2305, 2306, 2307]

theorem Finding.isMissing.concernsModules {x : Finding} (h : x.isMissing) :
    x.concernsModules := by
  rw [Finding.concernsModules, h]
  decide

section

variable {g : Program} {memo : AnalysisMemo} {offset : Nat} {specifier : String}
  {names : List (Nat × ImportedName)} {x : Finding}

/-! ### Imports and exports -/

theorem code_of_mem_namesFindings {exported : ExportSet}
    (hx : x ∈ namesFindings specifier exported names) : x.code ∈ [1192, 2305] := by
  obtain ⟨⟨offset, name⟩, -, hname⟩ := List.mem_filterMap.mp hx
  cases name with
  | default | named name =>
    dsimp only at hname
    split at hname
    · cases hname
    · cases hname
      simp [noDefault, noMember]
  | wholeModule => cases hname

theorem concernsModules_of_mem_specifierFindings
    (hx : x ∈ (specifierFindings g offset specifier names memo).1) : x.concernsModules := by
  rw [specifierFindings, Analyzing.bind_run] at hx
  cases hresolve : (g.resolve specifier memo).1 with
  | ambient =>
    rw [hresolve] at hx
    cases hx
  | unresolved =>
    rw [hresolve] at hx
    rw [List.mem_singleton.mp hx]
    simp [Finding.concernsModules, noModule]
  | file target =>
    rw [hresolve] at hx
    dsimp only at hx
    rw [Analyzing.bind_run] at hx
    split at hx
    · rw [List.mem_singleton.mp hx]
      simp [Finding.concernsModules, notModule]
    · rw [Analyzing.bind_run, Analyzing.pure_run] at hx
      dsimp only at hx
      split at hx
      · cases hx
      · have hcode := code_of_mem_namesFindings hx
        simp only [List.mem_cons, List.not_mem_nil, or_false] at hcode
        rcases hcode with hcode | hcode <;> simp [Finding.concernsModules, hcode]

theorem concernsModules_of_mem_importFindings {i : ImportDecl}
    (hx : x ∈ (importFindings g i memo).1) : x.concernsModules := by
  rw [importFindings] at hx
  split at hx
  · cases hx
  · exact concernsModules_of_mem_specifierFindings hx

theorem concernsModules_of_mem_reExportFindings {r : ReExport}
    (hx : x ∈ (reExportFindings g r memo).1) : x.concernsModules :=
  concernsModules_of_mem_specifierFindings hx

theorem specifierFindings_missing
    (hx : x ∈ (specifierFindings g offset specifier names memo).1) (hmissing : x.isMissing) :
    (g.resolve specifier memo).1 = .unresolved ∧ x = noModule offset specifier := by
  rw [specifierFindings, Analyzing.bind_run] at hx
  cases hresolve : (g.resolve specifier memo).1 with
  | ambient =>
    rw [hresolve] at hx
    cases hx
  | unresolved =>
    rw [hresolve] at hx
    exact ⟨rfl, List.mem_singleton.mp hx⟩
  | file target =>
    rw [hresolve] at hx
    dsimp only at hx
    rw [Analyzing.bind_run] at hx
    split at hx
    · rw [List.mem_singleton.mp hx] at hmissing
      cases hmissing
    · rw [Analyzing.bind_run, Analyzing.pure_run] at hx
      dsimp only at hx
      split at hx
      · cases hx
      · have hcode := code_of_mem_namesFindings hx
        rw [show x.code = 2307 from hmissing] at hcode
        cases hcode
        contradiction

theorem importFindings_missing {i : ImportDecl} (hx : x ∈ (importFindings g i memo).1)
    (hmissing : x.isMissing) :
    (g.resolve i.specifier memo).1 = .unresolved ∧
      x = noModule i.specifierRange.start i.specifier := by
  rw [importFindings] at hx
  split at hx
  · cases hx
  · exact specifierFindings_missing hx hmissing

theorem reExportFindings_missing {r : ReExport} (hx : x ∈ (reExportFindings g r memo).1)
    (hmissing : x.isMissing) :
    (g.resolve r.specifier memo).1 = .unresolved ∧
      x = noModule r.specifierRange.start r.specifier :=
  specifierFindings_missing hx hmissing

/-! ### Everything else -/

theorem code_of_declarationFinding? {all : List Declaration} {d : Declaration}
    (hx : declarationFinding? all d = some x) : x.code ∈ [2300, 2393, 2451] := by
  have hvalue {group : List Declaration} (h : valueFinding? group d = some x) :
      x.code ∈ [2300, 2393, 2451] := by
    rw [valueFinding?] at h
    split at h
    · split at h
      · cases h
        simp
      · cases h
    · split at h
      · cases h
        simp
      · split at h
        · cases h
          simp
        · cases h
  have htype {group : List Declaration} (h : typeFinding? group d = some x) :
      x.code ∈ [2300, 2393, 2451] := by
    rw [typeFinding?] at h
    split at h
    · cases h
      simp
    · cases h
  rw [declarationFinding?] at hx
  rcases Option.or_eq_some_iff.mp hx with hx | ⟨-, hx⟩
  · split at hx
    · exact hvalue hx
    · cases hx
  · split at hx
    · exact htype hx
    · cases hx

theorem code_of_mem_erasable {o : CompilerOptions} (hx : x ∈ erasable o offset) :
    x.code = 1294 := by
  rw [erasable] at hx
  split at hx
  · rw [List.mem_singleton.mp hx]
  · cases hx

theorem code_of_initializerFinding? {source : List Char} {n : Node}
    (hx : initializerFinding? source n = some x) : x.code = 2322 := by
  rw [initializerFinding?] at hx
  obtain ⟨name, -, hx⟩ := Option.bind_eq_some_iff.mp hx
  obtain ⟨type, -, hx⟩ := Option.bind_eq_some_iff.mp hx
  obtain ⟨said, -, hx⟩ := Option.bind_eq_some_iff.mp hx
  obtain ⟨value, -, hx⟩ := Option.bind_eq_some_iff.mp hx
  dsimp only at hx
  split at hx
  · cases hx
  · split at hx
    · cases hx
    · obtain ⟨found, -, hx⟩ := Option.bind_eq_some_iff.mp hx
      split at hx
      · cases hx
      · cases hx
        rfl

theorem code_of_mem_memberFindings {ns : List Node} {needsValue : Bool}
    (hx : x ∈ memberFindings needsValue ns) : x.code = 1061 := by
  induction ns generalizing needsValue with
  | nil => cases hx
  | cons n ns ih =>
    rw [memberFindings] at hx
    split at hx
    · exact ih hx
    · split at hx
      · exact ih hx
      · rcases List.mem_append.mp hx with hx | hx
        · split at hx
          · rw [List.mem_singleton.mp hx]
          · cases hx
        · exact ih hx

/-- The finding is about what a construct says, and not about the names that it declares. -/
def Finding.concernsTree (x : Finding) : Prop := x.code ∈ [1061, 1294, 2322]

theorem concernsTree_of_mem_nodeFindings {o : CompilerOptions} {source : List Char}
    {parent : Option Label} {n : Node} (hx : x ∈ nodeFindings o source parent n) :
    x.concernsTree := by
  have herasable {offset : Nat} (hx : x ∈ erasable o offset) : x.concernsTree := by
    simp [Finding.concernsTree, code_of_mem_erasable hx]
  rw [nodeFindings] at hx
  split at hx
  case h_1 => simp [Finding.concernsTree, code_of_initializerFinding? (Option.mem_toList.mp hx)]
  case h_2 =>
    rcases List.mem_append.mp hx with hx | hx
    · simp [Finding.concernsTree, code_of_mem_memberFindings hx]
    · exact herasable hx
  case h_7 | h_8 => exact herasable hx
  case h_11 => cases hx
  all_goals
    split at hx
    · exact herasable hx
    · cases hx

theorem mem_treesFindings_iff {o : CompilerOptions} {source : List Char} {parent : Option Label}
    {ns : List Node} :
    x ∈ treesFindings o source parent ns ↔ ∃ n ∈ ns, x ∈ treeFindings o source parent n := by
  induction ns with
  | nil => simp [treesFindings]
  | cons n ns ih => simp [treesFindings, ih]

theorem concernsTree_of_mem_treeFindings {o : CompilerOptions} {source : List Char}
    {parent : Option Label} {n : Node} (hx : x ∈ treeFindings o source parent n) :
    x.concernsTree := by
  induction n using Node.induction_below generalizing parent with
  | step n ih =>
    obtain ⟨label, role, start, stop, missing, children⟩ := n
    rw [treeFindings] at hx
    split at hx
    · cases hx
    · rcases List.mem_append.mp hx with hx | hx
      · exact concernsTree_of_mem_nodeFindings hx
      · split at hx
        · cases hx
        · obtain ⟨c, hc, hx⟩ := mem_treesFindings_iff.mp hx
          exact ih c hc hx

/-! ### The whole check -/

/-- What is reported of the module alone, whatever other modules there are. -/
def ownFindings (o : CompilerOptions) (r : ModuleRecord) (a : ModuleAnalysis) : List Finding :=
  a.declarations.filterMap (declarationFinding? a.declarations) ++
    (if o.noUnusedLocals then
      (unusedBindings a).map fun b => ⟨b.range.start, 6133, unusedText b.localName⟩
    else []) ++
    treeFindings o r.text.toList none r.tree

theorem not_concernsModules_of_mem_ownFindings {o : CompilerOptions} {r : ModuleRecord}
    {a : ModuleAnalysis} (hx : x ∈ ownFindings o r a) : ¬x.concernsModules := by
  have hcodes : x.code ∈ [1061, 1294, 2300, 2322, 2393, 2451, 6133] := by
    rcases List.mem_append.mp hx with hx | hx
    · rcases List.mem_append.mp hx with hx | hx
      · obtain ⟨d, -, hx⟩ := List.mem_filterMap.mp hx
        exact List.Sublist.subset (by decide) (code_of_declarationFinding? hx)
      · split at hx
        · obtain ⟨b, -, rfl⟩ := List.mem_map.mp hx
          simp
        · cases hx
    · exact List.Sublist.subset (by decide) (concernsTree_of_mem_treeFindings hx)
  have hapart : ∀ code ∈ [1061, 1294, 2300, 2322, 2393, 2451, 6133],
      code ∉ [1192, 2305, 2306, 2307] := by decide
  exact hapart x.code hcodes

theorem findings_run (r : ModuleRecord) (a : ModuleAnalysis) :
    (findings g r a memo).1 = (a.imports.mapM (importFindings g) memo).1.flatten ++
      ((a.reExports.mapM (reExportFindings g) (a.imports.mapM (importFindings g) memo).2).1.flatten
        ++ ownFindings g.options r a) := by
  simp only [findings, Analyzing.bind_run, Analyzing.pure_run, ownFindings, List.append_assoc]

/-- A missing module is reported for the specifier of an import or export that leads nowhere. -/
theorem findings_missing {r : ModuleRecord} {a : ModuleAnalysis}
    (hx : x ∈ (findings g r a memo).1) (hmissing : x.isMissing) :
    (∃ i ∈ a.imports, ∃ memo', (g.resolve i.specifier memo').1 = .unresolved ∧
      x = noModule i.specifierRange.start i.specifier) ∨
    ∃ e ∈ a.reExports, ∃ memo', (g.resolve e.specifier memo').1 = .unresolved ∧
      x = noModule e.specifierRange.start e.specifier := by
  rw [findings_run] at hx
  rcases List.mem_append.mp hx with hx | hx
  · obtain ⟨found, hfound, hx⟩ := List.mem_flatten.mp hx
    obtain ⟨i, hi, memo', rfl⟩ := Analyzing.mem_mapM hfound
    exact .inl ⟨i, hi, memo', importFindings_missing hx hmissing⟩
  · rcases List.mem_append.mp hx with hx | hx
    · obtain ⟨found, hfound, hx⟩ := List.mem_flatten.mp hx
      obtain ⟨e, he, memo', rfl⟩ := Analyzing.mem_mapM hfound
      exact .inr ⟨e, he, memo', reExportFindings_missing hx hmissing⟩
    · exact absurd hmissing.concernsModules (not_concernsModules_of_mem_ownFindings hx)

end

end BindingCheck

end CompilingProxy
