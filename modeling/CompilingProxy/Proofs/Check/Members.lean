import CompilingProxy.Proofs.Check.Missing
import CompilingProxy.Proofs.Program.Stars
import CompilingProxy.Proofs.Sketch

/-!
# Names that are not exported

A name that is taken from another module is reported as missing there exactly if the module it is
taken from is known in full, with all that it exports again, and the name is nowhere in it.
-/

namespace CompilingProxy

open Analyzing
open Relation (ReflTransGen)

/-- A name that is taken from another module, and where that is reported. -/
structure TakenName where
  offset : Nat
  specifier : String
  name : String

/-- The names that an import takes one by one. -/
def ImportDecl.takenNames (i : ImportDecl) : List TakenName :=
  i.bindings.filterMap fun b =>
    match b.imported with
    | .named name => some ⟨b.range.start, i.specifier, name⟩
    | .default | .wholeModule => none

def ReExport.takenNames (e : ReExport) : List TakenName :=
  e.names.filterMap fun (name, _) =>
    if name == "default" then none else some ⟨e.specifierRange.start, e.specifier, name⟩

def ModuleAnalysis.takenNames (a : ModuleAnalysis) : List TakenName :=
  a.imports.flatMap (·.takenNames) ++ a.reExports.flatMap (·.takenNames)

/-- The name is taken from a known module all of whose exports are known, and is none of them. -/
def Program.Lacks (g : Program) (view : ModuleRecord → ModuleAnalysis) (t : TakenName) : Prop :=
  ∃ p r, g.LeadsTo t.specifier p ∧ g.file? p = some r ∧ (view r).isModule ∧
    ∀ q, ReflTransGen (g.StarLeads view) p q → ¬g.OpenAt view q ∧ ¬g.ExportsAt view q t.name

open Classical in
/-- Those of the names that are lacked. -/
noncomputable def Program.lacking (g : Program) (view : ModuleRecord → ModuleAnalysis)
    (ts : List TakenName) : List TakenName :=
  ts.filter (g.Lacks view ·)

theorem Program.lacking_flatMap {α : Type} (g : Program) (view : ModuleRecord → ModuleAnalysis)
    (taken : α → List TakenName) (xs : List α) :
    g.lacking view (xs.flatMap taken) = xs.flatMap fun x => g.lacking view (taken x) :=
  List.filter_flatMap

namespace BindingCheck

/-- The finding says that a name is not exported. -/
def Finding.isNoMember (x : Finding) : Bool := x.code == 2305

def noMemberFor (t : TakenName) : Finding := noMember t.offset t.specifier t.name

/-- The names among those that are asked for one by one. -/
def namedOf (specifier : String) (names : List (Nat × ImportedName)) : List TakenName :=
  names.filterMap fun (offset, name) =>
    match name with
    | .named name => some ⟨offset, specifier, name⟩
    | .default | .wholeModule => none

section

variable {g : Program} {view : ModuleRecord → ModuleAnalysis} {memo : AnalysisMemo}
  {offset : Nat} {specifier : String} {names : List (Nat × ImportedName)}

theorem namesFindings_noMember (exported : ExportSet) :
    (namesFindings specifier exported names).filter (·.isNoMember) =
      ((namedOf specifier names).filter fun t => !exported.names.contains t.name).map
        noMemberFor := by
  induction names with
  | nil => rfl
  | cons n names ih =>
    obtain ⟨offset, name⟩ := n
    unfold namesFindings namedOf at ih ⊢
    rw [List.filterMap_cons, List.filterMap_cons]
    cases name with
    | named name =>
      dsimp only
      by_cases hname : exported.names.contains name
      · rw [if_pos hname, List.filter_cons_of_neg (by simpa using hname)]
        exact ih
      · rw [if_neg hname, List.filter_cons_of_pos rfl, ih,
          List.filter_cons_of_pos (by simpa using hname), List.map_cons]
        rfl
    | default =>
      dsimp only
      by_cases hdefault : exported.hasDefault
      · rw [if_pos hdefault]
        exact ih
      · rw [if_neg hdefault, List.filter_cons_of_neg (by simp [Finding.isNoMember, noDefault])]
        exact ih
    | wholeModule => exact ih

theorem isModule_run {p : ModulePath} {r : ModuleRecord} (hr : g.file? p = some r)
    (hseen : g.Seen view memo memo) : (g.isModule p memo).1 = (view r).isModule := by
  rw [Program.isModule, bind_run, pure_run, Program.analysis?_run hseen, hr]
  rfl

/-- What a name lacks is read off what the module is found to export. -/
theorem lacks_iff {p : ModulePath} {r : ModuleRecord} (hleads : g.LeadsTo specifier p)
    (hr : g.file? p = some r) (hseen : g.Seen view memo memo) {t : TakenName}
    (ht : t.specifier = specifier) :
    g.Lacks view t ↔ (view r).isModule ∧ ¬(g.exports p memo).1.isOpen ∧
      t.name ∉ (g.exports p memo).1.names := by
  obtain ⟨hnames, hopen, -⟩ := Program.exports_spec hr hseen
  subst ht
  rw [hnames, hopen]
  constructor
  · rintro ⟨p', r', hleads', hr', hmodule, hall⟩
    cases hleads.unique hleads'
    cases hr.symm.trans hr'
    refine ⟨hmodule, ?_, ?_⟩
    · rintro ⟨q, hreach, hat⟩
      exact (hall q hreach).1 hat
    · rintro ⟨q, hreach, hat⟩
      exact (hall q hreach).2 hat
  · rintro ⟨hmodule, hclosed, hnowhere⟩
    refine ⟨p, r, hleads, hr, hmodule, fun q hreach => ⟨?_, ?_⟩⟩
    · intro hat
      exact hclosed ⟨q, hreach, hat⟩
    · intro hat
      exact hnowhere ⟨q, hreach, hat⟩

theorem specifier_of_mem_namedOf {t : TakenName} (ht : t ∈ namedOf specifier names) :
    t.specifier = specifier := by
  obtain ⟨⟨offset, name⟩, -, hname⟩ := List.mem_filterMap.mp ht
  cases name with
  | named name =>
    cases hname
    rfl
  | default | wholeModule => cases hname

theorem specifierFindings_noMember (hseen : g.Seen view memo memo) :
    (specifierFindings g offset specifier names memo).1.filter (·.isNoMember) =
      (g.lacking view (namedOf specifier names)).map noMemberFor := by
  have hnone (h : ∀ t ∈ namedOf specifier names, ¬g.Lacks view t) :
      g.lacking view (namedOf specifier names) = [] := by
    unfold Program.lacking
    rw [List.filter_eq_nil_iff]
    intro t ht
    simpa using h t ht
  have hunled (h : ∀ p, (g.resolve specifier memo).1 ≠ .file p) :
      ∀ t ∈ namedOf specifier names, ¬g.Lacks view t := by
    rintro t ht ⟨p, -, hleads, -⟩
    rw [specifier_of_mem_namedOf ht] at hleads
    exact h p (Program.resolve_eq_file_iff.mpr hleads)
  rw [specifierFindings, bind_run]
  have hseen₁ := ((Program.admits_seen g view).resolve specifier hseen).2
  cases hresolve : (g.resolve specifier memo).1 with
  | ambient =>
    rw [hnone (hunled (by simp [hresolve]))]
    rfl
  | unresolved =>
    rw [hnone (hunled (by simp [hresolve]))]
    rfl
  | file target =>
    have hleads := Program.resolve_eq_file_iff.mp hresolve
    obtain ⟨r, hr⟩ := Program.exists_file_of_hasFile hleads.2.2
    dsimp only
    rw [bind_run, isModule_run hr hseen₁]
    have hseen₂ : g.Seen view (g.isModule target (g.resolve specifier memo).2).2
        (g.isModule target (g.resolve specifier memo).2).2 :=
      (((Program.admits_seen g view).analysis? target).bind (fun _ => .pure _) hseen₁).2
    have hlacks := fun t (ht : t ∈ namedOf specifier names) =>
      lacks_iff hleads hr hseen₂ (specifier_of_mem_namedOf ht)
    cases hmodule : (view r).isModule with
    | false =>
      rw [hnone fun t ht => by simp [hlacks t ht, hmodule]]
      rfl
    | true =>
      rw [if_neg (by simp), bind_run, pure_run]
      dsimp only
      split
      case isTrue hopen =>
        rw [hnone fun t ht => by simp [hlacks t ht, hopen]]
        rfl
      case isFalse hclosed =>
        rw [namesFindings_noMember]
        congr 1
        refine List.filter_congr fun t ht => ?_
        simp [hlacks t ht, hmodule, hclosed]

theorem namedOf_import (i : ImportDecl) :
    namedOf i.specifier (i.bindings.map fun b => (b.range.start, b.imported)) = i.takenNames := by
  rw [namedOf, List.filterMap_map]
  rfl

theorem namedOf_reExport (e : ReExport) :
    namedOf e.specifier (e.names.map fun (name, _) =>
      (e.specifierRange.start, if name == "default" then .default else .named name)) =
        e.takenNames := by
  rw [namedOf, List.filterMap_map, ReExport.takenNames]
  congr 1
  funext ⟨name, exported⟩
  dsimp only [Function.comp_apply]
  by_cases hname : name == "default"
  · rw [if_pos hname, if_pos hname]
  · rw [if_neg hname, if_neg hname]

theorem importFindings_noMember (hseen : g.Seen view memo memo) (i : ImportDecl) :
    (importFindings g i memo).1.filter (·.isNoMember) =
      (g.lacking view i.takenNames).map noMemberFor := by
  rw [importFindings]
  split
  case isTrue hempty =>
    rw [ImportDecl.takenNames, List.isEmpty_iff.mp hempty]
    rfl
  case isFalse => rw [specifierFindings_noMember hseen, namedOf_import]

theorem reExportFindings_noMember (hseen : g.Seen view memo memo) (e : ReExport) :
    (reExportFindings g e memo).1.filter (·.isNoMember) =
      (g.lacking view e.takenNames).map noMemberFor := by
  rw [reExportFindings, specifierFindings_noMember hseen, namedOf_reExport]

theorem ownFindings_noMember (o : CompilerOptions) (r : ModuleRecord) (a : ModuleAnalysis) :
    (ownFindings o r a).filter (·.isNoMember) = [] := by
  rw [List.filter_eq_nil_iff]
  intro x hx hcode
  apply not_concernsModules_of_mem_ownFindings hx
  rw [Finding.concernsModules, beq_iff_eq.mp hcode]
  decide

theorem flatten_noMember {α : Type} {found : α → Analyzing (List Finding)}
    {taken : α → List TakenName} {xs : List α} {memo' : AnalysisMemo}
    (hrespects : ∀ x ∈ xs, Respects (g.Seen view) (found x)) (hseen : g.Seen view memo memo')
    (hfound : ∀ x, (found x memo).1.filter (·.isNoMember) =
      (g.lacking view (taken x)).map noMemberFor) :
    (xs.mapM found memo').1.flatten.filter (·.isNoMember) =
      (g.lacking view (xs.flatMap taken)).map noMemberFor := by
  rw [Program.mapM_seen hrespects hseen, Program.lacking_flatMap, ← List.flatMap_def,
    List.filter_flatMap, List.map_flatMap]
  congr 1
  funext x
  exact hfound x

/-- What is reported as not exported is what is lacked, each name as often as it is taken. -/
theorem findings_noMember (hseen : g.Seen view memo memo) (r : ModuleRecord)
    (a : ModuleAnalysis) :
    (findings g r a memo).1.filter (·.isNoMember) =
      (g.lacking view a.takenNames).map noMemberFor := by
  have himports : ∀ i ∈ a.imports, Respects (g.Seen view) (importFindings g i) :=
    fun i _ => (Program.admits_seen g view).importFindings i
  have hreExports : ∀ e ∈ a.reExports, Respects (g.Seen view) (reExportFindings g e) :=
    fun e _ => (Program.admits_seen g view).specifierFindings _ _ _
  have hseen' : g.Seen view memo (a.imports.mapM (importFindings g) memo).2 := by
    intro path s hs
    exact ⟨(hseen path s hs).1, (Respects.mapM himports hseen).2 path s hs |>.2⟩
  rw [findings_run, List.filter_append, List.filter_append, ownFindings_noMember,
    List.append_nil, flatten_noMember himports hseen (importFindings_noMember hseen),
    flatten_noMember hreExports hseen' (reExportFindings_noMember hseen), ← List.map_append]
  congr 1
  exact (List.filter_append _ _).symm

end

end BindingCheck

namespace Program

/-- What is exported is what `export *` leads to, whatever ways there are and whatever was analysed
before, and the names reported as not exported are the names that are taken and not in that. -/
theorem exports_are_closure (g : Program) (memo : AnalysisMemo) :
    (∀ specifier q, (g.resolve specifier memo).1 = .file q ↔ g.LeadsTo specifier q) ∧
    (∀ p r, g.file? p = some r →
      (∀ name, name ∈ (g.exports p memo).1.names ↔
        ∃ q, ReflTransGen (g.StarLeads memo.seen) p q ∧ g.ExportsAt memo.seen q name) ∧
      ((g.exports p memo).1.isOpen ↔
        ∃ q, ReflTransGen (g.StarLeads memo.seen) p q ∧ g.OpenAt memo.seen q) ∧
      (g.exports p memo).1.hasDefault = (memo.seen r).hasDefaultExport) ∧
    ∀ m a, m.isLibrary = false → (m.kind.isTypeScript ∨ g.options.checkJs) →
      ((g.semanticDiagnostics m a memo).1.filter (·.code == 2305)).Perm
        ((g.lacking memo.seen a.takenNames).map fun t =>
          .inModule .semantic .error 2305 m t.offset
            (BindingCheck.noMember t.offset t.specifier t.name).text) := by
  refine ⟨fun _ _ => resolve_eq_file_iff, fun p r hr => exports_spec hr (seen_self g memo),
    fun m a hlibrary hkind => ?_⟩
  have hchecked : ¬(m.isLibrary || (!m.kind.isTypeScript && !g.options.checkJs)) := by
    rcases hkind with hkind | hkind <;> simp [hlibrary, hkind]
  rw [semanticDiagnostics, if_neg hchecked, bind_run, pure_run, List.filter_map]
  have hsorted := List.mergeSort_perm (BindingCheck.findings g m a memo).1
    fun x y => x.offset ≤ y.offset
  have hfiltered := hsorted.filter (·.isNoMember)
  rw [BindingCheck.findings_noMember (seen_self g memo)] at hfiltered
  have hmapped :=
    hfiltered.map fun x => Diagnostic.inModule .semantic .error x.code m x.offset x.text
  rw [List.map_map] at hmapped
  exact hmapped

end Program

/-! ### Two modules that export each other -/

section

open Node

/-- `export * from '…';` with a path of five bytes. -/
def starLine (start : Nat) : Node :=
  branch .exportStatement
    [word start "export", word (start + 7) "*", word (start + 9) "from",
      playing .source (literal (start + 14) 5), word (start + 21) ";"]

def mutualStars : Program where
  options := {}
  files :=
    [.ofTree "a.ts" "export * from '/b.ts';\n" (script 23 [starLine 0]),
      .ofTree "b.ts" "export * from '/a.ts';\nexport enum X \x7b\x7d\n" <|
        script 40
          [starLine 0,
            branch .exportStatement
              [word 23 "export",
                playing .declaration <| branch .enumDeclaration
                  [word 30 "enum", playing .name (leaf .identifier 35 36),
                    playing .body (branch .enumBody [word 37 "\x7b", word 38 "\x7d"])]]]]

def takesXAndY : ModuleRecord :=
  .ofTree "m.ts" "import \x7b X, Y \x7d from '/a.ts';\n" <|
    script 30
      [branch .importStatement
        [word 0 "import",
          branch .importClause
            [branch .namedImports
              [word 7 "\x7b", branch .importSpecifier [playing .name (leaf .identifier 9 10)],
                word 10 ",", branch .importSpecifier [playing .name (leaf .identifier 12 13)],
                word 14 "\x7d"]],
          word 16 "from", playing .source (literal 21 5), word 28 ";"]]

theorem takesXAndY_reported :
    ((mutualStars.semanticDiagnostics takesXAndY takesXAndY.analysis {}).1.filter
      (·.code == 2305)).length = 1 := by
  decide +kernel

/-- `exports_are_closure` for modules that lead back to each other. -/
theorem mutualStars_exports_are_closure :
    let memo : AnalysisMemo := {}
    (∃ q, ReflTransGen (mutualStars.StarLeads memo.seen) ⟨"/a.ts"⟩ q ∧
      mutualStars.ExportsAt memo.seen q "X") ∧
    (mutualStars.lacking memo.seen takesXAndY.analysis.takenNames).length = 1 ∧
    takesXAndY.analysis.takenNames.map (·.name) = ["X", "Y"] := by
  intro memo
  obtain ⟨-, hexports, hmembers⟩ := mutualStars.exports_are_closure memo
  obtain ⟨hnames, -⟩ := hexports ⟨"/a.ts"⟩ _ rfl
  have hperm := hmembers takesXAndY takesXAndY.analysis rfl (.inl rfl)
  have hlength := hperm.length_eq
  rw [takesXAndY_reported, List.length_map] at hlength
  exact ⟨(hnames "X").mp (by decide +kernel), hlength.symm, by decide +kernel⟩

end

end CompilingProxy
