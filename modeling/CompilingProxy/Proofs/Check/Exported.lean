import CompilingProxy.Proofs.Analysis.Exported
import CompilingProxy.Proofs.Check.Members

/-!
# Names that are exported

What a module exports under a plain name, or by default, is never reported as missing where it is
taken. What it exports in another way can be.
-/

namespace CompilingProxy

open Analyzing

/-- The specifier leads to a known module without a default export. -/
def Program.LacksDefault (g : Program) (view : ModuleRecord → ModuleAnalysis)
    (specifier : String) : Prop :=
  ∃ p r, g.LeadsTo specifier p ∧ g.file? p = some r ∧ ¬(view r).hasDefaultExport

namespace BindingCheck

/-- The finding says that there is no default export. -/
def Finding.isNoDefault (x : Finding) : Prop := x.code = 1192

section

variable {g : Program} {view : ModuleRecord → ModuleAnalysis} {memo memo' : AnalysisMemo}
  {offset : Nat} {specifier : String} {names : List (Nat × ImportedName)} {x : Finding}

theorem namesFindings_noDefault {exported : ExportSet}
    (hx : x ∈ namesFindings specifier exported names) (hdefault : x.isNoDefault) :
    ¬exported.hasDefault ∧ ∃ offset, x = noDefault offset specifier := by
  obtain ⟨⟨offset, name⟩, -, hname⟩ := List.mem_filterMap.mp hx
  cases name with
  | named =>
    dsimp only at hname
    split at hname
    · cases hname
    · cases hname
      cases hdefault
  | default =>
    dsimp only at hname
    split at hname
    case isTrue => cases hname
    case isFalse hnone => exact ⟨hnone, offset, (Option.some.inj hname).symm⟩
  | wholeModule => cases hname

theorem specifierFindings_noDefault (hseen : g.Seen view memo memo)
    (hx : x ∈ (specifierFindings g offset specifier names memo).1) (hdefault : x.isNoDefault) :
    g.LacksDefault view specifier ∧ ∃ offset, x = noDefault offset specifier := by
  rw [specifierFindings, bind_run] at hx
  have hseen₁ := ((Program.admits_seen g view).resolve specifier hseen).2
  cases hresolve : (g.resolve specifier memo).1 with
  | ambient =>
    rw [hresolve] at hx
    cases hx
  | unresolved =>
    rw [hresolve] at hx
    rw [List.mem_singleton.mp hx] at hdefault
    cases hdefault
  | file target =>
    have hleads := Program.resolve_eq_file_iff.mp hresolve
    obtain ⟨r, hr⟩ := Program.exists_file_of_hasFile hleads.2.2
    have hseen₂ : g.Seen view (g.isModule target (g.resolve specifier memo).2).2
        (g.isModule target (g.resolve specifier memo).2).2 :=
      (((Program.admits_seen g view).analysis? target).bind (fun _ => .pure _) hseen₁).2
    rw [hresolve] at hx
    dsimp only at hx
    rw [bind_run] at hx
    split at hx
    case isTrue =>
      rw [List.mem_singleton.mp hx] at hdefault
      cases hdefault
    case isFalse =>
      rw [bind_run, pure_run] at hx
      dsimp only at hx
      split at hx
      case isTrue => cases hx
      case isFalse =>
        obtain ⟨hnone, hoffset⟩ := namesFindings_noDefault hx hdefault
        rw [(Program.exports_spec hr hseen₂).2.2] at hnone
        exact ⟨⟨target, r, hleads, hr, hnone⟩, hoffset⟩

theorem exists_of_mem_flatten {α : Type} {found : α → Analyzing (List Finding)} {xs : List α}
    (hrespects : ∀ y ∈ xs, Respects (g.Seen view) (found y)) (hseen : g.Seen view memo memo')
    (hx : x ∈ (xs.mapM found memo').1.flatten) : ∃ y ∈ xs, x ∈ (found y memo).1 := by
  rw [Program.mapM_seen hrespects hseen] at hx
  exact List.mem_flatMap.mp hx

/-- A missing default export is reported of a module that has none. -/
theorem findings_noDefault (hseen : g.Seen view memo memo) {r : ModuleRecord}
    {a : ModuleAnalysis} (hx : x ∈ (findings g r a memo).1) (hdefault : x.isNoDefault) :
    ∃ offset specifier, g.LacksDefault view specifier ∧ x = noDefault offset specifier := by
  have himports : ∀ i ∈ a.imports, Respects (g.Seen view) (importFindings g i) :=
    fun i _ => (Program.admits_seen g view).importFindings i
  have hreExports : ∀ e ∈ a.reExports, Respects (g.Seen view) (reExportFindings g e) :=
    fun e _ => (Program.admits_seen g view).specifierFindings _ _ _
  rw [findings_run] at hx
  rcases List.mem_append.mp hx with hx | hx
  · obtain ⟨i, -, hx⟩ := exists_of_mem_flatten himports hseen hx
    rw [importFindings] at hx
    split at hx
    · cases hx
    · obtain ⟨hlacks, offset, hoffset⟩ := specifierFindings_noDefault hseen hx hdefault
      exact ⟨offset, i.specifier, hlacks, hoffset⟩
  · rcases List.mem_append.mp hx with hx | hx
    · have hseen' : g.Seen view memo (a.imports.mapM (importFindings g) memo).2 := by
        intro path s hs
        exact ⟨(hseen path s hs).1, (Respects.mapM himports hseen).2 path s hs |>.2⟩
      obtain ⟨e, -, hx⟩ := exists_of_mem_flatten hreExports hseen' hx
      obtain ⟨hlacks, offset, hoffset⟩ := specifierFindings_noDefault hseen hx hdefault
      exact ⟨offset, e.specifier, hlacks, hoffset⟩
    · refine absurd ?_ (not_concernsModules_of_mem_ownFindings hx)
      rw [Finding.concernsModules, hdefault]
      decide

theorem exists_of_mem_findings_noMember (hseen : g.Seen view memo memo) {r : ModuleRecord}
    {a : ModuleAnalysis} (hx : x ∈ (findings g r a memo).1) (hmember : x.isNoMember) :
    ∃ t ∈ a.takenNames, g.Lacks view t ∧ x = noMemberFor t := by
  have hfiltered := List.mem_filter.mpr ⟨hx, hmember⟩
  rw [findings_noMember hseen] at hfiltered
  obtain ⟨t, ht, rfl⟩ := List.mem_map.mp hfiltered
  obtain ⟨htaken, hlacks⟩ := List.mem_filter.mp ht
  exact ⟨t, htaken, by simpa using hlacks, rfl⟩

end

end BindingCheck

namespace Program

variable {g : Program} {view : ModuleRecord → ModuleAnalysis} {m r : ModuleRecord}
  {a : ModuleAnalysis} {memo : AnalysisMemo} {d : Diagnostic}

theorem exists_finding_of_mem_semanticDiagnostics (hd : d ∈ (g.semanticDiagnostics m a memo).1) :
    ∃ x ∈ (BindingCheck.findings g m a memo).1,
      d = .inModule .semantic .error x.code m x.offset x.text := by
  rw [semanticDiagnostics] at hd
  split at hd
  case isTrue => cases hd
  case isFalse =>
    rw [bind_run, pure_run] at hd
    obtain ⟨x, hx, rfl⟩ := List.mem_map.mp hd
    exact ⟨x, List.mem_mergeSort.mp hx, rfl⟩

/-- A module that lacks a name does not list it. -/
theorem Lacks.not_mem_localExports {t : TakenName} {p : ModulePath} (h : g.Lacks view t)
    (hleads : g.LeadsTo t.specifier p) (hr : g.file? p = some r) :
    t.name ∉ (view r).localExports := by
  obtain ⟨p', r', hleads', hr', -, hall⟩ := h
  cases hleads.unique hleads'
  cases hr.symm.trans hr'
  intro hmem
  exact (hall _ .refl).2 ⟨r, hr, .inl hmem⟩

end Program

/-- A module's own exports are listed, and no check that knows of the module reports them as
missing, but for those that are bound by something else than a plain name. -/
theorem ModuleRecord.own_exports_found (r : ModuleRecord) :
    (∀ x ∈ r.exportedNames, (x.form = .default → r.analysis.hasDefaultExport) ∧
      (x.form = .name → x.name ∈ r.analysis.localExports)) ∧
    ∀ (g : Program) (m : ModuleRecord) (a : ModuleAnalysis) (memo : AnalysisMemo),
      memo.IsCoherent g.files → ∀ d ∈ (g.semanticDiagnostics m a memo).1,
        (d.code = 2305 → ∃ t ∈ a.takenNames,
          d = .inModule .semantic .error 2305 m t.offset
            (BindingCheck.noMember t.offset t.specifier t.name).text ∧
          ∀ p, g.LeadsTo t.specifier p → g.file? p = some r → ⟨.name, t.name⟩ ∉ r.exportedNames) ∧
        (d.code = 1192 → ∃ offset specifier,
          d = .inModule .semantic .error 1192 m offset
            (BindingCheck.noDefault offset specifier).text ∧
          ∀ p, g.LeadsTo specifier p → g.file? p = some r →
            ∀ x ∈ r.exportedNames, x.form ≠ .default) := by
  refine ⟨fun x hx => exports_listed hx, fun g m a memo hcoherent d hd => ?_⟩
  obtain ⟨x, hx, rfl⟩ := Program.exists_finding_of_mem_semanticDiagnostics hd
  have hview : ∀ p, g.file? p = some r → memo.seen r = r.analysis := fun p hr =>
    hcoherent.seen (List.mem_of_find?_eq_some hr)
  constructor
  · intro hcode
    obtain ⟨t, ht, hlacks, rfl⟩ := BindingCheck.exists_of_mem_findings_noMember
      (Program.seen_self g memo) hx (beq_iff_eq.mpr hcode)
    refine ⟨t, ht, rfl, fun p hleads hr hexported => ?_⟩
    apply hlacks.not_mem_localExports hleads hr
    rw [hview p hr]
    exact (exports_listed hexported).2 rfl
  · intro hcode
    obtain ⟨offset, specifier, ⟨p', r', hleads', hr', hnone⟩, rfl⟩ :=
      BindingCheck.findings_noDefault (Program.seen_self g memo) hx hcode
    refine ⟨offset, specifier, rfl, fun p hleads hr y hy hform => ?_⟩
    cases hleads.unique hleads'
    cases hr.symm.trans hr'
    rw [hview _ hr] at hnone
    exact hnone ((exports_listed hy).1 hform)

/-! ### Exports under names, and in other ways -/

section

open Node

/-- `export const a = 1;`, a namespace `R . S`, and a default export. -/
def exportsPlainly : ModuleRecord :=
  .ofTree "t.ts" "export const a = 1;\nexport namespace R . S { }\nexport default a;\n" <|
    script 65
      [branch .exportStatement
        [word 0 "export",
          playing .declaration <| branch .lexicalDeclaration
            [playing .kind (word 7 "const"),
              branch .variableDeclarator
                [playing .name (leaf .identifier 13 14), word 15 "=",
                  playing .value (leaf .number 17 18)],
              word 18 ";"]],
        branch .exportStatement
          [word 20 "export",
            playing .declaration <| branch .internalModule
              [word 27 "namespace",
                playing .name <| branch .nestedIdentifier
                  [playing .object (leaf .identifier 37 38), word 39 ".",
                    playing .property (leaf .propertyIdentifier 41 42)],
                playing .body (branch .statementBlock [word 43 "\x7b", word 45 "\x7d"])]],
        branch .exportStatement
          [word 47 "export", word 54 "default", playing .value (leaf .identifier 62 63),
            word 63 ";"]]

/-- Takes `a`, `R`, `b` and the default from `/t.ts`. -/
def takesPlainly : ModuleRecord :=
  .ofTree "m.ts" "import d, \x7b a, R, b \x7d from '/t.ts';\n" <|
    script 36
      [branch .importStatement
        [word 0 "import",
          branch .importClause
            [leaf .identifier 7 8, word 8 ",",
              branch .namedImports
                [word 10 "\x7b", branch .importSpecifier [playing .name (leaf .identifier 12 13)],
                  word 13 ",", branch .importSpecifier [playing .name (leaf .identifier 15 16)],
                  word 16 ",", branch .importSpecifier [playing .name (leaf .identifier 18 19)],
                  word 20 "\x7d"]],
          word 22 "from", playing .source (literal 27 5), word 34 ";"]]

/-- `own_exports_found` where one of four names is missing. -/
theorem exportsPlainly_found :
    let g : Program := { options := {}, files := [exportsPlainly] }
    let memo : AnalysisMemo := {}
    let found := (g.semanticDiagnostics takesPlainly takesPlainly.analysis memo).1
    exportsPlainly.exportedNames = [⟨.name, "a"⟩, ⟨.name, "R"⟩, ⟨.default, "default"⟩] ∧
    exportsPlainly.analysis.hasDefaultExport ∧ found.map (·.code) = [2305] ∧
    ∀ d ∈ found, ∃ t ∈ takesPlainly.analysis.takenNames, d = .inModule .semantic .error 2305
      takesPlainly t.offset (BindingCheck.noMember t.offset t.specifier t.name).text ∧
      ∀ p, g.LeadsTo t.specifier p → g.file? p = some exportsPlainly →
        ⟨.name, t.name⟩ ∉ exportsPlainly.exportedNames := by
  intro g memo found
  obtain ⟨hlisted, hfound⟩ := exportsPlainly.own_exports_found
  have hnames : exportsPlainly.exportedNames =
      [⟨.name, "a"⟩, ⟨.name, "R"⟩, ⟨.default, "default"⟩] := by decide +kernel
  have hcodes : found.map (·.code) = [2305] := by decide +kernel
  refine ⟨hnames, ?_, hcodes, fun d hd => ?_⟩
  · exact (hlisted ⟨.default, "default"⟩ (by rw [hnames]; simp)).1 rfl
  · have hcode : d.code ∈ found.map (·.code) := List.mem_map_of_mem hd
    rw [hcodes] at hcode
    exact (hfound g takesPlainly _ memo AnalysisMemo.isCoherent_empty d hd).1
      (List.mem_singleton.mp hcode)

/-- `export const { a } = x;`, an import alias, and a namespace with a comment in its name. -/
def exportsOtherwise : ModuleRecord :=
  .ofTree "t.ts"
      "export const \x7b a \x7d = x;\nexport import C = N.D;\nexport namespace P /* c */ . Q { }\n" <|
    script 82
      [branch .exportStatement
        [word 0 "export",
          playing .declaration <| branch .lexicalDeclaration
            [playing .kind (word 7 "const"),
              branch .variableDeclarator
                [playing .name <| branch .objectPattern
                  [word 13 "\x7b", leaf .shorthandPropertyIdentifierPattern 15 16,
                    word 17 "\x7d"],
                  word 19 "=", playing .value (leaf .identifier 21 22)],
              word 22 ";"]],
        branch .exportStatement
          [word 24 "export",
            playing .declaration <| branch .importAlias
              [word 31 "import", leaf .identifier 38 39, word 40 "=",
                branch .nestedIdentifier
                  [playing .object (leaf .identifier 42 43), word 43 ".",
                    playing .property (leaf .propertyIdentifier 44 45)],
                word 45 ";"]],
        branch .exportStatement
          [word 47 "export",
            playing .declaration <| branch .internalModule
              [word 54 "namespace",
                playing .name <| branch .nestedIdentifier
                  [playing .object (leaf .identifier 64 65), leaf .comment 66 73, word 74 ".",
                    playing .property (leaf .propertyIdentifier 76 77)],
                playing .body (branch .statementBlock [word 78 "\x7b", word 80 "\x7d"])]]]

/-- Takes a name of one letter from `/t.ts`. -/
def takesLetter (name : String) : ModuleRecord :=
  .ofTree "m.ts" ("import \x7b " ++ name ++ " \x7d from '/t.ts';\n") <|
    script 27
      [branch .importStatement
        [word 0 "import",
          branch .importClause
            [branch .namedImports
              [word 7 "\x7b", branch .importSpecifier [playing .name (leaf .identifier 9 10)],
                word 11 "\x7d"]],
          word 13 "from", playing .source (literal 18 5), word 25 ";"]]

/-- None of the names is listed that are bound in another way, and each is reported as missing. -/
theorem exportsOtherwise_missed :
    let g : Program := { options := {}, files := [exportsOtherwise] }
    exportsOtherwise.tree.isPlaced exportsOtherwise.text.toList ∧
    exportsOtherwise.exportedNames = [⟨.pattern, "a"⟩, ⟨.alias, "C"⟩, ⟨.dotted, "P"⟩] ∧
    ∀ name ∈ ["a", "C", "P"], name ∉ exportsOtherwise.analysis.localExports ∧
      (takesLetter name).analysis.takenNames.map (·.name) = [name] ∧
      (g.semanticDiagnostics (takesLetter name) (takesLetter name).analysis {}).1.map (·.code) =
        [2305] := by
  decide +kernel

end

end CompilingProxy
