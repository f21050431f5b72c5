import CompilingProxy.Proofs.Check.Syntax
import CompilingProxy.Proofs.Host.Flight
import CompilingProxy.Proofs.Host.Output

/-!
# What a pass reports

A pass says of each registered module what the module alone would be said to be, whatever was asked
for before, and it leaves nothing out without an error.
-/

namespace CompilingProxy

namespace CompiledPass

variable {pass : CompiledPass}

theorem hasErrors_iff :
    pass.hasErrors ↔ ∃ d ∈ pass.report.diagnostics, d.isError := by
  simp only [hasErrors, CompiledModule.hasErrors, report, Report.diagnostics, Bool.or_eq_true,
    List.any_eq_true, List.flatMap_cons, List.mem_append, List.mem_flatMap]
  constructor
  · rintro (⟨d, hd, he⟩ | ⟨m, hm, g, hg, d, hd, he⟩)
    · exact ⟨d, .inl hd, he⟩
    · exact ⟨d, .inr ⟨g, ⟨m, hm, hg⟩, hd⟩, he⟩
  · rintro ⟨d, hd | ⟨g, ⟨m, hm, hg⟩, hd⟩, he⟩
    · exact .inl ⟨d, hd, he⟩
    · exact .inr ⟨m, hm, g, hg, d, hd, he⟩

theorem paths_withoutOutput :
    pass.withoutOutput.modules.map (·.path) = pass.modules.map (·.path) := by
  simp [withoutOutput]

theorem groups_withoutOutput :
    pass.withoutOutput.modules.flatMap (·.groups) = pass.modules.flatMap (·.groups) := by
  simp [withoutOutput, List.flatMap_map]

theorem mem_withoutOutput {m : CompiledModule} (h : m ∈ pass.withoutOutput.modules) :
    ∃ m₀ ∈ pass.modules, m = { m₀ with compiled := none } := by
  obtain ⟨m₀, hm₀, rfl⟩ := List.mem_map.mp h
  exact ⟨m₀, hm₀, rfl⟩

theorem report_withoutOutput : pass.withoutOutput.report = pass.report := by
  rw [report, report, groups_withoutOutput]
  rfl

end CompiledPass

namespace Program

variable {g : Program} {r : ModuleRecord} {memo : AnalysisMemo}

/-- The groups are those of the text, of the meaning and of suggestions, in that order. -/
theorem diagnosticGroups_run (g : Program) (r : ModuleRecord) (memo : AnalysisMemo) :
    ∃ semantic suggestions, (g.diagnosticGroups r memo).1 =
      [⟨.syntactic, r.syntaxDiagnostics⟩, ⟨.semantic, semantic⟩, ⟨.suggestion, suggestions⟩] := by
  rw [diagnosticGroups, Analyzing.bind_run, Analyzing.bind_run, Analyzing.pure_run]
  exact ⟨_, _, rfl⟩

/-- A file compiles to nothing for a reason. -/
theorem reason_of_output_none (h : (g.output r memo).1 = .ok none) :
    r.isLibrary ∨ r.path.isDeclarationFile ∨ r.tree.hasError := by
  rw [output] at h
  split at h
  case isTrue hskipped =>
    rw [Bool.or_eq_true, Bool.or_eq_true, or_assoc] at hskipped
    exact hskipped
  case isFalse =>
    rw [Analyzing.bind_run] at h
    cases hemit : r.emit (analysisOf r memo).1 g.options <;> rw [hemit] at h <;> cases h

end Program

namespace Host

variable {h h' : Host} {r : ModuleRecord} {memo : AnalysisMemo}

/-! ### One module -/

/-- What an output is made of. -/
theorem outputOf_eq_ok {m : CompiledModule}
    (hr : h.program.file? r.path = some r) (heq : (h.outputOf r).1 = .ok m) :
    ∃ out, (h.program.output r h.memo).1 = .ok out ∧
      m = ⟨r.path, r.url, out.map (·.text), (h.program.diagnosticGroups r h.memo).1,
        r.response⟩ := by
  have hadmits := h.program.admits_seen h.memo.seen
  have hseen := (hadmits.output hr fun _ _ _ => ⟨rfl, rfl⟩).2
  have hsame := (hadmits.diagnosticGroups hr fun p s hs => ⟨(hseen p s hs).1, rfl⟩).1
  rw [outputOf_run h r h.memo] at heq
  rw [← hsame]
  generalize h.program.output r h.memo = x at heq
  obtain ⟨outcome, n⟩ := x
  cases outcome with
  | error e => cases heq
  | ok out => exact ⟨out, rfl, (Except.ok.inj heq).symm⟩

/-! ### All modules -/

/-- Outputs one after another are what each of them is alone. -/
theorem outputsOf_alone {rs : List ModuleRecord} {ms : List CompiledModule}
    (hrs : ∀ r ∈ rs, h.program.file? r.path = some r)
    (hseen : h.program.Seen h.memo.seen h.memo memo)
    (heq : ({ h with memo } : Host).outputsOf rs = (.ok ms, h')) :
    ms.map (·.path) = rs.map (·.path) ∧ (∀ m ∈ ms, ∃ r ∈ rs, (h.outputOf r).1 = .ok m) ∧
      h'.settings = h.settings := by
  induction rs generalizing memo ms with
  | nil =>
    cases heq
    exact ⟨rfl, by simp, rfl⟩
  | cons r rs ih =>
    have hr := hrs r List.mem_cons_self
    obtain ⟨halone, n, memo', -, hstate, hafter⟩ :=
      outputOf_respects (h.program.admits_seen h.memo.seen) hr hseen
    have hseen' : h.program.Seen h.memo.seen h.memo memo' :=
      fun p s hs => ⟨rfl, (hafter p s hs).2⟩
    rw [outputsOf] at heq
    cases hfirst : ({ h with memo } : Host).outputOf r with
    | mk outcome h₁ =>
      rw [hfirst] at heq halone hstate
      dsimp only at halone hstate
      subst hstate
      cases outcome with
      | error e => cases heq
      | ok m =>
        dsimp only at heq
        cases hrest : ({ h with memo := memo' } : Host).outputsOf rs with
        | mk outcome h₂ =>
          rw [hrest] at heq
          cases outcome with
          | error e => cases heq
          | ok ms' =>
            cases heq
            obtain ⟨hpaths, hall, hsettings⟩ :=
              ih (fun q hq => hrs q (List.mem_cons_of_mem _ hq)) hseen' hrest
            obtain ⟨out, -, hm⟩ := outputOf_eq_ok hr halone
            refine ⟨?_, fun m' hm' => ?_, hsettings⟩
            · rw [List.map_cons, List.map_cons, hpaths, hm]
            · rcases List.mem_cons.mp hm' with rfl | hm'
              · exact ⟨r, List.mem_cons_self, halone⟩
              · obtain ⟨q, hq, hof⟩ := hall m' hm'
                exact ⟨q, List.mem_cons_of_mem _ hq, hof⟩

/-- The record of a path counts before a library of that path that was handed in. -/
theorem file?_of_registered {path : ModulePath} (hr : h.registry.get? path = some r) :
    h.program.file? path = some r := by
  rw [Program.file?, program, List.find?_append]
  exact Option.or_eq_some_iff.mpr (.inl hr)

/-- What is said of a module is said of it alone. -/
theorem diagnostics_of_outputOf {m : CompiledModule} (hr : h.registry.get? m.path = some r)
    (hm : (h.outputOf r).1 = .ok m) :
    m.groups.map (·.kind) = [.syntactic, .semantic, .suggestion] ∧
      (h.diagnostics m.path).1 = .ok m.groups := by
  have hpath := Registry.path_of_get? hr
  have hfile : h.sourceFile? m.path = some r := by rw [sourceFile?, hr]
  rw [← hpath] at hr
  obtain ⟨out, -, heq⟩ := outputOf_eq_ok (file?_of_registered hr) hm
  obtain ⟨semantic, suggestions, hgroups⟩ :=
    Program.diagnosticGroups_run h.program r h.memo
  have hsaid : m.groups = (h.program.diagnosticGroups r h.memo).1 := by rw [heq]
  refine ⟨by rw [hsaid, hgroups]; rfl, ?_⟩
  rw [diagnostics, hfile, hsaid]
  rfl

/-- A module that is neither a library nor a declaration compiles to something, or there is an error
of its text. -/
theorem hasErrors_of_compiled_none {m : CompiledModule} (hr : h.registry.get? m.path = some r)
    (hm : (h.outputOf r).1 = .ok m) (hlibrary : m.path.isLibrary = false)
    (hdeclaration : m.path.isDeclarationFile = false) (hnone : m.compiled = none) :
    m.hasErrors := by
  have hpath := Registry.path_of_get? hr
  rw [← hpath] at hr
  obtain ⟨out, hout, heq⟩ := outputOf_eq_ok (file?_of_registered hr) hm
  have hskipped : out = none := by
    rw [heq] at hnone
    exact Option.map_eq_none_iff.mp hnone
  rw [hskipped] at hout
  have herror : r.tree.hasError := by
    rcases Program.reason_of_output_none hout with hreason | hreason | hreason
    · rw [ModuleRecord.isLibrary, hpath, hlibrary] at hreason
      cases hreason
    · rw [hpath, hdeclaration] at hreason
      cases hreason
    · exact hreason
  obtain ⟨d, hd, hfatal⟩ := ModuleRecord.exists_syntaxDiagnostic_of_hasError herror
  obtain ⟨semantic, suggestions, hgroups⟩ :=
    Program.diagnosticGroups_run h.program r h.memo
  rw [CompiledModule.hasErrors, heq, hgroups, List.any_cons, Bool.or_eq_true]
  exact .inl (List.any_eq_true.mpr ⟨d, hd, hfatal⟩)

/-- A pass is made of what each of the modules is alone, and has no compiled text at all if the
options have it so for an error. -/
theorem outputs_alone {pass : CompiledPass} (hpaths : h.registry.list.Nodup)
    (heq : h.outputs = (.ok pass, h')) :
    ∃ whole : CompiledPass, whole.options = ⟨.compiler, h.settings.options.check⟩ ∧
      whole.modules.map (·.path) = h.registry.list ∧
      (∀ m ∈ whole.modules, ∃ r, h.registry.get? m.path = some r ∧ (h.outputOf r).1 = .ok m) ∧
      pass = if whole.hasErrors && h.settings.options.noEmitOnError then whole.withoutOutput
        else whole := by
  have hregistered : ∀ r ∈ h.registry.records, h.registry.get? r.path = some r :=
    fun r => Registry.get?_of_mem hpaths
  have hfiles : ∀ r ∈ h.registry.records, h.program.file? r.path = some r :=
    fun r hr => file?_of_registered (hregistered r hr)
  rw [outputs] at heq
  cases hall : h.outputsOf h.registry.records with
  | mk outcome h₁ =>
    rw [hall] at heq
    cases outcome with
    | error e => cases heq
    | ok ms =>
      obtain ⟨hlist, halone, hsettings⟩ := outputsOf_alone hfiles (fun _ _ _ => ⟨rfl, rfl⟩) hall
      dsimp only at heq
      rw [hsettings] at heq
      refine ⟨⟨ms, ⟨.compiler, h.settings.options.check⟩⟩, rfl, hlist, fun m hm => ?_,
        (Except.ok.inj (congrArg Prod.fst heq)).symm⟩
      obtain ⟨r, hr, hof⟩ := halone m hm
      obtain ⟨out, -, rfl⟩ := outputOf_eq_ok (hfiles r hr) hof
      exact ⟨r, hregistered r hr, hof⟩

/-- A pass has a module for each registered record, whether the compiled text is left out or not. -/
theorem record_of_outputs {pass : CompiledPass} (hpaths : h.registry.list.Nodup)
    (heq : h.outputs = (.ok pass, h')) :
    pass.modules.map (·.path) = h.registry.list ∧
      ∀ m ∈ pass.modules, ∃ r ∈ h.registry.records,
        m.path = r.path ∧ m.url = r.url ∧ m.response = r.response := by
  obtain ⟨whole, -, hlist, halone, hpass⟩ := outputs_alone hpaths heq
  have hwhole : ∀ m ∈ whole.modules, ∃ r ∈ h.registry.records,
      m.path = r.path ∧ m.url = r.url ∧ m.response = r.response := by
    intro m hm
    obtain ⟨r, hr, hof⟩ := halone m hm
    rw [← Registry.path_of_get? hr] at hr
    obtain ⟨out, -, rfl⟩ := outputOf_eq_ok (file?_of_registered hr) hof
    exact ⟨r, Registry.mem_of_get? hr, rfl, rfl, rfl⟩
  split at hpass
  case isTrue =>
    rw [hpass]
    refine ⟨CompiledPass.paths_withoutOutput.trans hlist, fun m hm => ?_⟩
    obtain ⟨m₀, hm₀, rfl⟩ := CompiledPass.mem_withoutOutput hm
    exact hwhole m₀ hm₀
  case isFalse =>
    rw [hpass]
    exact ⟨hlist, hwhole⟩

/-- Whatever a host was asked to do, each path is registered once. -/
theorem performAll_list_nodup (settings : HostSettings) (history : List (Network × Operation)) :
    (performAll { settings } history).registry.list.Nodup := by
  have hr : (performAll { settings } history).Remembers [] :=
    Remembers.performAll ⟨accounted_empty settings, List.nil_suffix⟩ history
  exact (List.nodup_append'.mp (List.nodup_append'.mp hr.1.once).1).1

/-- A pass has the registered modules in the order of registration. It reports on the options, and
then on each module what is said of the module alone: on its text, on its meaning, and suggestions.
Where the options have errors stop everything, an error leaves all modules without compiled text;
otherwise each is what the module alone compiles to. Of what is neither a library nor a declaration
the compiled text is never missing without an error. -/
theorem nothing_missing_without_error {pass : CompiledPass} (hpaths : h.registry.list.Nodup)
    (heq : h.outputs = (.ok pass, h')) :
    pass.modules.map (·.path) = h.registry.list ∧
      pass.report.groups = ⟨.compiler, h.settings.options.check⟩ ::
        pass.modules.flatMap (·.groups) ∧
      (∀ m ∈ pass.modules, m.groups.map (·.kind) = [.syntactic, .semantic, .suggestion] ∧
        (h.diagnostics m.path).1 = .ok m.groups) ∧
      (h.settings.options.noEmitOnError ∧ (∃ d ∈ pass.report.diagnostics, d.isError) →
        ∀ m ∈ pass.modules, m.compiled = none) ∧
      (¬(h.settings.options.noEmitOnError ∧ ∃ d ∈ pass.report.diagnostics, d.isError) →
        ∀ m ∈ pass.modules, (h.output m.path).1 = .ok m) ∧
      ∀ m ∈ pass.modules, m.path.isLibrary = false → m.path.isDeclarationFile = false →
        m.compiled = none → ∃ d ∈ pass.report.diagnostics, d.isError := by
  obtain ⟨whole, hoptions, hlist, halone, hpass⟩ := outputs_alone hpaths heq
  have hgroups : whole.report.groups =
      ⟨.compiler, h.settings.options.check⟩ :: whole.modules.flatMap (·.groups) := by
    rw [CompiledPass.report, hoptions]
  have hsaid : ∀ m ∈ whole.modules, m.groups.map (·.kind) = [.syntactic, .semantic, .suggestion] ∧
      (h.diagnostics m.path).1 = .ok m.groups := by
    intro m hm
    obtain ⟨r, hr, hof⟩ := halone m hm
    exact diagnostics_of_outputOf hr hof
  have hwithheld_iff : (whole.hasErrors && h.settings.options.noEmitOnError) = true ↔
      h.settings.options.noEmitOnError ∧ ∃ d ∈ whole.report.diagnostics, d.isError := by
    rw [Bool.and_comm, Bool.and_eq_true, CompiledPass.hasErrors_iff]
  split at hpass
  case isTrue hwithheld =>
    subst hpass
    rw [hwithheld_iff] at hwithheld
    rw [CompiledPass.report_withoutOutput, CompiledPass.groups_withoutOutput]
    refine ⟨CompiledPass.paths_withoutOutput.trans hlist, hgroups, fun m hm => ?_,
      fun _ m hm => ?_, fun hreleased => absurd hwithheld hreleased, fun _ _ _ _ _ => hwithheld.2⟩
    · obtain ⟨m₀, hm₀, rfl⟩ := CompiledPass.mem_withoutOutput hm
      exact hsaid m₀ hm₀
    · obtain ⟨m₀, -, rfl⟩ := CompiledPass.mem_withoutOutput hm
      rfl
  case isFalse hreleased =>
    subst hpass
    rw [hwithheld_iff] at hreleased
    refine ⟨hlist, hgroups, hsaid, fun hwithheld => absurd hwithheld hreleased,
      fun _ m hm => ?_, fun m hm hlibrary hdeclaration hnone => ?_⟩
    · obtain ⟨r, hr, hof⟩ := halone m hm
      rw [output, hr]
      exact hof
    · obtain ⟨r, hr, hof⟩ := halone m hm
      have herrors := hasErrors_of_compiled_none hr hof hlibrary hdeclaration hnone
      rw [← CompiledPass.hasErrors_iff, CompiledPass.hasErrors, Bool.or_eq_true]
      exact .inr (List.any_eq_true.mpr ⟨m, hm, herrors⟩)

/-! ### A script that cannot be read -/

/-- Takes every text for one that cannot be read. -/
def unreadable : TreeReader := fun _ text => .leaf .error 0 text.utf8ByteSize

/-- A host that has one script, which cannot be read. -/
def baffledHost : Host :=
  performAll { settings := { origin := .ofName "", libBase := .ofName "", read := unreadable } }
    [(.ofFiles [("/a.ts", "?\n")], .addRootUrl (.ofName "a.ts") none)]

/-- `nothing_missing_without_error` where a script compiles to nothing. -/
theorem baffledHost_reports_error : ∃ pass h', baffledHost.outputs = (.ok pass, h') ∧
    pass.modules.map (fun m => (m.path, m.compiled)) = [(⟨"/a.ts"⟩, none)] ∧
    ∃ d ∈ pass.report.diagnostics, d.isError := by
  have hrun : (match baffledHost.outputs.1 with
      | .ok pass => pass.modules.map (fun m => (m.path, m.compiled)) == [(⟨"/a.ts"⟩, none)]
      | .error _ => false) = true := by decide +kernel
  cases hout : baffledHost.outputs with
  | mk outcome h' =>
    rw [hout] at hrun
    cases outcome with
    | error e => cases hrun
    | ok pass =>
      have hmodules := beq_iff_eq.mp hrun
      obtain ⟨-, -, -, -, -, hmissing⟩ :=
        nothing_missing_without_error (performAll_list_nodup _ _) hout
      obtain ⟨m, hm, hfound⟩ : ∃ m ∈ pass.modules, (m.path, m.compiled) = (⟨"/a.ts"⟩, none) := by
        refine List.mem_map.mp ?_
        rw [hmodules]
        exact List.mem_cons_self
      obtain ⟨hpath, hnone⟩ := Prod.mk.inj hfound
      refine ⟨pass, h', rfl, hmodules, hmissing m hm ?_ ?_ hnone⟩
      · rw [hpath]; decide +kernel
      · rw [hpath]; decide +kernel

end Host

end CompilingProxy
