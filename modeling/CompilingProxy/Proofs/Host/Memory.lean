import CompilingProxy.Proofs.Host.Flight
import CompilingProxy.Proofs.Host.Output
import Mathlib.Data.List.Induction
import Mathlib.Data.List.Infix

/-!
# What a host remembers

A host remembers analyses by path and version over all that it is asked to do. Of the versions of a
registered path each is that of one record, since a record is replaced by one of a later version
alone. The versions of libraries that are handed in are whatever they are said to be, so what is
remembered is right as long as those do not clash.
-/

namespace CompilingProxy

/-! ### Versions -/

/-- Every record of the one registry is in the other, unless there is one of a later version. -/
def Registry.Evolves (g g' : Registry) : Prop :=
  ∀ p r, g.get? p = some r → ∃ r', g'.get? p = some r' ∧ (r' = r ∨ r.version < r'.version)

namespace Registry.Evolves

variable {g g' g'' : Registry}

theorem refl (g : Registry) : g.Evolves g := fun _ r hr => ⟨r, hr, .inl rfl⟩

theorem trans (h : g.Evolves g') (h' : g'.Evolves g'') : g.Evolves g'' := by
  intro p r hr
  obtain ⟨r', hr', hversion⟩ := h p r hr
  obtain ⟨r'', hr'', hversion'⟩ := h' p r' hr'
  refine ⟨r'', hr'', ?_⟩
  rcases hversion with rfl | hlater
  · exact hversion'
  · rcases hversion' with rfl | hlater'
    · exact .inr hlater
    · exact .inr (Nat.lt_trans hlater hlater')

theorem register (g : Registry) (r : ModuleRecord) : g.Evolves (g.register r).2 := by
  rw [Registry.register]
  split
  · exact .refl g
  · exact fun p q hq => ⟨q, get?_append hq, .inl rfl⟩

theorem replace {r r' : ModuleRecord} (h : g.replace r = .ok (r', g')) : g.Evolves g' := by
  rw [Registry.replace] at h
  split at h
  case h_1 => cases h
  case h_2 known hknown =>
    cases h
    intro p q hq
    have hfind : ∀ x : ModuleRecord, (if x.path == r.path then
        { r with version := known.version + 1 } else x).path = x.path := by
      intro x
      split
      case isTrue heq => exact (beq_iff_eq.mp heq).symm
      case isFalse => rfl
    rw [get?, List.find?_map]
    simp only [Function.comp_def, hfind]
    rw [show g.records.find? (·.path == p) = some q from hq]
    refine ⟨_, rfl, ?_⟩
    dsimp only
    split
    case isTrue heq =>
      rw [path_of_get? hq] at heq
      rw [beq_iff_eq.mp heq, hknown] at hq
      cases hq
      exact .inr (Nat.lt_succ_self _)
    case isFalse => exact .inl rfl

end Registry.Evolves

/-! ### Origins of what is remembered -/

/-- Every analysis that is remembered is one of a record of the kind, under its path and version. -/
def AnalysisMemo.IsOf (known : ModuleRecord → Prop) (m : AnalysisMemo) : Prop :=
  ∀ e ∈ m.entries, ∃ r, known r ∧ e = (r.path, r.version, r.analysis)

theorem AnalysisMemo.IsOf.mono {known known' : ModuleRecord → Prop} {m : AnalysisMemo}
    (h : m.IsOf known) (hknown : ∀ r, known r → known' r) : m.IsOf known' := by
  intro e he
  obtain ⟨r, hr, heq⟩ := h e he
  exact ⟨r, hknown r hr, heq⟩

theorem AnalysisMemo.IsOf.of_find? {known : ModuleRecord → Prop} {m : AnalysisMemo}
    (h : m.IsOf known) {p : ModulePath} {v : Nat} {a : ModuleAnalysis}
    (hfound : m.find? p v = some a) :
    ∃ r, known r ∧ r.path = p ∧ r.version = v ∧ r.analysis = a := by
  obtain ⟨e, he, rfl⟩ := Option.map_eq_some_iff.mp hfound
  obtain ⟨r, hr, rfl⟩ := h e (List.mem_of_find?_eq_some he)
  have hkey := List.find?_some he
  rw [Bool.and_eq_true, beq_iff_eq, beq_iff_eq] at hkey
  exact ⟨r, hr, hkey.1, hkey.2, rfl⟩

/-- Asking for the analyses of files of the kind leaves what is remembered to be of the kind. -/
theorem Program.admits_isOf {g : Program} {known : ModuleRecord → Prop}
    (hknown : ∀ path r, g.file? path = some r → known r) :
    g.Admits fun m m' => m = m' ∧ m.IsOf known := by
  rintro path r hr m _ ⟨rfl, hm⟩
  refine ⟨rfl, rfl, ?_⟩
  obtain ⟨-, hsame | ⟨-, hadd⟩⟩ := analysisOf_run r m
  · rwa [hsame]
  · rw [hadd]
    intro e he
    rcases List.mem_cons.mp he with rfl | he
    · exact ⟨r, hknown path r hr, rfl⟩
    · exact hm e (List.mem_filter.mp he).1

namespace Host

variable {h h' : Host}

/-! ### Tasks -/

theorem program_file? (h : Host) (path : ModulePath) :
    h.program.file? path = h.sourceFile? path := by
  rw [Program.file?, program, List.find?_append, sourceFile?, Registry.get?, extraLibrary?]
  cases h.registry.records.find? (·.path == path) <;> rfl

/-- What a host may be asked between which it remembers analyses: to carry out an operation, to
check a file, or to compile one or all. -/
inductive Task where
  | operation (net : Network) (op : Operation)
  | diagnostics (path : ModulePath)
  | output (path : ModulePath)
  | outputs

/-- The host after a task, whatever has come of it. -/
def undertake (h : Host) : Task → Host
  | .operation net op => h.perform net op
  | .diagnostics path => (h.diagnostics path).2
  | .output path => (h.output path).2
  | .outputs => h.outputs.2

def undertakeAll (h : Host) (history : List Task) : Host := history.foldl undertake h

section

variable {h : Host} {keeps : AnalysisMemo → Prop}

/-- What asking for analyses keeps, checking keeps, and it changes nothing else. -/
theorem diagnostics_keeps (hadmits : h.program.Admits fun m m' => m = m' ∧ keeps m)
    (hmemo : keeps h.memo) (path : ModulePath) :
    ∃ memo, (h.diagnostics path).2 = { h with memo } ∧ keeps memo := by
  rw [diagnostics]
  cases hfile : h.sourceFile? path with
  | none => exact ⟨h.memo, rfl, hmemo⟩
  | some r =>
    rw [← program_file?] at hfile
    exact ⟨_, rfl, (hadmits.diagnosticGroups hfile ⟨rfl, hmemo⟩).2.2⟩

theorem output_keeps (hadmits : h.program.Admits fun m m' => m = m' ∧ keeps m)
    (hmemo : keeps h.memo) (path : ModulePath) :
    ∃ memo, (h.output path).2 = { h with memo } ∧ keeps memo := by
  rw [output]
  cases hfile : h.registry.get? path with
  | none => exact ⟨h.memo, rfl, hmemo⟩
  | some r =>
    have hknown : h.program.file? r.path = some r := by
      rw [program_file?, sourceFile?, Registry.path_of_get? hfile, hfile]
    obtain ⟨-, n, n', hstate, -, rfl, hkept⟩ := outputOf_respects hadmits hknown ⟨rfl, hmemo⟩
    exact ⟨n, hstate, hkept⟩

theorem outputs_keeps (hadmits : h.program.Admits fun m m' => m = m' ∧ keeps m)
    (hmemo : keeps h.memo) (hpaths : h.registry.list.Nodup) :
    ∃ memo, h.outputs.2 = { h with memo } ∧ keeps memo := by
  have hknown : ∀ r ∈ h.registry.records, h.program.file? r.path = some r := by
    intro r hr
    rw [program_file?, sourceFile?, Registry.get?_of_mem hpaths hr]
  obtain ⟨-, n, n', hstate, -, rfl, hkept⟩ := outputsOf_respects hadmits hknown ⟨rfl, hmemo⟩
  refine ⟨n, ?_, hkept⟩
  rw [outputs]
  cases hall : h.outputsOf h.registry.records with
  | mk outcome h₁ =>
    cases outcome <;> exact (congrArg Prod.snd hall).symm.trans hstate

end

/-! ### Histories -/

/-- Operations remember nothing, and registered records stay or give way to later versions. -/
theorem perform_evolves (net : Network) (h : Host) (op : Operation) :
    (h.perform net op).memo = h.memo ∧ h.registry.Evolves (h.perform net op).registry := by
  have hkept : Kept net fun h' => h'.memo = h.memo ∧ h.registry.Evolves h'.registry := by
    refine ⟨fun hh hl => ⟨hl.memo.trans hh.1, hl.registry ▸ hh.2⟩, fun {h' i} hh hi => ?_⟩
    obtain ⟨hl, outcome, hlaunches, -, heq⟩ := ingest_eq_settle net h' i
    have hmemo : hl.memo = h.memo := hlaunches.memo.trans hh.1
    have hregistry : h.registry.Evolves hl.registry := hlaunches.registry ▸ hh.2
    rw [heq]
    cases outcome with
    | error e => exact ⟨hmemo, hregistry⟩
    | ok r => exact ⟨hmemo, hregistry.trans (.register _ r)⟩
  refine hkept.perform (fun hh hreplace => ?_) (fun _ hh => hh) ⟨rfl, .refl _⟩ op
  exact ⟨hh.1, hh.2.trans (.replace hreplace)⟩

/-- Whatever a host is asked, each path stays accounted for, what it remembers is of records that it
serves or has served, and registered records stay or give way to later versions. -/
theorem undertake_spec {known : ModuleRecord → Prop} (ha : h.Accounted)
    (hknown : ∀ path r, h.sourceFile? path = some r → known r) (hmemo : h.memo.IsOf known)
    (t : Task) : (h.undertake t).Accounted ∧ (h.undertake t).memo.IsOf known ∧
      h.registry.Evolves (h.undertake t).registry := by
  have hadmits : h.program.Admits fun m m' => m = m' ∧ m.IsOf known :=
    Program.admits_isOf fun path r hr => hknown path r (by rwa [← program_file?])
  have hconsulted : (∃ memo, h.undertake t = { h with memo } ∧ memo.IsOf known) →
      (h.undertake t).Accounted ∧ (h.undertake t).memo.IsOf known ∧
        h.registry.Evolves (h.undertake t).registry := by
    rintro ⟨memo, hstate, hkept⟩
    rw [hstate]
    exact ⟨⟨⟨ha.once, ha.begun, ha.pending⟩, ha.asked⟩, hkept, .refl _⟩
  cases t with
  | operation net op =>
    have hremembers : h.Remembers [] := ⟨ha, List.nil_suffix⟩
    obtain ⟨hsame, hevolves⟩ := perform_evolves net h op
    refine ⟨(hremembers.perform net op).1, ?_, hevolves⟩
    rw [undertake, hsame]
    exact hmemo
  | diagnostics path => exact hconsulted (diagnostics_keeps hadmits hmemo path)
  | output path => exact hconsulted (output_keeps hadmits hmemo path)
  | outputs =>
    exact hconsulted (outputs_keeps hadmits hmemo
      (List.nodup_append'.mp (List.nodup_append'.mp ha.once).1).1)

/-- The record is the one of its path at some time. -/
def Serves (settings : HostSettings) (history : List Task) (r : ModuleRecord) : Prop :=
  ∃ earlier, earlier <+: history ∧
    (undertakeAll { settings } earlier).sourceFile? r.path = some r

/-- The record is a library that is handed in, and is the one of its path at some time. -/
def Lends (settings : HostSettings) (history : List Task) (r : ModuleRecord) : Prop :=
  ∃ earlier, earlier <+: history ∧
    (undertakeAll { settings } earlier).registry.get? r.path = none ∧
    (undertakeAll { settings } earlier).extraLibrary? r.path = some r

variable {settings : HostSettings} {history : List Task}

theorem undertakeAll_concat (h : Host) (history : List Task) (t : Task) :
    h.undertakeAll (history ++ [t]) = (h.undertakeAll history).undertake t := by
  rw [undertakeAll, List.foldl_append]
  rfl

theorem path_of_sourceFile? {path : ModulePath} {r : ModuleRecord}
    (hr : h.sourceFile? path = some r) : r.path = path := by
  rw [← program_file?] at hr
  exact Program.path_of_file? hr

/-- What is remembered at any time are analyses of records as they were served before. -/
theorem undertakeAll_spec (settings : HostSettings) (history : List Task) :
    (undertakeAll { settings } history).Accounted ∧
      (undertakeAll { settings } history).memo.IsOf (Serves settings history) := by
  induction history using List.reverseRecOn with
  | nil =>
    refine ⟨accounted_empty settings, fun e he => ?_⟩
    cases he
  | append_singleton history t ih =>
    have hserves : ∀ path r, (undertakeAll { settings } history).sourceFile? path = some r →
        Serves settings (history ++ [t]) r := by
      intro path r hr
      refine ⟨history, List.prefix_append _ _, ?_⟩
      rwa [path_of_sourceFile? hr]
    have hmemo := ih.2.mono fun r ⟨earlier, hearlier, hr⟩ =>
      (⟨earlier, hearlier.trans (List.prefix_append _ _), hr⟩ :
        Serves settings (history ++ [t]) r)
    obtain ⟨ha, hm, -⟩ := undertake_spec ih.1 hserves hmemo t
    rw [undertakeAll_concat]
    exact ⟨ha, hm⟩

/-- Over a history registered records stay or give way to later versions. -/
theorem undertakeAll_evolves {earlier : List Task} (hearlier : earlier <+: history) :
    (undertakeAll { settings } earlier).registry.Evolves
      (undertakeAll { settings } history).registry := by
  obtain ⟨later, rfl⟩ := hearlier
  induction later using List.reverseRecOn with
  | nil =>
    rw [List.append_nil]
    exact .refl _
  | append_singleton later t ih =>
    obtain ⟨ha, -⟩ := undertakeAll_spec settings (earlier ++ later)
    have hall : (undertakeAll { settings } (earlier ++ later)).memo.IsOf fun _ => True :=
      (undertakeAll_spec settings (earlier ++ later)).2.mono fun _ _ => trivial
    obtain ⟨-, -, hevolves⟩ := undertake_spec ha (fun _ _ _ => trivial) hall t
    rw [← List.append_assoc, undertakeAll_concat]
    exact ih.trans hevolves

/-- What is remembered for the path and the version of a known file is what the file says, unless a
library that was handed in says something else under them. -/
theorem find?_memo_of_history {r : ModuleRecord} {a : ModuleAnalysis}
    (hversions : ∀ r s, Lends settings history r → Serves settings history s → r.path = s.path →
      r.version = s.version → r.analysis = s.analysis)
    (hr : (undertakeAll { settings } history).sourceFile? r.path = some r)
    (hfound : (undertakeAll { settings } history).memo.find? r.path r.version = some a) :
    a = r.analysis := by
  obtain ⟨s, ⟨earlier, hearlier, hs⟩, hpath, hversion, rfl⟩ :=
    (undertakeAll_spec settings history).2.of_find? hfound
  rw [sourceFile?] at hs
  cases hregistered : (undertakeAll { settings } earlier).registry.get? s.path with
  | none =>
    rw [hregistered] at hs
    exact hversions s r ⟨earlier, hearlier, hregistered, hs⟩ ⟨history, List.prefix_rfl, hr⟩ hpath
      hversion
  | some s' =>
    rw [hregistered] at hs
    cases hs
    obtain ⟨r', hr', hlater⟩ := undertakeAll_evolves hearlier _ _ hregistered
    rw [sourceFile?, ← hpath, hr'] at hr
    cases hr
    rcases hlater with rfl | hlater
    · rfl
    · exact absurd hversion (Nat.ne_of_lt hlater)

/-- After every history the analysis of a known file is what the file says, as long as no library
that is handed in is served under the path and the version of a record that says something else. -/
theorem analysis_of_history (settings : HostSettings) (history : List Task)
    (hversions : ∀ r s, Lends settings history r → Serves settings history s → r.path = s.path →
      r.version = s.version → r.analysis = s.analysis) (path : ModulePath) :
    let h := undertakeAll { settings } history
    (h.program.analysis? path h.memo).1 = (h.sourceFile? path).map (·.analysis) := by
  intro h
  rw [Program.analysis?, program_file?]
  cases hfile : h.sourceFile? path with
  | none => rfl
  | some r =>
    have hr : h.sourceFile? r.path = some r := by rwa [path_of_sourceFile? hfile]
    dsimp only
    rw [Analyzing.bind_run, (Program.analysisOf_run r h.memo).1, Analyzing.pure_run,
      AnalysisMemo.seen]
    refine congrArg some ?_
    cases hfound : h.memo.find? r.path r.version with
    | none => rfl
    | some a => exact find?_memo_of_history hversions hr hfound

/-! ### A library in a module's place -/

def lendingSettings : HostSettings :=
  { origin := .ofName "", libBase := .ofName "", read := .ofLines }

def lendingNetwork : Network := .ofFiles [("/a.ts", "// nothing\n")]

/-- A library of that version is handed in for a module, and is taken back before the module is
asked for. -/
def lending (version : Nat) : List Task :=
  [.operation lendingNetwork (.setExtraLibraries [⟨"/a.ts", "import './x';\n", version⟩]),
    .diagnostics ⟨"/a.ts"⟩,
    .operation lendingNetwork (.setExtraLibraries []),
    .operation lendingNetwork (.addRootUrl (.ofName "a.ts") none),
    .diagnostics ⟨"/a.ts"⟩]

/-- `analysis_of_history` where the library's version is not the module's. -/
theorem analysis_of_lending :
    let h := undertakeAll { settings := lendingSettings } (lending 2)
    (h.program.analysis? ⟨"/a.ts"⟩ h.memo).1 = (h.sourceFile? ⟨"/a.ts"⟩).map (·.analysis) ∧
      (h.sourceFile? ⟨"/a.ts"⟩).isSome := by
  refine ⟨analysis_of_history lendingSettings (lending 2) ?_ ⟨"/a.ts"⟩, by decide +kernel⟩
  let library : ModuleAnalysis :=
    (ModuleRecord.ofText ⟨"/a.ts"⟩ (.ofName "a.ts") .ts "import './x';\n"
      ⟨.ofName "a.ts", 200, none, none⟩ .ofLines).analysis
  -- At all times a file of version two says what the library says, which has that version.
  have hall : (lending 2).inits.all fun earlier =>
      let h := undertakeAll { settings := lendingSettings } earlier
      h.extraLibraries.all (·.version == 2) &&
        h.program.files.all fun r => r.version != 2 || r.analysis == library := by
    decide +kernel
  have hfiles : ∀ earlier r, earlier <+: lending 2 →
      (undertakeAll { settings := lendingSettings } earlier).sourceFile? r.path = some r →
      r.version = 2 → r.analysis = library := by
    intro earlier r hearlier hr hversion
    have hat := List.all_eq_true.mp hall earlier ((List.mem_inits _ _).mpr hearlier)
    rw [Bool.and_eq_true] at hat
    rw [← program_file?] at hr
    have hfile := List.all_eq_true.mp hat.2 r (List.mem_of_find?_eq_some hr)
    simpa [hversion] using hfile
  rintro r s ⟨earlier, hearlier, hnone, hr⟩ ⟨later, hlater, hs⟩ - hversion
  have hat := List.all_eq_true.mp hall earlier ((List.mem_inits _ _).mpr hearlier)
  rw [Bool.and_eq_true] at hat
  have htwo : r.version = 2 :=
    beq_iff_eq.mp (List.all_eq_true.mp hat.1 r (List.mem_of_find?_eq_some hr))
  rw [hfiles earlier r hearlier (by rw [sourceFile?, hnone]; exact hr) htwo,
    hfiles later s hlater hs (hversion ▸ htwo)]

/-- A module of the library's version is taken to say what the library said. -/
theorem stale_analysis_of_lending :
    let h := undertakeAll { settings := lendingSettings } (lending 1)
    (h.program.analysis? ⟨"/a.ts"⟩ h.memo).1 ≠ (h.sourceFile? ⟨"/a.ts"⟩).map (·.analysis) := by
  decide +kernel

end Host

end CompilingProxy
