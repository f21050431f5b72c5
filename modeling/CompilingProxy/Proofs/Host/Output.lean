import CompilingProxy.Host.Output
import CompilingProxy.Proofs.Program.Memo

/-!
# What a pass compiles

A pass compiles each registered record to what the record and the options say, whatever else is
registered.
-/

namespace CompilingProxy

/-- The module is what the record compiles to. -/
structure CompiledModule.IsOf (o : CompilerOptions) (r : ModuleRecord) (m : CompiledModule) :
    Prop where
  path : m.path = r.path
  url : m.url = r.url
  response : m.response = r.response
  compiled : ∃ out, Program.compiled? o r = .ok out ∧ m.compiled = out.map (·.text)

namespace Host

/-! ### Outputs of related hosts -/

section

variable {h : Host} {r : ModuleRecord} {related : AnalysisMemo → AnalysisMemo → Prop}
  {m m' : AnalysisMemo}

/-- An output takes an analysis or two, and changes what is remembered. -/
theorem outputOf_run (h : Host) (r : ModuleRecord) (memo : AnalysisMemo) :
    ({ h with memo } : Host).outputOf r =
      match h.program.output r memo with
      | (.error e, n) => (.error (.module e), { h with memo := n })
      | (.ok out, n) =>
        (.ok ⟨r.path, r.url, out.map (·.text), (h.program.diagnosticGroups r n).1, r.response⟩,
          { h with memo := (h.program.diagnosticGroups r n).2 }) := by
  have hran : ({ h with memo } : Host).analysing (h.program.output r) =
      ((h.program.output r memo).1, { h with memo := (h.program.output r memo).2 }) := rfl
  have hprogram : ({ h with memo } : Host).program = h.program := rfl
  rw [outputOf, hprogram, hran]
  obtain ⟨outcome, n⟩ := h.program.output r memo
  cases outcome <;> rfl

/-- An output is the same from related memos, and leaves nothing changed but them. -/
theorem outputOf_respects (hadmits : h.program.Admits related)
    (hr : h.program.file? r.path = some r) (hmemos : related m m') :
    (({ h with memo := m } : Host).outputOf r).1 = (({ h with memo := m' } : Host).outputOf r).1 ∧
      ∃ n n', (({ h with memo := m } : Host).outputOf r).2 = { h with memo := n } ∧
        (({ h with memo := m' } : Host).outputOf r).2 = { h with memo := n' } ∧ related n n' := by
  obtain ⟨hout, hafter⟩ := hadmits.output hr hmemos
  obtain ⟨hgroups, hlast⟩ := hadmits.diagnosticGroups hr hafter
  rw [outputOf_run, outputOf_run]
  generalize h.program.output r m = x at hout hafter hgroups hlast
  generalize h.program.output r m' = x' at hout hafter hgroups hlast
  obtain ⟨outcome, n⟩ := x
  obtain ⟨outcome', n'⟩ := x'
  dsimp only at hout hafter hgroups hlast
  subst hout
  cases outcome with
  | error e => exact ⟨rfl, n, n', rfl, rfl, hafter⟩
  | ok out =>
    dsimp only
    rw [hgroups]
    exact ⟨rfl, _, _, rfl, rfl, hlast⟩

theorem outputsOf_respects {rs : List ModuleRecord} (hadmits : h.program.Admits related)
    (hrs : ∀ r ∈ rs, h.program.file? r.path = some r) (hmemos : related m m') :
    (({ h with memo := m } : Host).outputsOf rs).1 =
        (({ h with memo := m' } : Host).outputsOf rs).1 ∧
      ∃ n n', (({ h with memo := m } : Host).outputsOf rs).2 = { h with memo := n } ∧
        (({ h with memo := m' } : Host).outputsOf rs).2 = { h with memo := n' } ∧
        related n n' := by
  induction rs generalizing m m' with
  | nil => exact ⟨rfl, m, m', rfl, rfl, hmemos⟩
  | cons r rs ih =>
    obtain ⟨hfirst, n, n', hstate, hstate', hbetween⟩ :=
      outputOf_respects hadmits (hrs r List.mem_cons_self) hmemos
    rw [outputsOf, outputsOf]
    generalize ({ h with memo := m } : Host).outputOf r = out at hfirst hstate
    generalize ({ h with memo := m' } : Host).outputOf r = out' at hfirst hstate'
    obtain ⟨outcome, h₁⟩ := out
    obtain ⟨outcome', h₁'⟩ := out'
    dsimp only at hfirst hstate hstate'
    subst hfirst hstate hstate'
    cases outcome with
    | error e => exact ⟨rfl, n, n', rfl, rfl, hbetween⟩
    | ok c =>
      obtain ⟨hrest, k, k', hlast, hlast', hend⟩ :=
        ih (fun q hq => hrs q (List.mem_cons_of_mem _ hq)) hbetween
      dsimp only
      generalize ({ h with memo := n } : Host).outputsOf rs = out at hrest hlast
      generalize ({ h with memo := n' } : Host).outputsOf rs = out' at hrest hlast'
      obtain ⟨outcome, h₂⟩ := out
      obtain ⟨outcome', h₂'⟩ := out'
      dsimp only at hrest hlast hlast'
      subst hrest hlast hlast'
      cases outcome <;> exact ⟨rfl, k, k', rfl, rfl, hend⟩

end

/-! ### What outputs leave alone -/

theorem diagnostics_state (h : Host) (path : ModulePath) :
    ∃ memo, (h.diagnostics path).2 = { h with memo } := by
  rw [diagnostics]
  split
  case h_1 => exact ⟨h.memo, rfl⟩
  case h_2 => exact ⟨_, rfl⟩

/-- An output changes nothing but what is remembered. -/
theorem outputOf_state (h : Host) (r : ModuleRecord) :
    ∃ memo, (h.outputOf r).2 = { h with memo } := by
  have hrun := h.outputOf_run r h.memo
  rw [hrun]
  split <;> exact ⟨_, rfl⟩

theorem output_state (h : Host) (path : ModulePath) :
    ∃ memo, (h.output path).2 = { h with memo } := by
  rw [output]
  split
  case h_1 => exact ⟨h.memo, rfl⟩
  case h_2 r _ => exact h.outputOf_state r

theorem outputsOf_state (h : Host) (rs : List ModuleRecord) :
    ∃ memo, (h.outputsOf rs).2 = { h with memo } := by
  induction rs generalizing h with
  | nil => exact ⟨h.memo, rfl⟩
  | cons r rs ih =>
    obtain ⟨memo, hfirst⟩ := h.outputOf_state r
    obtain ⟨memo', hrest⟩ := ih { h with memo }
    rw [outputsOf]
    split
    case h_1 heq =>
      rw [heq] at hfirst
      exact ⟨memo, hfirst⟩
    case h_2 heq =>
      rw [heq] at hfirst
      dsimp only at hfirst
      rw [hfirst]
      split
      case h_1 heq' =>
        rw [heq'] at hrest
        exact ⟨memo', hrest⟩
      case h_2 heq' =>
        rw [heq'] at hrest
        exact ⟨memo', hrest⟩

theorem outputs_state (h : Host) : ∃ memo, h.outputs.2 = { h with memo } := by
  obtain ⟨memo, hstate⟩ := h.outputsOf_state h.registry.records
  rw [outputs]
  split
  case h_1 heq =>
    rw [heq] at hstate
    exact ⟨memo, hstate⟩
  case h_2 heq =>
    rw [heq] at hstate
    exact ⟨memo, hstate⟩

/-! ### Outputs of coherent hosts -/

/-- What is remembered of the host's files is what they say, and no two of them have one path. -/
structure Coherent (h : Host) : Prop where
  nodup : (h.program.files.map (·.path)).Nodup
  memo : h.memo.IsCoherent h.program.files

variable {h h' : Host} {r : ModuleRecord}

/-- A host is coherent as long as no library was handed in and nothing was asked of its files. -/
theorem coherent_of_fresh (hpaths : h.registry.list.Nodup) (hextras : h.extraLibraries = [])
    (hmemo : h.memo = {}) : h.Coherent := by
  have hfiles : h.program.files = h.registry.records := by
    rw [program, hextras, List.append_nil]
  constructor
  · rw [hfiles]
    exact hpaths
  · rw [hmemo]
    exact AnalysisMemo.isCoherent_empty

theorem outputOf_spec {m : CompiledModule} (hc : h.Coherent) (hr : r ∈ h.program.files)
    (heq : h.outputOf r = (.ok m, h')) :
    m.IsOf h.settings.options r ∧ ∃ memo, h' = { h with memo } ∧ h'.Coherent := by
  obtain ⟨houtput, hmemo⟩ := Program.output_spec hc.nodup hr hc.memo
  have hran : h.analysing (h.program.output r) =
      (Program.compiled? h.settings.options r, { h with memo := (h.program.output r h.memo).2 }) :=
    Prod.ext houtput rfl
  rw [outputOf, hran] at heq
  cases hcompiled : Program.compiled? h.settings.options r with
  | error e =>
    rw [hcompiled] at heq
    cases heq
  | ok out =>
    rw [hcompiled] at heq
    obtain ⟨hm, rfl⟩ := Prod.mk.inj heq
    cases hm
    refine ⟨⟨rfl, rfl, rfl, out, hcompiled, rfl⟩, _, rfl, hc.nodup, ?_⟩
    have hfile := Program.file?_of_mem hc.nodup hr
    exact ((Program.admits_coherent hc.nodup).diagnosticGroups hfile ⟨hmemo, hmemo⟩).2.1

theorem outputsOf_spec {rs : List ModuleRecord} {ms : List CompiledModule} (hc : h.Coherent)
    (hrs : rs ⊆ h.program.files) (heq : h.outputsOf rs = (.ok ms, h')) :
    (∀ m ∈ ms, ∃ r ∈ rs, m.IsOf h.settings.options r) ∧ h'.settings = h.settings := by
  induction rs generalizing h ms with
  | nil =>
    cases heq
    exact ⟨by simp, rfl⟩
  | cons r rs ih =>
    rw [outputsOf] at heq
    cases hfirst : h.outputOf r with
    | mk outcome h₁ =>
      rw [hfirst] at heq
      cases outcome with
      | error e => cases heq
      | ok m =>
        obtain ⟨hm, memo, rfl, hc₁⟩ := outputOf_spec hc (hrs List.mem_cons_self) hfirst
        dsimp only at heq
        cases hrest : ({ h with memo } : Host).outputsOf rs with
        | mk outcome h₂ =>
          rw [hrest] at heq
          cases outcome with
          | error e => cases heq
          | ok ms' =>
            cases heq
            obtain ⟨hms, hsettings⟩ := ih (h := { h with memo }) hc₁
              (fun q hq => hrs (List.mem_cons_of_mem _ hq)) hrest
            refine ⟨fun m' hm' => ?_, hsettings⟩
            rcases List.mem_cons.mp hm' with rfl | hm'
            · exact ⟨r, List.mem_cons_self, hm⟩
            · obtain ⟨q, hq, hof⟩ := hms m' hm'
              exact ⟨q, List.mem_cons_of_mem _ hq, hof⟩

/-- Where compiled text is not left out, what a pass has of a module is what a registered record
compiles to. -/
theorem record_of_compiled {pass : CompiledPass} (hc : h.Coherent)
    (heq : h.outputs = (.ok pass, h')) {m : CompiledModule} (hm : m ∈ pass.modules)
    (hkept : m.compiled.isSome ∨ h.settings.options.noEmitOnError = false) :
    ∃ r ∈ h.registry.records, m.IsOf h.settings.options r := by
  rw [outputs] at heq
  cases hall : h.outputsOf h.registry.records with
  | mk outcome h₁ =>
    rw [hall] at heq
    cases outcome with
    | error e => cases heq
    | ok ms =>
      obtain ⟨hms, hsettings⟩ := outputsOf_spec hc (List.subset_append_left _ _) hall
      dsimp only at heq
      rw [hsettings] at heq
      cases heq
      split at hm
      case isTrue hwithheld =>
        obtain ⟨m₀, -, rfl⟩ := List.mem_map.mp hm
        rw [Bool.and_eq_true] at hwithheld
        rcases hkept with hkept | hkept
        · cases hkept
        · rw [hkept] at hwithheld
          cases hwithheld.2
      case isFalse => exact hms m hm

end Host

end CompilingProxy
