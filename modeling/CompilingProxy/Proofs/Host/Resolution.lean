import CompilingProxy.Proofs.Analysis.Respelling
import CompilingProxy.Proofs.Check.Missing
import CompilingProxy.Proofs.Host.History
import CompilingProxy.Proofs.Sketch
import Mathlib.Logic.Relation

/-!
# Where specifiers lead

When an operation ends well, the specifiers that named a path in the served text of a module that it
reached lead to files: they are canonical, their targets were ingested, and the check for missing
modules finds them. This holds along every way on which no library that was handed in stands in the
place of a registered module.
-/

namespace CompilingProxy

open Relation (ReflTransGen)

/-- The specifier names a module by where it stands. -/
def NamesPath (specifier : String) : Prop :=
  ModulePath.isRelative specifier.toList ∨ ModulePath.isRootAbsolute specifier.toList

/-- The specifier leads to a known file, whatever was analysed before. -/
def Program.Finds (g : Program) (specifier : String) : Prop :=
  ∃ target, g.hasFile target ∧ ∀ memo, (g.resolve specifier memo).1 = .file target

section

variable {g : Program} {path : ModulePath} {known : List ModulePath} {specifier specifier' : String}

/-- A specifier that is made canonical is found if its target is known. -/
theorem finds_of_specifierLeads (hknown : ∀ d ∈ known, g.hasFile d)
    (h : SpecifierLeads path known specifier specifier') (hnames : NamesPath specifier) :
    g.Finds specifier' := by
  obtain ⟨target, htarget⟩ := Option.isSome_iff_exists.mp
    (ModulePath.resolve?_isSome_iff.mpr hnames : (path.resolve? specifier).isSome)
  obtain ⟨hwritten, hmem⟩ := h
  have hsource := ModulePath.isSource_of_resolve? htarget
  have hcanonical : specifier' = target.withDefaultExtension.text := by
    rw [hwritten, ModulePath.respell, String.ofList_toList, htarget]
    exact String.ofList_toList
  have hfile := hknown _ (hmem target htarget)
  refine ⟨target.withDefaultExtension, hfile, fun memo => ?_⟩
  rw [Program.resolve, hcanonical, if_pos hsource.isRootAbsolute, hsource.parse?]
  dsimp only
  rw [if_pos hfile]
  rfl

/-- The specifiers of a module's imports and exports, with the offsets at which they stand. -/
def ModuleAnalysis.specifiers (a : ModuleAnalysis) : List (String × Nat) :=
  a.imports.map (fun i => (i.specifier, i.specifierRange.start)) ++
    a.reExports.map fun e => (e.specifier, e.specifierRange.start)

theorem ModuleAnalysis.specifiers_accord {a a' : ModuleAnalysis} (h : Accords path known a a') :
    List.Forall₂ (fun s s' => SpecifierLeads path known s.1 s'.1) a.specifiers a'.specifiers := by
  obtain ⟨himports, hreExports⟩ := h
  rw [List.forall₂_map_left_iff, List.forall₂_map_right_iff] at himports hreExports
  refine List.rel_append ?_ ?_
  · rw [List.forall₂_map_left_iff, List.forall₂_map_right_iff]
    exact himports
  · rw [List.forall₂_map_left_iff, List.forall₂_map_right_iff]
    exact hreExports

/-- A missing module is reported for a specifier that is not found. -/
theorem missing_of_mem_semanticDiagnostics {r : ModuleRecord} {a : ModuleAnalysis}
    {memo : AnalysisMemo} {d : Diagnostic} (hd : d ∈ (g.semanticDiagnostics r a memo).1)
    (hcode : d.code = 2307) :
    ∃ s ∈ a.specifiers, ¬g.Finds s.1 ∧
      d = .inModule .semantic .error 2307 r s.2 (BindingCheck.noModule s.2 s.1).text := by
  rw [Program.semanticDiagnostics] at hd
  split at hd
  case isTrue => cases hd
  case isFalse =>
    rw [Analyzing.bind_run, Analyzing.pure_run] at hd
    obtain ⟨x, hx, rfl⟩ := List.mem_map.mp hd
    have hlost : ∀ {specifier : String} {memo' : AnalysisMemo},
        (g.resolve specifier memo').1 = .unresolved → ¬g.Finds specifier := by
      rintro specifier memo' hunresolved ⟨target, -, hfound⟩
      cases hunresolved.symm.trans (hfound memo')
    rcases BindingCheck.findings_missing (List.mem_mergeSort.mp hx) hcode with
      ⟨i, hi, memo', hunresolved, rfl⟩ | ⟨e, he, memo', hunresolved, rfl⟩
    · exact ⟨_, List.mem_append_left _ (List.mem_map_of_mem hi), hlost hunresolved, rfl⟩
    · exact ⟨_, List.mem_append_right _ (List.mem_map_of_mem he), hlost hunresolved, rfl⟩

theorem exists_mem_zip {α β : Type} {R : α → β → Prop} {xs : List α} {ys : List β} {y : β}
    (h : List.Forall₂ R xs ys) (hy : y ∈ ys) : ∃ x, (x, y) ∈ xs.zip ys ∧ R x y := by
  induction h with
  | nil => cases hy
  | @cons x y' xs ys hxy _ ih =>
    rw [List.zip_cons_cons]
    rcases List.mem_cons.mp hy with rfl | hy
    · exact ⟨x, List.mem_cons_self, hxy⟩
    · obtain ⟨z, hz, hR⟩ := ih hy
      exact ⟨z, List.mem_cons_of_mem _ hz, hR⟩

end

namespace Host

/-- An operation on the host ends well with a record. -/
inductive Returns (h : Host) (r : ModuleRecord) (h' : Host) : Prop
  | addRoot {net : Network} {path : ModulePath} {url : Url} {response : Option Response}
      (heq : h.addRoot net path url response = (.ok r, h'))
  | addLibrary {net : Network} {name : String} (heq : h.addLibrary net name = (.ok r, h'))
  | update {net : Network} {path : ModulePath} {text : String}
      (heq : h.update net path text = (.ok r, h'))

/-- The second record is the one registered for something that the first one depends on. -/
def Registers (h : Host) (r m : ModuleRecord) : Prop :=
  m.path ∈ r.dependencies ∧ h.registry.get? m.path = some m

/-- The record is the one that its path stands for among all others. -/
def Shown (h : Host) (m : ModuleRecord) : Prop := h.extraLibrary? m.path = none

section

variable {h h' : Host} {r m : ModuleRecord} {read : TreeReader}

theorem closed_of_returns (hread : read.IsFaithful) (hs : h.Sound) (hset : h.Settled read)
    (hret : Returns h r h') : ∃ paths, h'.Closed paths ∧ r.dependencies ⊆ paths := by
  have hq := queued_of_quiet hset.quiet
  have hroot : ∀ {net path url response}, h.addRoot net path url response = (.ok r, h') →
      ∃ paths, h'.Closed paths ∧ r.dependencies ⊆ paths := by
    intro net path url response heq
    obtain ⟨-, -, -, hok⟩ := addRoot_spec hs hq heq
    obtain ⟨-, -, paths, hclosed, -, hsub⟩ := hok r rfl
    exact ⟨paths, hclosed, hsub⟩
  cases hret with
  | addRoot heq => exact hroot heq
  | @addLibrary net name heq =>
    unfold addLibrary at heq
    dsimp only at heq
    split at heq
    · cases heq
    · exact hroot heq
  | update heq =>
    rcases update_cases hread hset hs heq with ⟨-, herror⟩ | ⟨r', h₁, hs₁, hq₁, hr', -, hclose⟩
    · cases herror
    · obtain ⟨-, -, -, hok⟩ := close_spec hs₁ hq₁ hclose
      obtain ⟨rfl, paths, hclosed, -, hsub⟩ := hok r rfl (.inr hr')
      exact ⟨paths, hclosed, hsub⟩

theorem hasFile_of_holds {p : ModulePath} (hr : h.Holds p r) : h.program.hasFile p := by
  rw [Program.hasFile, Program.file?, program, List.find?_append, Option.isSome_or, Bool.or_eq_true]
  rcases hr with hextra | hregistered
  · exact .inr (Option.isSome_iff_exists.mpr ⟨r, hextra⟩)
  · exact .inl (Option.isSome_iff_exists.mpr ⟨r, hregistered⟩)

/-- All that a module that is reached depends on is known, unless a library hides a module on the
way to it. -/
theorem hasFile_of_reached (hread : read.IsFaithful) (hs : h.Sound) (hset : h.Settled read)
    (hret : Returns h r h')
    (hm : ReflTransGen (fun q m => h'.Registers q m ∧ h'.Shown m) r m) :
    ∀ d ∈ m.dependencies, h'.program.hasFile d := by
  obtain ⟨paths, hclosed, hsub⟩ := closed_of_returns hread hs hset hret
  have hwithin : m.dependencies ⊆ paths := by
    induction hm with
    | refl => exact hsub
    | @tail q m _ hstep ih =>
      obtain ⟨⟨hdepends, hregistered⟩, hshown⟩ := hstep
      obtain ⟨q', hextra | hq', hsub'⟩ := hclosed m.path (ih hdepends)
      · rw [hshown] at hextra
        cases hextra
      · cases hregistered.symm.trans hq'
        exact hsub'
  intro d hd
  obtain ⟨q, hq, -⟩ := hclosed d (hwithin hd)
  exact hasFile_of_holds hq

theorem attained_of_returns {settings : HostSettings} (ha : Attained settings h)
    (hret : Returns h r h') : Attained settings h' := by
  cases hret with
  | @addRoot net path url response heq =>
    have hattained := ha.addRoot net path url response
    rwa [heq] at hattained
  | @addLibrary net name heq =>
    have hattained := ha.addLibrary net name
    rwa [heq] at hattained
  | @update net path text heq =>
    have hattained := ha.update net path text
    rwa [heq] at hattained

/-- When an operation ends well, the specifiers that named paths in the served text of a module
that it reached, over modules that no library hides, are found, and no missing module is reported
for them. -/
theorem returned_specifiers_found {settings : HostSettings} (hread : settings.read.IsFaithful)
    (ha : Attained settings h) (hret : Returns h r h')
    (hm : ReflTransGen (fun q m => h'.Registers q m ∧ h'.Shown m) r m)
    (hregistered : h'.registry.get? m.path = some m)
    (hparse : (m.served settings.read).tree.respells m.path m.rawText.toList m.text.toList m.tree) :
    List.Forall₂ (fun l l' => NamesPath (l.unquoted m.rawText.toList) →
        h'.program.Finds (l'.unquoted m.text.toList))
        (m.served settings.read).tree.sources m.tree.sources ∧
      ∀ memo, ∀ d ∈ (h'.program.semanticDiagnostics m m.analysis memo).1, d.code = 2307 →
        ∃ s ∈ (m.served settings.read).analysis.specifiers.zip m.analysis.specifiers,
          ¬NamesPath s.1.1 ∧ d = .inModule .semantic .error 2307 m s.2.2
            (BindingCheck.noModule s.2.2 s.2.1).text := by
  obtain ⟨hs, hset⟩ := settled_of_attained hread ha
  obtain ⟨-, hset'⟩ := settled_of_attained hread (attained_of_returns ha hret)
  have hcanonical := hset'.canonical m (Registry.mem_of_get? hregistered)
  have hknown : ∀ d ∈ (m.served settings.read).discover.paths, h'.program.hasFile d := by
    rw [← hcanonical.dependencies_eq]
    exact hasFile_of_reached hread hs hset hret hm
  have hplain := hread.isWhole m.kind m.rawText
  refine ⟨?_, fun memo d hd hcode => ?_⟩
  · have hleads := leadsTo_discover (m.served settings.read)
    exact (sources_accord hparse hleads).imp fun l l' hl hnames =>
      finds_of_specifierLeads hknown hl hnames
  · obtain ⟨s', hs', hlost, hreported⟩ := missing_of_mem_semanticDiagnostics hd hcode
    have haccord : Accords m.path (m.served settings.read).discover.paths
        (m.served settings.read).analysis m.analysis :=
      ModuleRecord.analysis_accords (r := m.served settings.read) hplain hparse
    obtain ⟨s, hmem, hl⟩ := exists_mem_zip (ModuleAnalysis.specifiers_accord haccord) hs'
    exact ⟨(s, s'), hmem, fun hnames => hlost (finds_of_specifierLeads hknown hl hnames),
      hreported⟩

end

/-! ### A chain of modules, and one that is hidden -/

/-- A module that leads over another one to a third. -/
def chain : Network := .ofFiles
  [("/a.ts", "import './lib/b';\n"), ("/lib/b.ts", "export * from '../c';\nexport * from 'q';\n"),
    ("/c.ts", "// none\n")]

def lineSettings : HostSettings :=
  { origin := .ofName "", libBase := .ofName "", read := TreeReader.ofLines.placed }

def chainRun : Except HostError ModuleRecord × Host :=
  addRoot chain { settings := lineSettings } ⟨"/a.ts"⟩ (.ofName "a.ts")

def chainRoot : ModuleRecord := chainRun.1.toOption.get (by decide +kernel)

theorem chain_addRoot : addRoot chain { settings := lineSettings } ⟨"/a.ts"⟩ (.ofName "a.ts") =
    (.ok chainRoot, chainRun.2) :=
  eq_ok_of_fst_toOption (Option.some_get _).symm

/-- The module in the middle of the chain. -/
def chainMiddle : ModuleRecord := (chainRun.2.registry.get? ⟨"/lib/b.ts"⟩).get (by decide +kernel)

theorem chainMiddle_registered :
    chainRun.2.registry.get? chainMiddle.path = some chainMiddle := by
  have hfound : chainRun.2.registry.get? ⟨"/lib/b.ts"⟩ = some chainMiddle :=
    (Option.some_get _).symm
  rwa [Registry.path_of_get? hfound]

/-- `returned_specifiers_found` for the middle of the chain. -/
theorem chain_specifiers_found :
    chainMiddle.tree.sources.map (·.unquoted chainMiddle.text.toList) = ["/c.ts", "q"] ∧
      List.Forall₂ (fun l l' => NamesPath (l.unquoted chainMiddle.rawText.toList) →
        chainRun.2.program.Finds (l'.unquoted chainMiddle.text.toList))
        (chainMiddle.served lineSettings.read).tree.sources chainMiddle.tree.sources ∧
      ∀ memo, ∀ d ∈ (chainRun.2.program.semanticDiagnostics chainMiddle chainMiddle.analysis
          memo).1, d.code = 2307 →
        ∃ s ∈ (chainMiddle.served lineSettings.read).analysis.specifiers.zip
            chainMiddle.analysis.specifiers,
          ¬NamesPath s.1.1 ∧ d = .inModule .semantic .error 2307 chainMiddle s.2.2
            (BindingCheck.noModule s.2.2 s.2.1).text := by
  obtain ⟨hspecifiers, hdepends, hshown, hrespells⟩ :
      chainMiddle.tree.sources.map (·.unquoted chainMiddle.text.toList) = ["/c.ts", "q"] ∧
        chainMiddle.path ∈ chainRoot.dependencies ∧
        chainRun.2.extraLibrary? chainMiddle.path = none ∧
        (chainMiddle.served lineSettings.read).tree.respells chainMiddle.path
          chainMiddle.rawText.toList chainMiddle.text.toList chainMiddle.tree := by
    decide +kernel
  exact ⟨hspecifiers, returned_specifiers_found (TreeReader.placed_isFaithful _) .empty
    (.addRoot chain_addRoot) (.single ⟨⟨hdepends, chainMiddle_registered⟩, hshown⟩)
    chainMiddle_registered hrespells⟩

/-- Modules of which one is missing. -/
def broken : Network := .ofFiles
  [("/a.ts", "import './d';\nimport '/bad.ts';\n"), ("/d.ts", "export * from './x';\n"),
    ("/x.ts", "export const x = 1;\n"), ("/b.ts", "import './d';\n")]

/-- The host that has `/d.ts`, but not what it depends on, and a library that hides it. -/
def shadowHost : Host :=
  (setExtraLibraries (addRoot broken { settings := lineSettings } ⟨"/a.ts"⟩ (.ofName "a.ts")).2
    [⟨"/d.ts", "// none\n", 1⟩]).2

def shadowRun : Except HostError ModuleRecord × Host :=
  addRoot broken shadowHost ⟨"/b.ts"⟩ (.ofName "b.ts")

def shadowRoot : ModuleRecord := shadowRun.1.toOption.get (by decide +kernel)

/-- The module that the library hides. -/
def shadowed : ModuleRecord := (shadowRun.2.registry.get? ⟨"/d.ts"⟩).get (by decide +kernel)

theorem shadowed_registered : shadowRun.2.registry.get? shadowed.path = some shadowed := by
  have hfound : shadowRun.2.registry.get? ⟨"/d.ts"⟩ = some shadowed := (Option.some_get _).symm
  rwa [Registry.path_of_get? hfound]

theorem shadowed_not_found : ¬shadowRun.2.program.Finds "/x.ts" := by
  rintro ⟨target, -, hfound⟩
  have hlost : (shadowRun.2.program.resolve "/x.ts" {}).1 = .unresolved := by decide +kernel
  cases hlost.symm.trans (hfound {})

/-- Without the condition on libraries the specifiers of a module that is reached need not be
found: a library that hides a registered module hides what it depends on. -/
theorem shadowed_specifiers_lost :
    ∃ (settings : HostSettings) (h : Host) (r : ModuleRecord) (h' : Host) (m : ModuleRecord),
      settings.read.IsFaithful ∧ Attained settings h ∧ Returns h r h' ∧
        ReflTransGen h'.Registers r m ∧ h'.registry.get? m.path = some m ∧
        (m.served settings.read).tree.respells m.path m.rawText.toList m.text.toList m.tree ∧
        ¬List.Forall₂ (fun l l' => NamesPath (l.unquoted m.rawText.toList) →
          h'.program.Finds (l'.unquoted m.text.toList))
          (m.served settings.read).tree.sources m.tree.sources := by
  obtain ⟨hdepends, hrespells, hbefore, hafter⟩ : shadowed.path ∈ shadowRoot.dependencies ∧
      (shadowed.served lineSettings.read).tree.respells shadowed.path shadowed.rawText.toList
        shadowed.text.toList shadowed.tree ∧
      (shadowed.served lineSettings.read).tree.sources.map
        (·.unquoted shadowed.rawText.toList) = ["./x"] ∧
      shadowed.tree.sources.map (·.unquoted shadowed.text.toList) = ["/x.ts"] := by
    decide +kernel
  refine ⟨lineSettings, shadowHost, shadowRoot, shadowRun.2, shadowed, TreeReader.placed_isFaithful _,
    .setExtraLibraries (.addRoot .empty broken ⟨"/a.ts"⟩ (.ofName "a.ts") none) _,
    .addRoot (eq_ok_of_fst_toOption (Option.some_get _).symm : shadowRun = _),
    .single ⟨hdepends, shadowed_registered⟩, shadowed_registered, hrespells, fun hall => ?_⟩
  obtain ⟨l, hl, hls⟩ := List.map_eq_singleton_iff.mp hbefore
  obtain ⟨l', hl', hls'⟩ := List.map_eq_singleton_iff.mp hafter
  rw [hl, hl'] at hall
  cases hall with
  | cons hfound _ =>
    rw [hls, hls'] at hfound
    exact shadowed_not_found (hfound (by rw [NamesPath]; decide))

end Host

end CompilingProxy
