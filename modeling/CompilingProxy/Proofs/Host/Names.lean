import CompilingProxy.Proofs.Host.Memory
import CompilingProxy.Proofs.Host.Report

/-!
# Files as they are seen

Registered modules and libraries that are handed in share one space of paths. A path that is in
both tables is listed twice, and is not the same file for everyone; any other path stands for one
record, which is the one that adding it as a root comes to.
-/

namespace CompilingProxy.Host

/-- The path is registered and that of a library that was handed in. -/
def IsDoubled (h : Host) (p : ModulePath) : Prop :=
  h.registry.contains p ∧ (h.extraLibrary? p).isSome

/-- The libraries that were handed in have a path each, and depend on nothing. -/
structure Handed (h : Host) : Prop where
  once : (h.extraLibraries.map (·.path)).Nodup
  alone : ∀ r ∈ h.extraLibraries, r.dependencies = []

section

variable {h h' : Host} {net : Network} {p : ModulePath} {r : ModuleRecord}

/-! ### Libraries that are handed in -/

theorem paths_putRecord {records : List ModuleRecord} (honce : (records.map (·.path)).Nodup)
    (r : ModuleRecord) : ((putRecord records r).map (·.path)).Nodup := by
  rw [putRecord]
  split
  case isTrue =>
    rw [Registry.paths_of_swap rfl]
    exact honce
  case isFalse hnew =>
    rw [List.map_append, List.map_singleton]
    refine List.nodup_append'.mpr ⟨honce, List.nodup_singleton _, ?_⟩
    rw [List.disjoint_singleton]
    intro hmem
    obtain ⟨old, hold, hpath⟩ := List.mem_map.mp hmem
    exact hnew (List.any_eq_true.mpr ⟨old, hold, beq_iff_eq.mpr hpath⟩)

theorem mem_putRecord {records : List ModuleRecord} {q : ModuleRecord}
    (hq : q ∈ putRecord records r) : q = r ∨ q ∈ records := by
  rw [putRecord] at hq
  split at hq
  case isTrue =>
    obtain ⟨old, hold, heq⟩ := List.mem_map.mp hq
    split at heq
    · exact .inl heq.symm
    · exact .inr (heq ▸ hold)
  case isFalse =>
    rcases List.mem_append.mp hq with hq | hq
    · exact .inr hq
    · exact .inl (List.mem_singleton.mp hq)

theorem foldl_putRecord_spec (new : List ModuleRecord) {records : List ModuleRecord}
    (honce : (records.map (·.path)).Nodup) :
    ((new.foldl putRecord records).map (·.path)).Nodup ∧
      ∀ q ∈ new.foldl putRecord records, q ∈ new ∨ q ∈ records := by
  induction new generalizing records with
  | nil => exact ⟨honce, fun q hq => .inr hq⟩
  | cons r new ih =>
    obtain ⟨honce', hmem⟩ := ih (paths_putRecord honce r)
    refine ⟨honce', fun q hq => ?_⟩
    rcases hmem q hq with hnew | hput
    · exact .inl (List.mem_cons_of_mem _ hnew)
    · rcases mem_putRecord hput with rfl | hold
      · exact .inl List.mem_cons_self
      · exact .inr hold

theorem extraRecord_alone (h : Host) (l : ExtraLibrary) :
    Yields (fun r : ModuleRecord => r.dependencies = []) (h.extraRecord l) := by
  have hrest : ∀ path, Yields (fun r : ModuleRecord => r.dependencies = []) (do
      let url ← h.urlOf path
      return { ModuleRecord.ofText path url .ts l.content ⟨url, 200, none, none⟩ h.settings.read with
        version := l.version }) :=
    fun path => .bind fun url => .pure rfl
  unfold extraRecord
  exact .ite (.bind hrest) (.bind hrest)

theorem Handed.ofExtras (hh : h.Handed) (heq : h'.extraLibraries = h.extraLibraries) :
    h'.Handed :=
  ⟨by rw [heq]; exact hh.once, by rw [heq]; exact hh.alone⟩

theorem ingest_frame (net : Network) (h : Host) (i : Ingestion) :
    (h.ingest net i).2.settings = h.settings ∧
      (h.ingest net i).2.extraLibraries = h.extraLibraries := by
  obtain ⟨hl, outcome, hlaunches, -, heq⟩ := ingest_eq_settle net h i
  rw [heq]
  cases outcome <;> exact ⟨hlaunches.settings, hlaunches.extras⟩

theorem Handed.kept (net : Network) : Kept net Handed where
  launches hh hl := hh.ofExtras hl.extras
  ingest {h i} hh _ := hh.ofExtras (ingest_frame net h i).2

theorem Handed.perform (hh : h.Handed) (net : Network) (op : Operation) :
    (h.perform net op).Handed := by
  have hkept := Handed.kept net
  cases op with
  | addRoot path url response => exact hkept.addRoot hh path url response
  | addRootUrl url response => exact hkept.addRoot hh _ _ response
  | addLibrary name => exact hkept.addLibrary hh name
  | addLibraries names => exact hkept.addLibraries hh names
  | addOptionLibraries => exact hkept.addLibraries hh _
  | update path text => exact hkept.update (fun hh' _ => hh'.ofExtras rfl) hh path text
  | setExtraLibraries libraries =>
    rw [Host.perform, setExtraLibraries]
    split
    case h_1 => exact hh
    case h_2 records hrecords =>
      have halone := Yields.mapM h.extraRecord_alone libraries records hrecords
      have hempty : (([] : List ModuleRecord).map (·.path)).Nodup := List.nodup_nil
      obtain ⟨honce, hmem⟩ := foldl_putRecord_spec records hempty
      refine ⟨honce, fun r hr => ?_⟩
      rcases hmem r hr with hr | hr
      · exact halone r hr
      · cases hr

theorem performAll_handed (settings : HostSettings) (history : List (Network × Operation)) :
    (performAll { settings } history).Handed := by
  have hall : ∀ (history : List (Network × Operation)) (h : Host), h.Handed →
      (h.performAll history).Handed := by
    intro history
    induction history with
    | nil => exact fun h hh => hh
    | cons x history ih => exact fun h hh => ih _ (hh.perform x.1 x.2)
  exact hall history _ ⟨List.nodup_nil, fun r hr => by cases hr⟩

/-! ### Listing and looking up -/

theorem mem_fileNames_iff : p ∈ h.fileNames ↔ h.fileExists p := by
  rw [fileNames, fileExists, List.mem_append, ← Registry.get?_isSome_iff, Bool.or_eq_true,
    Registry.contains, extraLibrary?, List.find?_isSome]
  simp

theorem fileExists_iff : h.fileExists p ↔ (h.sourceFile? p).isSome := by
  rw [fileExists, Registry.contains, sourceFile?]
  cases h.registry.get? p <;> simp

theorem sourceFile?_eq_or : h.sourceFile? p = (h.registry.get? p).or (h.extraLibrary? p) := by
  rw [sourceFile?]
  cases h.registry.get? p <;> rfl

/-- Just the paths that are in both tables are listed twice. -/
theorem fileNames_nodup_iff (hpaths : h.registry.list.Nodup) (hh : h.Handed) :
    h.fileNames.Nodup ↔ ∀ p, ¬h.IsDoubled p := by
  have hextra : ∀ p, (h.extraLibrary? p).isSome ↔ p ∈ h.extraLibraries.map (·.path) := by
    intro p
    rw [extraLibrary?, List.find?_isSome]
    simp
  rw [fileNames, List.nodup_append', and_iff_right hpaths, and_iff_right hh.once]
  constructor
  · rintro hdisjoint p ⟨hregistered, hlibrary⟩
    exact hdisjoint (Registry.get?_isSome_iff.mp hregistered) ((hextra p).mp hlibrary)
  · intro hnone p hregistered hlibrary
    exact hnone p ⟨Registry.get?_isSome_iff.mpr hregistered, (hextra p).mpr hlibrary⟩

/-! ### Adding a root -/

theorem registered_kept (net : Network) (p : ModulePath) (r : ModuleRecord) :
    Kept net fun h => h.registry.get? p = some r where
  launches hh hl := by rwa [hl.registry]
  ingest {h i} hh _ := by
    obtain ⟨hl, outcome, hlaunches, -, heq⟩ := ingest_eq_settle net h i
    have hknown : hl.registry.get? p = some r := by rwa [hlaunches.registry]
    rw [heq]
    cases outcome with
    | error e => exact hknown
    | ok r' =>
      change (hl.registry.register r').2.get? p = some r
      rw [Registry.register]
      split
      · exact hknown
      · exact Registry.get?_append hknown

theorem registered_of_ingest {i : Ingestion} (heq : h.ingest net i = (.ok r, h')) :
    h'.registry.get? i.path = some r := by
  obtain ⟨hl, outcome, -, hpath, hsettle⟩ := ingest_eq_settle net h i
  rw [heq] at hsettle
  cases outcome with
  | error e => cases hsettle
  | ok r' =>
    rw [← hpath r' rfl]
    cases hsettle
    exact Registry.get?_register _ r'

/-- A ticket that waits for something pending runs it. -/
theorem registered_of_awaited {i : Ingestion} (hi : i ∈ h.pending)
    (heq : h.redeem net (.awaited i.path) = (.ok r, h')) : h'.registry.get? i.path = some r := by
  rw [redeem] at heq
  cases hfind : h.pending.find? (·.path == i.path) with
  | none =>
    have hnot := List.find?_eq_none.mp hfind i hi
    rw [beq_self_eq_true] at hnot
    exact absurd rfl hnot
  | some j =>
    have hpath : j.path = i.path := by simpa using List.find?_some hfind
    rw [hfind] at heq
    rw [← hpath]
    exact registered_of_ingest heq

/-- Unless a library takes its place, what a new ticket comes to is registered for its path. -/
theorem registered_of_ticket {i : Ingestion} (hnone : h.extraLibrary? i.path = none)
    (heq : (h.ticket i).2.redeem net (h.ticket i).1 = (.ok r, h')) :
    h'.registry.get? i.path = some r := by
  rw [ticket, hnone] at heq
  cases hfailed : h.failures.lookup i.path with
  | some e =>
    rw [hfailed] at heq
    cases heq
  | none =>
    cases hknown : h.registry.get? i.path with
    | some known =>
      rw [hfailed, hknown] at heq
      cases heq
      exact hknown
    | none =>
      rw [hfailed, hknown] at heq
      dsimp only at heq
      split at heq
      case isTrue hpending =>
        obtain ⟨j, hj, hpath⟩ := List.any_eq_true.mp hpending
        rw [← beq_iff_eq.mp hpath] at heq ⊢
        exact registered_of_awaited hj heq
      case isFalse =>
        exact registered_of_awaited (List.mem_append_right _ (List.mem_singleton_self i)) heq

theorem eq_of_close {r' : ModuleRecord} (heq : h.close net r = (.ok r', h')) : r' = r := by
  rw [close] at heq
  dsimp only at heq
  split at heq
  case h_1 =>
    cases heq
    rfl
  case h_2 => cases heq

/-- A module that depends on nothing is closed at once. -/
theorem close_alone (hdependencies : r.dependencies = []) :
    h.close net r = (.ok r, { h with queues := h.queues.filter (·.1 != r.path) }) := by
  rw [close, expand, hdependencies]
  dsimp only [collect]
  cases h.settings.limit <;> rfl

theorem addRoot_extraLibrary? (net : Network) (h : Host) (path : ModulePath) (url : Url)
    (response : Option Response) (p : ModulePath) :
    (h.addRoot net path url response).2.extraLibrary? p = h.extraLibrary? p := by
  have hkept : Kept net fun h' => h'.extraLibraries = h.extraLibraries :=
    ⟨fun hh hl => hl.extras.trans hh, fun {h' i} hh _ => (ingest_frame net h' i).2.trans hh⟩
  rw [extraLibrary?, hkept.addRoot rfl path url response, ← extraLibrary?]

/-- A root that is added is the library of its path, if one was handed in, and what is registered
for the path else. -/
theorem addRoot_record (hh : h.Handed) {url : Url} {response : Option Response}
    (heq : h.addRoot net p url response = (.ok r, h')) :
    (h'.extraLibrary? p).or (h'.registry.get? p) = some r ∧
      (¬h.IsDoubled p → h'.sourceFile? p = some r) := by
  have hsame := addRoot_extraLibrary? net h p url response p
  rw [heq] at hsame
  rw [sourceFile?_eq_or, hsame]
  rw [addRoot] at heq
  cases hextra : h.extraLibrary? p with
  | some x =>
    have hready : h.ticket ⟨p, url, response⟩ = (.ready (.ok x), h) := by rw [ticket, hextra]
    have halone := hh.alone x (List.mem_of_find?_eq_some hextra)
    simp only [hready, redeem, close_alone halone] at heq
    cases heq
    refine ⟨rfl, fun hsingle => ?_⟩
    have hunregistered : h.registry.get? p = none := by
      rw [Option.eq_none_iff_forall_ne_some]
      intro q hq
      exact hsingle ⟨Option.isSome_iff_exists.mpr ⟨q, hq⟩, Option.isSome_iff_exists.mpr ⟨r, hextra⟩⟩
    rw [hunregistered, Option.none_or]
  | none =>
    cases hredeem : (h.ticket ⟨p, url, response⟩).2.redeem net
        (h.ticket ⟨p, url, response⟩).1 with
    | mk outcome h₁ =>
      simp only [hredeem] at heq
      cases outcome with
      | error e => cases heq
      | ok r₁ =>
        have hregistered := registered_of_ticket hextra hredeem
        obtain rfl := eq_of_close heq
        have hkept := (registered_kept net p r).close hregistered r
        dsimp only at heq
        rw [heq] at hkept
        rw [Option.none_or, hkept]
        exact ⟨rfl, fun _ => rfl⟩

/-- After every history each path is listed once unless it is doubled, the paths listed are those
of files, a file has its path, and a path that is added as a root and is not doubled stands for the
record that adding it comes to. -/
theorem one_record_for_each_path (settings : HostSettings)
    (history : List (Network × Operation)) :
    let h := performAll { settings } history
    (h.fileNames.Nodup ↔ ∀ p, ¬h.IsDoubled p) ∧
      (∀ p, (p ∈ h.fileNames ↔ h.fileExists p) ∧ (h.fileExists p ↔ (h.sourceFile? p).isSome) ∧
        ∀ r, h.sourceFile? p = some r → r.path = p) ∧
      (∀ net p url response r h', h.addRoot net p url response = (.ok r, h') →
        ¬h.IsDoubled p → h'.sourceFile? p = some r) ∧
      ∀ net name r h', h.addLibrary net name = (.ok r, h') →
        ¬h.IsDoubled (ModulePath.library name) →
          h'.sourceFile? (ModulePath.library name) = some r := by
  intro h
  have hh : h.Handed := performAll_handed settings history
  refine ⟨fileNames_nodup_iff (performAll_list_nodup settings history) hh, fun p =>
    ⟨mem_fileNames_iff, fileExists_iff, fun r hr => path_of_sourceFile? hr⟩, ?_, ?_⟩
  · intro net p url response r h' heq
    exact (addRoot_record hh heq).2
  · intro net name r h' heq
    unfold addLibrary at heq
    dsimp only at heq
    split at heq
    · cases heq
    · exact (addRoot_record hh heq).2

end

/-! ### A library beside a module, and in its place -/

def sharedNetwork : Network := .ofFiles [("/a.ts", "// module\n")]

def sharedSettings : HostSettings :=
  { origin := .ofName "", libBase := .ofName "", read := .ofLines }

/-- A module is registered, and then a library is handed in under that name. -/
def sharedHistory (name : String) : List (Network × Operation) :=
  [(sharedNetwork, .addRootUrl (.ofName "a.ts") none),
    (sharedNetwork, .setExtraLibraries [⟨"/" ++ name, "// library\n", 1⟩])]

def sharedHost (name : String) : Host :=
  performAll { settings := sharedSettings } (sharedHistory name)

/-- The name is asked for as a root. -/
def sharedRun (name : String) : Except HostError ModuleRecord × Host :=
  (sharedHost name).addRoot sharedNetwork ⟨"/" ++ name⟩ (.ofName name)

/-- `one_record_for_each_path` for a library beside the module. -/
theorem shared_one_record :
    (sharedHost "b.ts").fileNames = [⟨"/a.ts"⟩, ⟨"/b.ts"⟩] ∧
      (∀ p, ¬(sharedHost "b.ts").IsDoubled p) ∧
      ∃ r h', sharedRun "b.ts" = (.ok r, h') ∧ h'.sourceFile? ⟨"/b.ts"⟩ = some r := by
  obtain ⟨hlisted, -, hadded, -⟩ := one_record_for_each_path sharedSettings (sharedHistory "b.ts")
  have hsingle : ∀ p, ¬(sharedHost "b.ts").IsDoubled p := hlisted.mp (by decide +kernel)
  have hok : (sharedRun "b.ts").1.toOption.isSome := by decide +kernel
  have hrun : sharedRun "b.ts" = (.ok ((sharedRun "b.ts").1.toOption.get hok), _) :=
    eq_ok_of_fst_toOption (Option.some_get hok).symm
  exact ⟨by decide +kernel, hsingle, _, _, hrun, hadded _ _ _ _ _ _ hrun (hsingle _)⟩

/-- A library in the module's place is listed beside it, and comes back as the root that the module
goes on standing for. -/
theorem shared_path_doubled :
    ¬(sharedHost "a.ts").fileNames.Nodup ∧
      ∃ r, (sharedRun "a.ts").1.toOption = some r ∧
        (sharedRun "a.ts").2.sourceFile? ⟨"/a.ts"⟩ ≠ some r := by
  have hok : (sharedRun "a.ts").1.toOption.isSome := by decide +kernel
  have htexts : ((sharedRun "a.ts").2.sourceFile? ⟨"/a.ts"⟩).map (·.text) ≠
      (sharedRun "a.ts").1.toOption.map (·.text) := by
    decide +kernel
  refine ⟨by decide +kernel, _, (Option.some_get hok).symm, fun hsame => ?_⟩
  rw [Option.some_get] at hsame
  exact htexts (congrArg _ hsame)

end CompilingProxy.Host
