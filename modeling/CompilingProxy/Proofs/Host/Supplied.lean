import CompilingProxy.Proofs.Host.Names
import CompilingProxy.Proofs.Host.Provenance

/-!
# Answers that come with a root

A root may come with the answer that was fetched for it. It is read then instead of a new one,
unless the ingestion of its path was begun before: that one runs, and the answer is not looked at.
-/

namespace CompilingProxy

theorem ModuleRecord.Reads.rawText {settings : HostSettings} {i : Ingestion} {x : Response}
    {r : ModuleRecord} (h : r.Reads settings i x) : r.rawText = x.text := by
  rcases edited_eq_ok h with ⟨-, rfl⟩ | ⟨_, _, -, rfl⟩ <;> rfl

namespace Host

section

variable {h h' h₀ : Host} {net : Network} {p : ModulePath} {i : Ingestion} {x : Response}
  {r : ModuleRecord}

/-! ### What was asked -/

/-- All that the network was asked since then was asked by ingestions that were begun. -/
def AskedSince (h₀ h : Host) : Prop :=
  ∃ ran, h.requests = h₀.requests ++ ran.flatMap Ingestion.asks ∧ ran ⊆ h.begun

theorem askedSince_kept (net : Network) (h₀ : Host) :
    Kept net fun h => h.Accounted ∧ AskedSince h₀ h where
  launches := by
    rintro h h' ⟨ha, ran, hrequests, hran⟩ hl
    obtain ⟨more, -, hbegun, -⟩ := hl.begun
    refine ⟨hl.accounted ha, ran, hl.requests.trans hrequests, ?_⟩
    rw [hbegun]
    exact List.subset_append_of_subset_left _ hran
  ingest := by
    rintro h i ⟨ha, ran, hrequests, hran⟩ hi
    refine ⟨ingest_accounted net ha hi, ran ++ [i], ?_⟩
    obtain ⟨hl, outcome, hlaunches, -, heq⟩ := ingest_eq_settle net h i
    obtain ⟨hbegun, hasked, -⟩ := hl.settle_spec i.path outcome
    obtain ⟨more, -, hmore, -⟩ := hlaunches.begun
    rw [heq, hasked, hbegun, hlaunches.requests, hmore, hrequests]
    constructor
    · simp [List.flatMap_append]
    · refine List.subset_append_of_subset_left _ (List.append_subset.mpr ⟨hran, ?_⟩)
      rw [List.cons_subset]
      exact ⟨ha.pending hi, List.nil_subset _⟩

/-- Of one path there is one ingestion. -/
theorem Accounted.eq_of_path (ha : h.Accounted) {j : Ingestion} (hi : i ∈ h.begun)
    (hj : j ∈ h.begun) (hpath : j.path = i.path) : j = i :=
  List.inj_on_of_nodup_map (ha.begun.nodup_iff.mpr ha.once) hj hi hpath

theorem performAll_settings (settings : HostSettings) (history : List (Network × Operation)) :
    (performAll { settings } history).settings = settings := by
  have hkept (net : Network) : Kept net fun h => h.settings = settings :=
    ⟨fun hh hl => hl.settings.trans hh, fun {h i} hh _ => (ingest_frame net h i).1.trans hh⟩
  have hall : ∀ (history : List (Network × Operation)) (h : Host), h.settings = settings →
      (h.performAll history).settings = settings := by
    intro history
    induction history with
    | nil => exact fun h hh => hh
    | cons x history ih =>
      exact fun h hh => ih _ ((hkept x.1).perform (fun hh' _ => hh') (fun _ hh' => hh') hh x.2)
  exact hall history _ rfl

/-! ### What was read -/

/-- Adopting ends in what the settings alone make of the record, or in a failure of its text. -/
theorem adopt_outcome {outcome : Except HostError ModuleRecord} {served : ModuleRecord}
    (heq : h.adopt served = (outcome, h')) :
    (∃ r, outcome = .ok r ∧
      served.edited served.discover.edits served.discover.paths h.settings.read = .ok r) ∨
      ∃ e, outcome = .error (.module e) := by
  have hsettings := (h.adopt_launches served).settings
  rw [heq] at hsettings
  rw [adopt] at heq
  dsimp only at heq hsettings
  split at heq
  case h_1 r hedited =>
    cases heq
    rw [hsettings] at hedited
    exact .inl ⟨r, rfl, hedited⟩
  case h_2 e _ =>
    cases heq
    exact .inr ⟨_, rfl⟩

/-- What an ingestion with an answer comes to is made from the answer. -/
theorem ingest_supplied {outcome : Except HostError ModuleRecord} (hok : x.isOk)
    (hi : i.response = some x) (hnew : h.registry.get? i.path = none)
    (heq : h.ingest net i = (outcome, h')) :
    (∃ r, outcome = .ok r ∧ h'.registry.get? i.path = some r ∧ r.Reads h.settings i x) ∨
      ∃ e, outcome = .error (.module e) ∧ h'.failures.lookup i.path = some (.module e) := by
  have hfetch : h.fetch net i = (.ok x, h) := by
    rw [fetch, hi]
    exact if_pos hok
  rw [ingest, hfetch] at heq
  dsimp only at heq
  cases hadopt : h.adopt (h.readResponse i x) with
  | mk adopted ha =>
    have hlaunches := h.adopt_launches (h.readResponse i x)
    rw [hadopt] at heq hlaunches
    dsimp only at heq hlaunches
    rcases adopt_outcome hadopt with ⟨r, rfl, hedited⟩ | ⟨e, rfl⟩
    · have hreads : r.Reads h.settings i x := hedited
      have hpath : r.path = i.path := hreads.origin.1
      have hnew' : ha.registry.get? r.path = none := by
        rw [hlaunches.registry, hpath]
        exact hnew
      rw [← hpath, settle_new hnew'] at heq
      cases heq
      rw [← hpath]
      exact .inl ⟨r, rfl, Registry.get?_append_new hnew', hreads⟩
    · cases heq
      exact .inr ⟨e, rfl, by simp⟩

theorem begun_kept (net : Network) (i : Ingestion) : Kept net fun h => i ∈ h.begun where
  launches := by
    intro h h' hi hl
    obtain ⟨more, -, hbegun, -⟩ := hl.begun
    rw [hbegun]
    exact List.mem_append_left _ hi
  ingest := by
    intro h j hi _
    obtain ⟨hl, outcome, hlaunches, -, heq⟩ := ingest_eq_settle net h j
    obtain ⟨more, -, hmore, -⟩ := hlaunches.begun
    rw [heq, (hl.settle_spec j.path outcome).1, hmore]
    exact List.mem_append_left _ hi

/-- The host when an ingestion was begun just now. -/
def launched (h : Host) (i : Ingestion) : Host :=
  { h with pending := h.pending ++ [i], begun := h.begun ++ [i] }

/-- A root of which nothing is known is ingested at once, before anything else is. -/
theorem addRoot_eq_ingest {url : Url} {response : Option Response}
    (hregistered : h.registry.get? p = none) (hunfailed : h.failures.lookup p = none)
    (hextra : h.extraLibrary? p = none) (hidle : ∀ i ∈ h.pending, i.path ≠ p) :
    h.addRoot net p url response =
      match (h.launched ⟨p, url, response⟩).ingest net ⟨p, url, response⟩ with
      | (.error e, h) => (.error e, h)
      | (.ok r, h) => h.close net r := by
  have hfind : h.pending.find? (·.path == p) = none := by
    apply List.find?_eq_none.mpr
    intro i hi
    simpa using hidle i hi
  have hany : ¬h.pending.any (·.path == p) := by simpa using hidle
  have hticket : h.ticket ⟨p, url, response⟩ = (.awaited p, h.launched ⟨p, url, response⟩) := by
    rw [ticket, hextra, hunfailed, hregistered]
    exact if_neg hany
  have hredeem : (h.launched ⟨p, url, response⟩).redeem net (.awaited p) =
      (h.launched ⟨p, url, response⟩).ingest net ⟨p, url, response⟩ := by
    rw [redeem, launched, List.find?_append, hfind]
    simp
  cases hingest : (h.launched ⟨p, url, response⟩).ingest net ⟨p, url, response⟩ with
  | mk outcome h₁ =>
    rw [hingest] at hredeem
    cases outcome with
    | error e => simp only [addRoot, hticket, hredeem]
    | ok r => simp only [addRoot, hticket, hredeem]

/-- The ingestion of a root that comes with an answer runs first of all, and what is read then
stays. -/
theorem addRoot_supplied {url : Url} (hregistered : h.registry.get? p = none)
    (hunfailed : h.failures.lookup p = none) (hextra : h.extraLibrary? p = none)
    (hidle : ∀ i ∈ h.pending, i.path ≠ p) (hok : x.isOk) :
    let h' := (h.addRoot net p url (some x)).2
    ⟨p, url, some x⟩ ∈ h'.begun ∧
      ((∃ r, h'.registry.get? p = some r ∧ r.Reads h.settings ⟨p, url, some x⟩ x) ∨
        ∃ e, (h.addRoot net p url (some x)).1 = .error (.module e) ∧
          h'.failures.lookup p = some (.module e)) := by
  let i : Ingestion := ⟨p, url, some x⟩
  have hpending : i ∈ (h.launched i).pending := List.mem_append_right _ (List.mem_singleton_self i)
  have hbegun : i ∈ (h.launched i).begun := List.mem_append_right _ (List.mem_singleton_self i)
  have hingested := (begun_kept net i).ingest hbegun hpending
  rw [addRoot_eq_ingest hregistered hunfailed hextra hidle]
  cases hingest : (h.launched i).ingest net i with
  | mk outcome h₁ =>
    rw [hingest] at hingested
    rcases ingest_supplied hok rfl hregistered hingest with ⟨r, rfl, hr, hreads⟩ | ⟨e, rfl, he⟩
    · have hstays := (registered_kept net p r).close hr r
      exact ⟨(begun_kept net i).close hingested r, .inl ⟨r, hstays, hreads⟩⟩
    · exact ⟨hingested, .inr ⟨e, rfl, he⟩⟩

/-- An answer that comes with a root is read and nothing is fetched for the path, unless the path
is known or its ingestion was begun before. -/
theorem supplied_answer_is_read (settings : HostSettings) (history : List (Network × Operation))
    (net : Network) (p : ModulePath) (url : Url) (x : Response) :
    let h := performAll { settings } history
    h.registry.get? p = none → h.failures.lookup p = none → h.extraLibrary? p = none →
      (∀ i ∈ h.pending, i.path ≠ p) → x.isOk →
        let h' := (h.addRoot net p url (some x)).2
        (∀ j ∈ h'.begun, j.path = p → j = ⟨p, url, some x⟩) ∧
          (∃ ran, h'.requests = h.requests ++ ran.flatMap Ingestion.asks ∧ ran ⊆ h'.begun ∧
            ∀ j ∈ ran, j.path = p → j.asks = []) ∧
          ((∃ r, h'.registry.get? p = some r ∧ r.rawText = x.text ∧ r.url = url.source ∧
              r.response = x.head url.source ∧ r.Reads settings ⟨p, url, some x⟩ x) ∨
            ∃ e, (h.addRoot net p url (some x)).1 = .error (.module e) ∧
              h'.failures.lookup p = some (.module e)) := by
  intro h hregistered hunfailed hextra hidle hok h'
  have ha : h.Accounted := (Remembers.performAll
    ⟨accounted_empty settings, List.nil_suffix⟩ history : h.Remembers []).1
  have hsettings : h.settings = settings := performAll_settings settings history
  obtain ⟨ha', ran, hrequests, hran⟩ := (askedSince_kept net h).addRoot
    ⟨ha, [], (List.append_nil _).symm, List.nil_subset _⟩ p url (some x)
  obtain ⟨hbegun, hread⟩ :=
    addRoot_supplied hregistered hunfailed hextra hidle hok
  rw [hsettings] at hread
  have honly : ∀ j ∈ h'.begun, j.path = p → j = ⟨p, url, some x⟩ :=
    fun j hj hpath => ha'.eq_of_path hbegun hj hpath
  refine ⟨honly, ⟨ran, hrequests, hran, fun j hj hpath => ?_⟩, ?_⟩
  · rw [honly j (hran hj) hpath]
    rfl
  · rcases hread with ⟨r, hr, hreads⟩ | hfailed
    · exact .inl ⟨r, hr, hreads.rawText, hreads.origin.2.1, hreads.origin.2.2, hreads⟩
    · exact .inr hfailed

end

/-! ### Ingestions that a failed walk left behind -/

/-- A module that imports one that is not there, and another one. -/
def halfNetwork : Network :=
  .ofFiles [("/a.ts", "import '/b.ts';\nimport '/c.ts';\n"), ("/c.ts", "// fetched\n")]

def halfSettings : HostSettings := { origin := .ofName "", libBase := .ofName "", read := .ofLines }

def halfHistory : List (Network × Operation) := [(halfNetwork, .addRootUrl (.ofName "a.ts") none)]

/-- The walk from the module has failed before the turn of the second import came. -/
def halfHost : Host := performAll { settings := halfSettings } halfHistory

def suppliedAnswer (name : String) : Response := .ok (.ofName name) (asciiBytes "// supplied\n")

/-- The path is asked for as a root, with an answer. -/
def suppliedHost (path : ModulePath) (name : String) : Host :=
  (halfHost.addRoot halfNetwork path (.ofName name) (some (suppliedAnswer name))).2

/-- `supplied_answer_is_read` for a path that nothing has led to. -/
theorem half_supplied_answer_is_read :
    halfHost.pending.map (·.path) = [⟨"/c.ts"⟩] ∧
      ∃ r, (suppliedHost ⟨"/d.ts"⟩ "d.ts").registry.get? ⟨"/d.ts"⟩ = some r ∧
        r.rawText = "// supplied\n" ∧ r.url = (Url.ofName "d.ts").source := by
  have hpending : halfHost.pending.map (·.path) = [⟨"/c.ts"⟩] := by decide +kernel
  have hregistered : halfHost.registry.get? ⟨"/d.ts"⟩ = none := by decide +kernel
  have hunfailed : halfHost.failures.lookup ⟨"/d.ts"⟩ = none := by decide +kernel
  have hextra : halfHost.extraLibrary? ⟨"/d.ts"⟩ = none := by decide +kernel
  have hidle : ∀ i ∈ halfHost.pending, i.path ≠ ⟨"/d.ts"⟩ := by
    intro i hi hpath
    have hmem : i.path ∈ halfHost.pending.map (·.path) := List.mem_map_of_mem hi
    rw [hpending, hpath] at hmem
    exact absurd hmem (by decide +kernel)
  have htext : (suppliedAnswer "d.ts").text = "// supplied\n" := by decide +kernel
  have hsound : (suppliedHost ⟨"/d.ts"⟩ "d.ts").failures.lookup ⟨"/d.ts"⟩ = none := by
    decide +kernel
  refine ⟨hpending, ?_⟩
  unfold suppliedHost halfHost at *
  obtain ⟨-, -, ⟨r, hr, hraw, hurl, -⟩ | ⟨e, -, hfailed⟩⟩ :=
    supplied_answer_is_read halfSettings halfHistory halfNetwork ⟨"/d.ts"⟩ (.ofName "d.ts")
      (suppliedAnswer "d.ts") hregistered hunfailed hextra hidle (by decide +kernel)
  · exact ⟨r, hr, hraw.trans htext, hurl⟩
  · cases hsound.symm.trans hfailed

/-- The answer for a path whose ingestion was left behind is dropped, and the path is fetched. -/
theorem half_supplied_answer_dropped :
    halfHost.registry.get? ⟨"/c.ts"⟩ = none ∧ halfHost.failures.lookup ⟨"/c.ts"⟩ = none ∧
      halfHost.extraLibrary? ⟨"/c.ts"⟩ = none ∧ (suppliedAnswer "c.ts").isOk ∧
      (suppliedHost ⟨"/c.ts"⟩ "c.ts").requests = halfHost.requests ++ [.bypass (.ofName "c.ts")] ∧
      ((suppliedHost ⟨"/c.ts"⟩ "c.ts").registry.get? ⟨"/c.ts"⟩).map (·.rawText) = some "// fetched\n" ∧
      (suppliedAnswer "c.ts").text = "// supplied\n" := by
  decide +kernel

end Host

end CompilingProxy
