import CompilingProxy.Proofs.Host.Closure
import CompilingProxy.Proofs.Module.Placement

/-!
# What records are made of

Each record that a walk registers is what an answer of the network comes to, and the answer is one
to an ingestion of the record's path: the one that was asked for, or one of a dependency, which is
fetched from where it belongs.
-/

namespace CompilingProxy

/-- What an ingestion reads. -/
def Ingestion.answer (net : Network) (i : Ingestion) : Except FetchError Response :=
  match i.response with
  | some x => sourceOf i.url (.ok x)
  | none => sourceOf i.url (net (.bypass i.url))

/-- The network has the response for what an ingestion reads. -/
def Network.Answers (net : Network) (i : Ingestion) (x : Response) : Prop := i.answer net = .ok x

/-- The record is what the answer to an ingestion comes to. -/
def ModuleRecord.Reads (settings : HostSettings) (i : Ingestion) (x : Response)
    (r : ModuleRecord) : Prop :=
  let served := Host.readResponse { settings } i x
  served.edited served.discover.edits served.discover.paths settings.read = .ok r

theorem ModuleRecord.Reads.origin {settings : HostSettings} {i : Ingestion} {x : Response}
    {r : ModuleRecord} (h : r.Reads settings i x) :
    r.path = i.path ∧ r.url = i.url.source ∧ r.response = x.head i.url.source := by
  rcases edited_eq_ok h with ⟨-, rfl⟩ | ⟨_, _, -, rfl⟩ <;> exact ⟨rfl, rfl, rfl⟩

namespace Host

theorem toUrl_of_urlOf {settings : HostSettings} {p : ModulePath} {url : Url}
    (hurl : urlOf { settings } p = .ok url) :
    p.toUrl (if p.isLibrary then settings.libBase else settings.origin) = .ok url := by
  rw [urlOf] at hurl
  split at hurl
  case h_1 hjoin =>
    cases hurl
    exact hjoin
  case h_2 => cases hurl

section

variable {h h' : Host} {net : Network} {i : Ingestion}

theorem fetch_answer : (h.fetch net i).1 = i.answer net := by
  rw [fetch, Ingestion.answer]
  cases i.response with
  | none => rfl
  | some x =>
    dsimp only [sourceOf]
    split <;> rfl

theorem reads_of_adopt {settings : HostSettings} {x : Response} {r : ModuleRecord}
    (hq : h.Queued) (hsettings : h.settings = settings)
    (heq : h.adopt (h.readResponse i x) = (.ok r, h')) : r.Reads settings i x := by
  subst hsettings
  obtain ⟨hbegins, -⟩ := foldl_file_spec hq (h.readResponse i x).path
    (h.readResponse i x).discover.met
  rw [adopt] at heq
  split at heq
  case h_1 r' hedited =>
    cases heq
    rw [hbegins.settings] at hedited
    exact hedited
  case h_2 => cases heq

end

/-- Everything that is registered was read from a response to an ingestion of the kind, and what is
begun is of the kind. -/
structure Provided (answers : Ingestion → Response → Prop) (settings : HostSettings)
    (kind : Ingestion → Prop) (h : Host) : Prop where
  settings_eq : h.settings = settings
  noExtras : h.extraLibraries = []
  pending : ∀ i ∈ h.pending, kind i
  records : ∀ r ∈ h.registry.records, ∃ i x, kind i ∧ answers i x ∧ r.Reads settings i x

namespace Provided

variable {net : Network} {answers : Ingestion → Response → Prop} {settings : HostSettings}
  {kind : Ingestion → Prop} {h h' : Host}

theorem empty : Provided answers settings kind { settings } := ⟨rfl, rfl, by simp, by simp⟩

theorem begins (hp : h.Provided answers settings kind) (hb : Begins kind h h') :
    h'.Provided answers settings kind := by
  obtain ⟨more, hmore, hall⟩ := hb.pending
  refine ⟨hb.settings.trans hp.settings_eq, hb.extras.trans hp.noExtras, fun i hi => ?_, ?_⟩
  · rw [hmore] at hi
    rcases List.mem_append.mp hi with hi | hi
    · exact hp.pending i hi
    · exact (hall i hi).1
  · rw [hb.registry]
    exact hp.records

theorem urlOf_eq (hp : h.Provided answers settings kind) (p : ModulePath) :
    h.urlOf p = Host.urlOf { settings } p := by
  rw [Host.urlOf, hp.settings_eq]
  rfl

theorem settle_error (hp : h.Provided answers settings kind) (p : ModulePath) (e : HostError) :
    (h.settle p (.error e)).2.Provided answers settings kind :=
  ⟨hp.settings_eq, hp.noExtras, fun i hi => hp.pending i (List.mem_filter.mp hi).1, hp.records⟩

/-- What a registered module depends on is written in canonical form. -/
theorem isCanonical_of_dependency (hp : h.Provided answers settings kind) {r : ModuleRecord}
    (hr : r ∈ h.registry.records) : ∀ d ∈ r.dependencies, d.IsCanonical := by
  obtain ⟨i, x, -, -, hreads⟩ := hp.records r hr
  rw [ModuleRecord.edited_dependencies hreads]
  exact fun d => ModuleRecord.isCanonical_of_mem_discover

section

variable (hanswers : ∀ i x, i.answer net = .ok x → answers i x)
  (hwants : ∀ ds i, (∀ d ∈ ds, d.IsCanonical) → Wants settings ds i → kind i)

include hanswers hwants

theorem ingest {i : Ingestion} (hp : h.Provided answers settings kind)
    (hs : h.Sound) (hq : h.Queued) (hi : i ∈ h.pending) :
    (h.ingest net i).2.Provided answers settings kind := by
  have hends := ingests_ingest net h i
  obtain ⟨hfetched, hqueues⟩ := fetch_begins kind net h i
  have hqueued := hfetched.grows.queued hq hqueues
  have hanswer : (h.fetch net i).1 = i.answer net := fetch_answer
  have hp₁ := hp.begins hfetched
  -- What the record depends on is begun while it is adopted.
  have hadopts := fun r => adopt_spec hqueued r
  have hp₂ : ∀ r, ((h.fetch net i).2.adopt r).2.Provided answers settings kind := by
    intro r
    obtain ⟨hbegins, -⟩ := hadopts r
    rw [hp₁.settings_eq] at hbegins
    exact hp₁.begins (hbegins.mono fun j =>
      hwants _ j fun d => ModuleRecord.isCanonical_of_mem_discover)
  generalize h.ingest net i = out at hends
  cases hends with
  | unfetched hfetch =>
    rw [hfetch] at hp₁
    exact hp₁.settle_error _ _
  | @refused x hf ha e hfetch hadopt =>
    have hadopted := hp₂ (hf.readResponse i x)
    rw [hfetch] at hadopted
    dsimp only at hadopted
    rw [hadopt] at hadopted
    exact hadopted.settle_error _ _
  | @registered x hf ha r' hfetch hadopt =>
    have hadopted := hp₂ (hf.readResponse i x)
    obtain ⟨hbegins, hqueued', hpath⟩ := hadopts (hf.readResponse i x)
    rw [hfetch] at hfetched hqueued hanswer hp₁ hadopted hbegins hqueued' hpath
    dsimp only at hfetched hqueued hanswer hp₁ hadopted hbegins hqueued' hpath
    have hreads := reads_of_adopt hqueued hp₁.settings_eq hadopt
    rw [hadopt] at hadopted hbegins hqueued' hpath
    dsimp only at hadopted hbegins hqueued' hpath
    have hpath : r'.path = i.path := (hpath r' rfl).1
    have hnew : ha.registry.get? i.path = none := by
      rw [hbegins.registry, hfetched.registry]
      exact hs.unregistered i hi
    obtain ⟨hgrows, -, -, -, hrecords, hpending, -⟩ :=
      settle_ok (hbegins.sound (hfetched.sound hs)) hqueued' hpath hnew
    refine ⟨hgrows.settings.trans hadopted.settings_eq, hgrows.extras.trans hadopted.noExtras,
      fun j hj => ?_, fun q hq => ?_⟩
    · rw [hpending] at hj
      exact hadopted.pending j (List.mem_filter.mp hj).1
    · rw [hrecords] at hq
      rcases List.mem_append.mp hq with hq | hq
      · exact hadopted.records q hq
      · rw [List.mem_singleton.mp hq]
        exact ⟨i, x, hp.pending i hi, hanswers i x hanswer.symm, hreads⟩

theorem redeem {t : Ticket} (hp : h.Provided answers settings kind) (hs : h.Sound)
    (hq : h.Queued) : (h.redeem net t).2.Provided answers settings kind := by
  have heq : h.redeem net t = ((h.redeem net t).1, (h.redeem net t).2) := rfl
  rcases redeem_cases heq with ⟨hsame, -⟩ | ⟨i, hi, -, hingest⟩
  · rwa [hsame]
  · have hended := hp.ingest hanswers hwants hs hq hi
    rwa [hingest] at hended

theorem preserved : Preserved net (Provided answers settings kind)
    (Provided answers settings kind) where
  weaken := id
  step {h h₁ h₂ t r seen seen' ts} hp hs hq hredeem hr hexpand := by
    obtain ⟨-, -, hq₁, -⟩ := redeem_spec hs hq hredeem
    have hp₁ := hp.redeem hanswers hwants hs hq (t := t)
    rw [hredeem] at hp₁
    have hregistered : r ∈ h₁.registry.records := by
      rcases hr with hextra | hregistered
      · rw [extraLibrary?, hp₁.noExtras] at hextra
        cases hextra
      · exact Registry.mem_of_get? hregistered
    obtain ⟨hbegins, -⟩ := expand_spec hq₁ hexpand
    rw [hp₁.settings_eq] at hbegins
    exact hp₁.begins (hbegins.mono fun i => hwants _ i (hp₁.isCanonical_of_dependency hregistered))
  fail {h h' t e} hp hs hq hredeem := by
    have hp' := hp.redeem hanswers hwants hs hq (t := t)
    rwa [hredeem] at hp'

/-- A root that is added adds what responses to it and to its dependencies come to. -/
theorem addRoot {path : ModulePath} {url : Url} {response : Option Response}
    (hroot : kind ⟨path, url, response⟩) (hp : h.Provided answers settings kind) (hs : h.Sound)
    (hq : h.Queued) : (h.addRoot net path url response).2.Provided answers settings kind := by
  have hticket := hp.begins ((h.ticket_spec ⟨path, url, response⟩).1.mono fun i hi => hi ▸ hroot)
  exact ((preserved hanswers hwants).addRoot hs hq hticket rfl).2

end

end Provided

end Host

end CompilingProxy
