import CompilingProxy.Proofs.Host.Flight
import CompilingProxy.Proofs.Host.Provenance
import CompilingProxy.Proofs.Host.Reachability
import CompilingProxy.Proofs.Url.Path

/-!
# What a registration comes to

Over a network that does not change, what the ingestion of a path comes to can be told from the path
alone, and so can what a walk from there comes to: whatever a host has been through, with success or
without, it answers as a new one does.
-/

namespace CompilingProxy

/-- What an ingestion comes to. -/
def Ingestion.forecast (net : Network) (settings : HostSettings) (i : Ingestion) :
    Except HostError ModuleRecord :=
  match i.answer net with
  | .error e => .error (.fetch e)
  | .ok x =>
    let served := Host.readResponse { settings } i x
    match served.edited served.discover.edits served.discover.paths settings.read with
    | .ok r => .ok r
    | .error e => .error (.module (.badEdit e))

namespace Host

/-- What the ingestion of a path comes to that is fetched from where it belongs. -/
def forecast (net : Network) (settings : HostSettings) (p : ModulePath) :
    Except HostError ModuleRecord :=
  match urlOf { settings } p with
  | .ok url => Ingestion.forecast net settings ⟨p, url, none⟩
  | .error e => .error e

/-- The paths that were not met before, each of them once, and all as met. -/
def unmet : (seen : List ModulePath) → List ModulePath → List ModulePath × List ModulePath
  | seen, [] => ([], seen)
  | seen, d :: ds =>
    if seen.contains d then unmet seen ds
    else ((d :: (unmet (d :: seen) ds).1), (unmet (d :: seen) ds).2)

/-- What following paths one after another comes to, each with what it depends on behind them. -/
def forecastAll (net : Network) (settings : HostSettings) (root : ModulePath) :
    (fuel : Nat) → (seen : List ModulePath) → List ModulePath → Except HostError Unit
  | _, _, [] => .ok ()
  | 0, _, _ :: _ => .error (.unbounded root)
  | fuel + 1, seen, p :: ps =>
    match forecast net settings p with
    | .error e => .error e
    | .ok r =>
      forecastAll net settings root fuel (unmet seen r.dependencies).2
        (ps ++ (unmet seen r.dependencies).1)

/-- What registering a path with all that it depends on comes to. -/
def forecastRoot (net : Network) (settings : HostSettings) (p : ModulePath) :
    Except HostError ModuleRecord :=
  match forecast net settings p with
  | .error e => .error e
  | .ok r =>
    match forecastAll net settings r.path settings.limit (unmet [r.path] r.dependencies).2
        (unmet [r.path] r.dependencies).1 with
    | .ok () => .ok r
    | .error e => .error e

/-- What the ticket of a path says already is what the path's ingestion comes to. -/
def Foretells (net : Network) (settings : HostSettings) (p : ModulePath) : Ticket → Prop
  | .ready outcome => outcome = forecast net settings p
  | .awaited _ => True

/-- The path is fetched from where it belongs. -/
def IsOwn (settings : HostSettings) (i : Ingestion) : Prop :=
  i.response = none ∧ urlOf { settings } i.path = .ok i.url

/-- A module is asked for by an address that its path leads back to. -/
def Call.IsOwn (settings : HostSettings) : Call → Prop
  | .root url => urlOf { settings } (.ofUrl url) = .ok url
  | .library _ => True

/-- Makes calls one after another, whatever each comes to. -/
def callEach (net : Network) (h : Host) (calls : List Call) : Host :=
  calls.foldl (fun h c => (h.call net c).2) h

/-- All that a host knows of paths is what their ingestions come to. -/
structure Forecasts (net : Network) (settings : HostSettings) (h : Host) : Prop where
  settings_eq : h.settings = settings
  noExtras : h.extraLibraries = []
  pending : ∀ i ∈ h.pending, IsOwn settings i
  failures : ∀ x ∈ h.failures, forecast net settings x.1 = .error x.2
  records : ∀ r ∈ h.registry.records, forecast net settings r.path = .ok r
  ingested : ∀ r ∈ h.ingested, forecast net settings r.path = .ok r
  queues : ∀ e ∈ h.queues, ∀ d ∈ e.2, Foretells net settings d.1 d.2

section

variable {net : Network} {settings : HostSettings} {h h' : Host} {p d : ModulePath}

theorem forecasts_empty : Forecasts net settings { settings } :=
  ⟨rfl, rfl, by simp, by simp, by simp, by simp, by simp⟩

theorem forecast_eq_of_isOwn {i : Ingestion} (hi : IsOwn settings i) :
    forecast net settings i.path = i.forecast net settings := by
  obtain ⟨path, url, response⟩ := i
  obtain ⟨rfl, hurl⟩ := hi
  rw [forecast, hurl]

theorem source_eq_of_urlOf {url : Url} (hurl : urlOf { settings } (.ofUrl url) = .ok url) :
    url.source = url :=
  ModulePath.source_eq_of_toUrl (toUrl_of_urlOf hurl)

namespace Forecasts

theorem urlOf_eq (hf : Forecasts net settings h) (p : ModulePath) :
    h.urlOf p = urlOf { settings } p := by
  rw [urlOf, urlOf, hf.settings_eq]

theorem extraLibrary?_eq (hf : Forecasts net settings h) (p : ModulePath) :
    h.extraLibrary? p = none := by
  rw [extraLibrary?, hf.noExtras]
  rfl

theorem begins {kind : Ingestion → Prop} (hf : Forecasts net settings h) (hb : Begins kind h h')
    (hkind : ∀ i, kind i → IsOwn settings i) (hqueues : h'.queues = h.queues) :
    Forecasts net settings h' := by
  obtain ⟨more, hmore, hall⟩ := hb.pending
  refine ⟨hb.settings.trans hf.settings_eq, hb.extras.trans hf.noExtras, fun i hi => ?_,
    by rw [hb.failures]; exact hf.failures, by rw [hb.registry]; exact hf.records,
    by rw [hb.ingested]; exact hf.ingested, by rw [hqueues]; exact hf.queues⟩
  rw [hmore] at hi
  rcases List.mem_append.mp hi with hi | hi
  · exact hf.pending i hi
  · exact hkind i (hall i hi).1

/-! ### Tickets -/

theorem of_failure (hf : Forecasts net settings h) {e : HostError}
    (he : h.failures.lookup p = some e) : forecast net settings p = .error e := by
  obtain ⟨before, after, hsplit, -⟩ := List.lookup_eq_some_iff.mp he
  exact hf.failures (p, e) (by simp [hsplit])

theorem of_registered (hf : Forecasts net settings h) {r : ModuleRecord}
    (hr : h.registry.get? p = some r) : forecast net settings p = .ok r := by
  have hforecast := hf.records r (Registry.mem_of_get? hr)
  rwa [Registry.path_of_get? hr] at hforecast

theorem of_ingested (hf : Forecasts net settings h) {r : ModuleRecord}
    (hr : h.ingested.find? (·.path == p) = some r) : forecast net settings p = .ok r := by
  have hpath : r.path = p := by simpa using List.find?_some hr
  have hforecast := hf.ingested r (List.mem_of_find?_eq_some hr)
  rwa [hpath] at hforecast

theorem ticket (hf : Forecasts net settings h) {i : Ingestion} (hi : IsOwn settings i) :
    Forecasts net settings (h.ticket i).2 ∧ Foretells net settings i.path (h.ticket i).1 := by
  obtain ⟨hbegins, hqueues, -⟩ := h.ticket_spec i
  refine ⟨hf.begins hbegins (fun j hj => hj ▸ hi) hqueues, ?_⟩
  rw [Host.ticket, hf.extraLibrary?_eq]
  dsimp only
  split
  case h_1 e he => exact (hf.of_failure he).symm
  case h_2 =>
    split
    case h_1 r hr => exact (hf.of_registered hr).symm
    case h_2 => split <;> trivial

theorem ticketOf (hf : Forecasts net settings h) (p : ModulePath) :
    Forecasts net settings (h.ticketOf p).2 ∧ Foretells net settings p (h.ticketOf p).1 := by
  rw [Host.ticketOf, hf.urlOf_eq]
  cases hurl : urlOf { settings } p with
  | ok url => exact hf.ticket ⟨rfl, hurl⟩
  | error e =>
    refine ⟨hf, ?_⟩
    rw [Foretells, forecast, hurl]

theorem putTicket (hf : Forecasts net settings h) {t : Ticket}
    (ht : Foretells net settings d t) : Forecasts net settings (h.putTicket p d t) := by
  refine { hf with queues := fun e he x hx => ?_ }
  have hold : ∀ x ∈ h.queueOf p, Foretells net settings x.1 x.2 := by
    intro x hx
    obtain ⟨e, he, hmem⟩ := mem_queues_of_lookup hx
    exact hf.queues e he x hmem
  rcases List.mem_cons.mp he with rfl | he
  · dsimp only at hx
    split at hx
    · exact hold x hx
    · rcases List.mem_append.mp hx with hx | hx
      · exact hold x hx
      · rw [List.mem_singleton.mp hx]
        exact ht
  · exact hf.queues e (List.mem_filter.mp he).1 x hx

theorem file (hf : Forecasts net settings h) (p d : ModulePath) :
    Forecasts net settings (h.file p d) := by
  rw [Host.file]
  split
  · exact hf
  · obtain ⟨hf', ht⟩ := hf.ticketOf d
    exact hf'.putTicket ht

/-- Adopting a record is a matter of the record. -/
theorem adopt (hf : Forecasts net settings h) (r : ModuleRecord) :
    Forecasts net settings (h.adopt r).2 ∧
      (h.adopt r).1 = match r.edited r.discover.edits r.discover.paths settings.read with
        | .ok r => .ok r
        | .error e => .error (.module (.badEdit e)) := by
  have hfold : ∀ (met : List Dependency) (h : Host), Forecasts net settings h →
      Forecasts net settings (met.foldl (fun h x => h.file r.path x.path) h) := by
    intro met
    induction met with
    | nil => exact fun h hf => hf
    | cons x met ih => exact fun h hf => ih _ (hf.file r.path x.path)
  have hfiled := hfold r.discover.met h hf
  rw [Host.adopt, hfiled.settings_eq]
  cases r.edited r.discover.edits r.discover.paths settings.read with
  | ok r' => exact ⟨hfiled, rfl⟩
  | error e => exact ⟨hfiled, rfl⟩

/-! ### Ingestions -/

theorem fetch (hf : Forecasts net settings h) (i : Ingestion) :
    Forecasts net settings (h.fetch net i).2 := by
  obtain ⟨hbegins, hqueues⟩ := fetch_begins (fun _ => False) net h i
  exact hf.begins hbegins (fun _ hi => hi.elim) hqueues

theorem settle (hf : Forecasts net settings h) {outcome : Except HostError ModuleRecord}
    (houtcome : outcome = forecast net settings p) (hpath : ∀ r, outcome = .ok r → r.path = p)
    (hnew : h.registry.get? p = none) :
    Forecasts net settings (h.settle p outcome).2 ∧ (h.settle p outcome).1 = outcome := by
  cases outcome with
  | error e =>
    refine ⟨{ hf with
      pending := fun i hi => hf.pending i (List.mem_filter.mp hi).1
      failures := fun x hx => ?_ }, rfl⟩
    rcases List.mem_cons.mp hx with rfl | hx
    · exact houtcome.symm
    · exact hf.failures x hx
  | ok r =>
    obtain rfl := hpath r rfl
    rw [settle_new hnew]
    refine ⟨{ hf with
      pending := fun i hi => hf.pending i (List.mem_filter.mp hi).1
      records := fun q hq => ?_
      ingested := fun q hq => ?_ }, rfl⟩
    · rcases List.mem_append.mp hq with hq | hq
      · exact hf.records q hq
      · rw [List.mem_singleton.mp hq, houtcome]
    · rcases List.mem_append.mp hq with hq | hq
      · exact hf.ingested q hq
      · rw [List.mem_singleton.mp hq, houtcome]

theorem readResponse_eq (hf : Forecasts net settings h) (i : Ingestion) (x : Response) :
    h.readResponse i x = readResponse { settings } i x := by
  rw [readResponse, readResponse, hf.settings_eq]

/-- An ingestion that runs comes to what was forecast. -/
theorem ingest (hf : Forecasts net settings h) (hs : h.Sound) {i : Ingestion} (hi : i ∈ h.pending) :
    Forecasts net settings (h.ingest net i).2 ∧
      (h.ingest net i).1 = forecast net settings i.path := by
  have hforecast : forecast net settings i.path = i.forecast net settings :=
    forecast_eq_of_isOwn (hf.pending i hi)
  have hanswer : (h.fetch net i).1 = i.answer net := fetch_answer
  have hfetched := hf.fetch i
  have hregistry := (fetch_begins (fun _ => False) net h i).1.registry
  have hnew := hs.unregistered i hi
  have hends := ingests_ingest net h i
  rw [← hregistry] at hnew
  rw [Ingestion.forecast, ← hanswer] at hforecast
  generalize h.ingest net i = out at hends
  cases hends with
  | unfetched hfetch =>
    rw [hfetch] at hforecast hfetched hnew
    rw [hforecast]
    exact hfetched.settle hforecast.symm (fun r hr => by cases hr) hnew
  | @refused x hf' ha e hfetch hadopt =>
    rw [hfetch] at hforecast hfetched hnew
    dsimp only at hforecast hfetched hnew
    obtain ⟨hadopted, houtcome⟩ := hfetched.adopt (hf'.readResponse i x)
    have hlaunches := hf'.adopt_launches (hf'.readResponse i x)
    rw [hadopt] at hadopted houtcome hlaunches
    rw [hfetched.readResponse_eq] at houtcome
    have hrefused : forecast net settings i.path = .error e := hforecast.trans houtcome.symm
    rw [hrefused]
    rw [← hlaunches.registry] at hnew
    exact hadopted.settle hrefused.symm (fun r hr => by cases hr) hnew
  | @registered x hf' ha r hfetch hadopt =>
    rw [hfetch] at hforecast hfetched hnew
    dsimp only at hforecast hfetched hnew
    obtain ⟨hadopted, houtcome⟩ := hfetched.adopt (hf'.readResponse i x)
    have hlaunches := hf'.adopt_launches (hf'.readResponse i x)
    have hpath : r.path = i.path := adopt_path hadopt
    rw [hadopt] at hadopted houtcome hlaunches
    rw [hfetched.readResponse_eq] at houtcome
    have hread : forecast net settings i.path = .ok r := hforecast.trans houtcome.symm
    rw [hread]
    rw [← hlaunches.registry] at hnew
    exact hadopted.settle hread.symm (fun r' hr' => by cases hr'; exact hpath) hnew

/-- What the ticket of a path comes to is what was forecast for the path. -/
theorem redeem (hf : Forecasts net settings h) (hs : h.Sound) {t : Ticket}
    (hstands : h.Stands p t) (ht : Foretells net settings p t) :
    Forecasts net settings (h.redeem net t).2 ∧ (h.redeem net t).1 = forecast net settings p := by
  cases t with
  | ready outcome => exact ⟨hf, ht⟩
  | awaited q =>
    obtain ⟨rfl, hunderway⟩ := hstands
    rw [Host.redeem]
    split
    case h_1 i hfind =>
      have hpath : i.path = q := by simpa using List.find?_some hfind
      rw [← hpath]
      exact hf.ingest hs (List.mem_of_find?_eq_some hfind)
    case h_2 hidle =>
      split
      case h_1 e he => exact ⟨hf, (hf.of_failure he).symm⟩
      case h_2 r _ hr => exact ⟨hf, (hf.of_ingested hr).symm⟩
      case h_3 hunfailed hnone =>
        rcases hunderway with ⟨i, hi, hpath⟩ | hfailed | ⟨r, hr, -⟩
        · simpa [hpath] using List.find?_eq_none.mp hidle i hi
        · rw [hunfailed] at hfailed
          cases hfailed
        · rw [hnone] at hr
          cases hr

/-! ### Walks -/

/-- The tickets in line are those of the paths, in order, and foretell what they come to. -/
def InLine (net : Network) (settings : HostSettings) (h : Host) :
    List ModulePath → List Ticket → Prop :=
  List.Forall₂ fun p t => h.Stands p t ∧ Foretells net settings p t

theorem InLine.grows {ps : List ModulePath} {ts : List Ticket}
    (hl : InLine net settings h ps ts) (hg : Grows h h') : InLine net settings h' ps ts :=
  hl.imp fun _ _ ht => ⟨hg.stands ht.1, ht.2⟩

/-- Collecting takes tickets of the paths that were not met. -/
theorem collect (hf : Forecasts net settings h) {queue : TicketQueue}
    (hqueue : ∀ d ∈ queue, h.Stands d.1 d.2 ∧ Foretells net settings d.1 d.2)
    (seen ds : List ModulePath) :
    ∃ ts h', h.collect queue seen ds = (ts, (unmet seen ds).2, h') ∧
      Forecasts net settings h' ∧ InLine net settings h' (unmet seen ds).1 ts := by
  induction ds generalizing h seen with
  | nil => exact ⟨[], h, rfl, hf, .nil⟩
  | cons d ds ih =>
    by_cases hseen : seen.contains d
    case pos =>
      rw [Host.collect, unmet, if_pos hseen, if_pos hseen]
      exact ih hf hqueue seen
    case neg =>
      obtain ⟨t, h₁, heq, hf₁, hgrows, hstands, ht⟩ : ∃ t h₁,
          h.collect queue seen (d :: ds) =
            (t :: (h₁.collect queue (d :: seen) ds).1, (h₁.collect queue (d :: seen) ds).2) ∧
          Forecasts net settings h₁ ∧ Grows h h₁ ∧ h₁.Stands d t ∧
          Foretells net settings d t := by
        rw [Host.collect, if_neg hseen]
        cases hlookup : queue.lookup d with
        | some t =>
          obtain ⟨_, _, hmem, -⟩ := List.lookup_eq_some_iff.mp hlookup
          obtain ⟨hstands, ht⟩ := hqueue (d, t) (by simp [hmem])
          exact ⟨t, h, rfl, hf, .refl h, hstands, ht⟩
        | none =>
          obtain ⟨hbegins, -, hstands⟩ := h.ticketOf_spec d
          obtain ⟨hf₁, ht⟩ := hf.ticketOf d
          exact ⟨_, _, rfl, hf₁, hbegins.grows, hstands, ht⟩
      have hqueue₁ : ∀ x ∈ queue, h₁.Stands x.1 x.2 ∧ Foretells net settings x.1 x.2 :=
        fun x hx => ⟨hgrows.stands (hqueue x hx).1, (hqueue x hx).2⟩
      obtain ⟨ts, h', hrest, hf', hline⟩ := ih hf₁ hqueue₁ (d :: seen)
      obtain ⟨hbegins, -⟩ := collect_spec (fun x hx => (hqueue₁ x hx).1) _ _ _ _ _ hrest
      rw [heq, hrest, unmet, if_neg hseen]
      exact ⟨t :: ts, h', rfl, hf', .cons ⟨hbegins.grows.stands hstands, ht⟩ hline⟩

theorem expand (hf : Forecasts net settings h) (hq : h.Queued) (seen : List ModulePath)
    (r : ModuleRecord) :
    ∃ ts h', h.expand seen r = (ts, (unmet seen r.dependencies).2, h') ∧
      Forecasts net settings h' ∧ InLine net settings h' (unmet seen r.dependencies).1 ts := by
  have hqueue : ∀ d ∈ h.queueOf r.path, h.Stands d.1 d.2 ∧ Foretells net settings d.1 d.2 := by
    intro d hd
    obtain ⟨e, he, hmem⟩ := mem_queues_of_lookup hd
    exact ⟨hq e he d hmem, hf.queues e he d hmem⟩
  have hf' : Forecasts net settings { h with queues := h.queues.filter (·.1 != r.path) } :=
    { hf with queues := fun e he => hf.queues e (List.mem_filter.mp he).1 }
  exact hf'.collect hqueue seen r.dependencies

/-- A walk comes to what was forecast. -/
theorem follow (hf : Forecasts net settings h) (hs : h.Sound) (hq : h.Queued) (root : ModulePath)
    (fuel : Nat) (seen : List ModulePath) {ps : List ModulePath} {ts : List Ticket}
    (hline : InLine net settings h ps ts) :
    Forecasts net settings (Host.follow net root fuel seen ts h).2 ∧
      (Host.follow net root fuel seen ts h).1 = forecastAll net settings root fuel seen ps := by
  induction fuel generalizing seen ps ts h with
  | zero =>
    cases hline with
    | nil => exact ⟨hf, rfl⟩
    | cons ht hrest => exact ⟨hf, rfl⟩
  | succ fuel ih =>
    cases hline with
    | nil => exact ⟨hf, rfl⟩
    | @cons p t ps ts ht hrest =>
      obtain ⟨hf₁, houtcome⟩ := hf.redeem hs ht.1 ht.2
      rw [Host.follow, forecastAll, ← houtcome]
      cases hredeem : h.redeem net t with
      | mk outcome h₁ =>
        rw [hredeem] at hf₁
        obtain ⟨hgrows₁, hs₁, hq₁, -⟩ := redeem_spec hs hq hredeem
        cases outcome with
        | error e => exact ⟨hf₁, rfl⟩
        | ok r =>
          obtain ⟨more, h₂, hexpand, hf₂, hmore⟩ := hf₁.expand hq₁ seen r
          obtain ⟨hbegins, hq₂, -⟩ := expand_spec hq₁ hexpand
          have hline₂ := InLine.grows hrest (hgrows₁.trans hbegins.grows)
          dsimp only
          rw [hexpand]
          exact ih hf₂ (hbegins.sound hs₁) hq₂ _ (List.rel_append hline₂ hmore)

theorem close (hf : Forecasts net settings h) (hs : h.Sound) (hq : h.Queued) (r : ModuleRecord) :
    Forecasts net settings (h.close net r).2 ∧
      (h.close net r).1 =
        match forecastAll net settings r.path settings.limit (unmet [r.path] r.dependencies).2
          (unmet [r.path] r.dependencies).1 with
        | .ok () => .ok r
        | .error e => .error e := by
  obtain ⟨ts, h₁, hexpand, hf₁, hline⟩ := hf.expand hq [r.path] r
  obtain ⟨hbegins, hq₁, -⟩ := expand_spec hq hexpand
  obtain ⟨hf₂, hwalk⟩ := hf₁.follow (hbegins.sound hs) hq₁ r.path settings.limit
    (unmet [r.path] r.dependencies).2 hline
  rw [Host.close, hexpand]
  dsimp only
  rw [hf₁.settings_eq, ← hwalk]
  cases hfollow : Host.follow net r.path settings.limit (unmet [r.path] r.dependencies).2 ts h₁ with
  | mk outcome h₂ =>
    rw [hfollow] at hf₂
    cases outcome with
    | ok u => exact ⟨hf₂, rfl⟩
    | error e => exact ⟨hf₂, rfl⟩

/-- Registering a path comes to what was forecast for it, whatever the host has been through. -/
theorem addRoot (hf : Forecasts net settings h) (hs : h.Sound) (hq : h.Queued) {url : Url}
    (hurl : urlOf { settings } p = .ok url) :
    Forecasts net settings (h.addRoot net p url).2 ∧
      (h.addRoot net p url).1 = forecastRoot net settings p := by
  obtain ⟨hf₁, ht⟩ := hf.ticket (i := ⟨p, url, none⟩) ⟨rfl, hurl⟩
  obtain ⟨hbegins, hqueues, hstands⟩ := h.ticket_spec ⟨p, url, none⟩
  have hq₁ := hbegins.grows.queued hq hqueues
  obtain ⟨hf₂, houtcome⟩ := hf₁.redeem (hbegins.sound hs) hstands ht
  rw [Host.addRoot, forecastRoot]
  dsimp only at houtcome ⊢
  rw [← houtcome]
  cases hredeem : (h.ticket ⟨p, url, none⟩).2.redeem net (h.ticket ⟨p, url, none⟩).1 with
  | mk outcome h₂ =>
    rw [hredeem] at hf₂
    obtain ⟨-, hs₂, hq₂, -⟩ := redeem_spec (hbegins.sound hs) hq₁ hredeem
    cases outcome with
    | error e => exact ⟨hf₂, rfl⟩
    | ok r => exact hf₂.close hs₂ hq₂ r

/-- Registering an address that its path leads back to comes to what was forecast for the path. -/
theorem addRootUrl (hf : Forecasts net settings h) (hs : h.Sound) (hq : h.Queued) {url : Url}
    (hurl : urlOf { settings } (.ofUrl url) = .ok url) :
    Forecasts net settings (h.addRootUrl net url).2 ∧
      (h.addRootUrl net url).1 = forecastRoot net settings (.ofUrl url) := by
  rw [Host.addRootUrl, source_eq_of_urlOf hurl]
  exact hf.addRoot hs hq hurl

/-- A call leaves a host that knows nothing but what was forecast. -/
theorem call (hf : Forecasts net settings h) (hs : h.Sound) (hq : h.Queued) {c : Call}
    (hc : c.IsOwn settings) :
    Forecasts net settings (h.call net c).2 ∧ (h.call net c).2.Sound ∧
      (h.call net c).2.Queued := by
  have hadd : ∀ p url, urlOf { settings } p = .ok url →
      Forecasts net settings (h.addRoot net p url).2 ∧ (h.addRoot net p url).2.Sound ∧
        (h.addRoot net p url).2.Queued := by
    intro p url hurl
    obtain ⟨-, hsound, hqueued, -⟩ := addRoot_spec hs hq (Prod.eta (h.addRoot net p url)).symm
    exact ⟨(hf.addRoot hs hq hurl).1, hsound, hqueued⟩
  cases c with
  | root url =>
    have hsource : url.source = url := source_eq_of_urlOf hc
    rw [Host.call, Host.addRootUrl, hsource]
    exact hadd _ url hc
  | library name =>
    unfold Host.call Host.addLibrary
    dsimp only
    split
    case h_1 => exact ⟨hf, hs, hq⟩
    case h_2 url hurl =>
      rw [hf.urlOf_eq] at hurl
      exact hadd _ url hurl

theorem callEach (hf : Forecasts net settings h) (hs : h.Sound) (hq : h.Queued)
    {calls : List Call} (hcalls : ∀ c ∈ calls, c.IsOwn settings) :
    Forecasts net settings (h.callEach net calls) ∧ (h.callEach net calls).Sound ∧
      (h.callEach net calls).Queued := by
  induction calls generalizing h with
  | nil => exact ⟨hf, hs, hq⟩
  | cons c calls ih =>
    obtain ⟨hf₁, hs₁, hq₁⟩ := hf.call hs hq (hcalls c List.mem_cons_self)
    exact ih hf₁ hs₁ hq₁ fun d hd => hcalls d (List.mem_cons_of_mem _ hd)

end Forecasts

/-- Whatever modules and libraries a host was asked for, and whether each could be had or not, it
answers a further request for a module as a new host does, with the same record or the same error.
The network does not change, and the modules are asked for by addresses that their paths lead back
to. -/
theorem addRootUrl_forgets_calls {calls : List Call} (hcalls : ∀ c ∈ calls, c.IsOwn settings)
    {url : Url} (hurl : urlOf { settings } (.ofUrl url) = .ok url) :
    ((callEach net { settings } calls).addRootUrl net url).1 =
      (addRootUrl net { settings } url).1 := by
  have hnew : Forecasts net settings { settings } := forecasts_empty
  obtain ⟨hf, hs, hq⟩ := hnew.callEach (sound_empty settings) (queued_empty settings) hcalls
  rw [(hf.addRootUrl hs hq hurl).2,
    (hnew.addRootUrl (sound_empty settings) (queued_empty settings) hurl).2]

end

/-- A site with a module that depends on one that is missing and on one that is there. -/
def brokenSite : Network := .ofFiles
  [("/a.ts", "import '/gone.ts';\nimport '/b.ts';\n"), ("/b.ts", "import '/c.ts';\n"),
    ("/c.ts", "import '/b.ts';\n"), ("/lib.dom.d.ts", "// none\n")]

def brokenSettings : HostSettings :=
  { origin := .ofName "", libBase := .ofName "", read := .ofLines }

def brokenCalls : List Call := [.root (.ofName "a.ts"), .library "dom", .library "es5"]

def brokenHost : Host := callEach brokenSite { settings := brokenSettings } brokenCalls

theorem brokenCalls_isOwn : ∀ c ∈ brokenCalls, c.IsOwn brokenSettings := by
  intro c hc
  simp only [brokenCalls, List.mem_cons, List.not_mem_nil, or_false] at hc
  rcases hc with rfl | rfl | rfl
  · exact eq_ok_of_toOption (by decide +kernel)
  · trivial
  · trivial

/-- `addRootUrl_forgets_calls` for a module whose ingestion was begun by a walk that failed. -/
theorem brokenHost_forgets_calls :
    brokenHost.failures.map (·.1) = [⟨"lib.es5.d.ts"⟩, ⟨"/gone.ts"⟩] ∧
      brokenHost.pending.map (·.path) = [⟨"/b.ts"⟩] ∧
      (addRootUrl brokenSite { settings := brokenSettings } (.ofName "b.ts")).1.toOption.isSome ∧
      (brokenHost.addRootUrl brokenSite (.ofName "b.ts")).1 =
        (addRootUrl brokenSite { settings := brokenSettings } (.ofName "b.ts")).1 :=
  ⟨by decide +kernel, by decide +kernel, by decide +kernel,
    addRootUrl_forgets_calls brokenCalls_isOwn (eq_ok_of_toOption (by decide +kernel))⟩

end Host

end CompilingProxy
