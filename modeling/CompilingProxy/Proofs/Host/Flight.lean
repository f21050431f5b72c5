import CompilingProxy.Proofs.Host.Closure
import CompilingProxy.Proofs.Sketch
import Mathlib.Data.List.Nodup

/-!
# One ingestion for each path

Whatever is asked of a host, and whatever comes of it, each path is ingested at most once in its
life: the path is pending until the ingestion runs, and then it is registered or has failed for
good. The network is asked once for each ingestion that ran and came without an answer.
-/

namespace CompilingProxy

/-- What an ingestion asks of the network when it runs. -/
def Ingestion.asks (i : Ingestion) : List Request :=
  match i.response with
  | some _ => []
  | none => [.bypass i.url]

namespace Host

/-- The paths whose ingestion was begun, by what has become of it: those that are registered, those
that have failed and those that are pending. -/
def knownPaths (h : Host) : List ModulePath :=
  h.registry.list ++ h.failures.map (·.1) ++ h.pending.map (·.path)

/-- The ingestions that were begun and have run. -/
def ended (h : Host) : List Ingestion := h.begun.filter fun i => !h.pending.contains i

/-- All ingestions that were begun are accounted for, each of another path. -/
structure Booked (h : Host) : Prop where
  once : h.knownPaths.Nodup
  begun : (h.begun.map (·.path)).Perm h.knownPaths
  pending : h.pending ⊆ h.begun

/-- And the network was asked what those that have run ask. -/
structure Accounted (h : Host) : Prop extends Booked h where
  asked : h.requests.Perm (h.ended.flatMap Ingestion.asks)

/-- Ingestions are begun, each of a path of which nothing was known; besides, no more than the
queues may change. -/
structure Launches (h h' : Host) : Prop where
  settings : h'.settings = h.settings
  extras : h'.extraLibraries = h.extraLibraries
  registry : h'.registry = h.registry
  failures : h'.failures = h.failures
  requests : h'.requests = h.requests
  memo : h'.memo = h.memo
  begun : ∃ more, h'.pending = h.pending ++ more ∧ h'.begun = h.begun ++ more ∧
    (more.map (·.path)).Nodup ∧ h.knownPaths.Disjoint (more.map (·.path))

theorem accounted_empty (settings : HostSettings) : Accounted { settings } :=
  ⟨⟨List.nodup_nil, .nil, List.nil_subset _⟩, .nil⟩

section

variable {h h' h'' : Host}

/-! ### Beginning ingestions -/

namespace Launches

theorem refl (h : Host) : Launches h h :=
  ⟨rfl, rfl, rfl, rfl, rfl, rfl, [], (List.append_nil _).symm, (List.append_nil _).symm,
    List.nodup_nil, List.disjoint_nil_right _⟩

theorem knownPaths (hl : Launches h h') {more : List Ingestion}
    (hmore : h'.pending = h.pending ++ more) :
    h'.knownPaths = h.knownPaths ++ more.map (·.path) := by
  rw [Host.knownPaths, Host.knownPaths, hl.registry, hl.failures, hmore, List.map_append,
    ← List.append_assoc]

theorem trans (h₁ : Launches h h') (h₂ : Launches h' h'') : Launches h h'' := by
  obtain ⟨more₁, hpending₁, hbegun₁, honce₁, hnew₁⟩ := h₁.begun
  obtain ⟨more₂, hpending₂, hbegun₂, honce₂, hnew₂⟩ := h₂.begun
  rw [h₁.knownPaths hpending₁] at hnew₂
  obtain ⟨hold₂, hapart⟩ := List.disjoint_append_left.mp hnew₂
  refine ⟨h₂.settings.trans h₁.settings, h₂.extras.trans h₁.extras,
    h₂.registry.trans h₁.registry, h₂.failures.trans h₁.failures,
    h₂.requests.trans h₁.requests, h₂.memo.trans h₁.memo, more₁ ++ more₂, ?_, ?_, ?_, ?_⟩
  · rw [hpending₂, hpending₁, List.append_assoc]
  · rw [hbegun₂, hbegun₁, List.append_assoc]
  · rw [List.map_append]
    exact List.nodup_append'.mpr ⟨honce₁, honce₂, hapart⟩
  · rw [List.map_append]
    exact List.disjoint_append_right.mpr ⟨hnew₁, hold₂⟩

/-- What is begun has not run. -/
theorem ended_eq (hl : Launches h h') (ha : h.Booked) : h'.ended = h.ended := by
  obtain ⟨more, hpending, hbegun, -, hnew⟩ := hl.begun
  have hold : ∀ i ∈ h.begun, i ∉ more := by
    intro i hi himore
    have hpath : i.path ∈ h.knownPaths := ha.begun.subset (List.mem_map_of_mem hi)
    exact hnew hpath (List.mem_map_of_mem himore)
  rw [ended, ended, hbegun, List.filter_append, hpending]
  have hidle : more.filter (fun i => !(h.pending ++ more).contains i) = [] := by
    refine List.filter_eq_nil_iff.mpr fun i hi => ?_
    simp [hi]
  rw [hidle, List.append_nil]
  refine List.filter_congr fun i hi => ?_
  simp [hold i hi]

theorem booked (hl : Launches h h') (hb : h.Booked) : h'.Booked := by
  obtain ⟨more, hpending, hbegun, honce, hnew⟩ := hl.begun
  have hknown := hl.knownPaths hpending
  refine ⟨?_, ?_, ?_⟩
  · rw [hknown]
    exact List.nodup_append'.mpr ⟨hb.once, honce, hnew⟩
  · rw [hknown, hbegun, List.map_append]
    exact hb.begun.append_right _
  · rw [hpending, hbegun]
    exact List.append_subset.mpr ⟨List.Subset.trans hb.pending (List.subset_append_left _ _),
      List.subset_append_right _ _⟩

theorem accounted (hl : Launches h h') (ha : h.Accounted) : h'.Accounted := by
  refine ⟨hl.booked ha.toBooked, ?_⟩
  rw [hl.requests, hl.ended_eq ha.toBooked]
  exact ha.asked

end Launches

theorem mem_knownPaths_iff {p : ModulePath} :
    p ∈ h.knownPaths ↔ (h.registry.get? p).isSome ∨ (h.failures.lookup p).isSome ∨
      ∃ i ∈ h.pending, i.path = p := by
  have hfailed : (h.failures.lookup p).isSome ↔ p ∈ h.failures.map (·.1) := by
    rw [List.lookup_isSome_iff]
    simp
  have hpending : p ∈ h.pending.map (·.path) ↔ ∃ i ∈ h.pending, i.path = p := List.mem_map
  rw [knownPaths, List.mem_append, List.mem_append, Registry.get?_isSome_iff, hfailed, or_assoc,
    hpending]

theorem ticket_launches (h : Host) (i : Ingestion) : Launches h (h.ticket i).2 := by
  rw [ticket]
  split
  case h_1 => exact .refl h
  case h_2 =>
    split
    case h_1 => exact .refl h
    case h_2 hunfailed =>
      split
      case h_1 => exact .refl h
      case h_2 hunregistered =>
        split
        case isTrue => exact .refl h
        case isFalse hidle =>
          refine ⟨rfl, rfl, rfl, rfl, rfl, rfl, [i], rfl, rfl, List.nodup_singleton _, ?_⟩
          rw [List.map_singleton, List.disjoint_singleton, mem_knownPaths_iff, hunfailed,
            hunregistered]
          rintro (hsome | hsome | ⟨j, hj, hpath⟩)
          · cases hsome
          · cases hsome
          · exact hidle (List.any_eq_true.mpr ⟨j, hj, beq_iff_eq.mpr hpath⟩)

theorem ticketOf_launches (h : Host) (p : ModulePath) : Launches h (h.ticketOf p).2 := by
  rw [ticketOf]
  split
  · exact h.ticket_launches _
  · exact .refl h

theorem Launches.ofQueues (h : Host) (queues : List (ModulePath × TicketQueue)) :
    Launches h { h with queues } :=
  { Launches.refl h with }

theorem file_launches (h : Host) (p d : ModulePath) : Launches h (h.file p d) := by
  rw [file]
  split
  · exact .refl h
  · exact (h.ticketOf_launches d).trans (.ofQueues _ _)

theorem adopt_launches (h : Host) (r : ModuleRecord) : Launches h (h.adopt r).2 := by
  have hfold : ∀ (met : List Dependency) (h : Host),
      Launches h (met.foldl (fun h x => h.file r.path x.path) h) := by
    intro met
    induction met with
    | nil => exact .refl
    | cons x met ih => exact fun h => (h.file_launches r.path x.path).trans (ih _)
  rw [adopt]
  split
  · exact hfold _ h
  · exact hfold _ h

theorem collect_launches (h : Host) (queue : TicketQueue) (seen ds : List ModulePath) :
    Launches h (h.collect queue seen ds).2.2 := by
  induction ds generalizing h seen with
  | nil => exact .refl h
  | cons d ds ih =>
    rw [collect]
    split
    · exact ih h seen
    · cases queue.lookup d with
      | some t => exact ih h _
      | none => exact (h.ticketOf_launches d).trans (ih _ _)

theorem expand_launches (h : Host) (seen : List ModulePath) (r : ModuleRecord) :
    Launches h (h.expand seen r).2.2 :=
  (Launches.ofQueues h _).trans (collect_launches _ _ _ _)

/-! ### Running ingestions -/

theorem adopt_path {r r' : ModuleRecord} (heq : h.adopt r = (.ok r', h')) : r'.path = r.path := by
  rw [adopt] at heq
  split at heq
  case h_1 hedited =>
    cases heq
    exact ModuleRecord.edited_path hedited
  case h_2 => cases heq

theorem fetch_state (net : Network) (h : Host) (i : Ingestion) :
    (h.fetch net i).2 = { h with requests := h.requests ++ i.asks } := by
  rw [fetch, Ingestion.asks]
  cases i.response with
  | none => rfl
  | some x =>
    dsimp only
    rw [List.append_nil]
    split <;> rfl

theorem settle_spec (h : Host) (p : ModulePath) (outcome : Except HostError ModuleRecord) :
    (h.settle p outcome).2.begun = h.begun ∧ (h.settle p outcome).2.requests = h.requests ∧
      (h.settle p outcome).2.pending = h.pending.filter (·.path != p) := by
  cases outcome <;> exact ⟨rfl, rfl, rfl⟩

/-- The ingestion that ends is the only one of its path. -/
theorem ended_settle {i : Ingestion} (ha : h.Booked) (hi : i ∈ h.pending)
    (outcome : Except HostError ModuleRecord) :
    (h.settle i.path outcome).2.ended.Perm (i :: h.ended) := by
  obtain ⟨hbegun, -, hpending⟩ := h.settle_spec i.path outcome
  have hpaths : (h.begun.map (·.path)).Nodup := ha.begun.nodup_iff.mpr ha.once
  have honce : h.begun.Nodup := hpaths.of_map
  have hnot : i ∉ h.ended := by simp [ended, hi]
  rw [ended, hbegun, hpending]
  refine (List.perm_ext_iff_of_nodup (honce.filter _)
    (List.nodup_cons.mpr ⟨hnot, honce.filter _⟩)).mpr fun j => ?_
  have hsame : j ∈ h.begun → j.path = i.path → j = i :=
    fun hj => List.inj_on_of_nodup_map hpaths hj (ha.pending hi)
  rw [List.mem_cons, ended, List.mem_filter, List.mem_filter]
  constructor
  · rintro ⟨hj, hidle⟩
    by_cases hpath : j.path = i.path
    · exact .inl (hsame hj hpath)
    · exact .inr ⟨hj, by simpa [hpath] using hidle⟩
  · rintro (rfl | ⟨hj, hidle⟩)
    · exact ⟨ha.pending hi, by simp⟩
    · exact ⟨hj, by simp at hidle ⊢; tauto⟩

/-- The path of an ingestion that ends is known from then on as registered or failed. -/
theorem knownPaths_settle {i : Ingestion} (honce : h.knownPaths.Nodup) (hi : i ∈ h.pending)
    {outcome : Except HostError ModuleRecord} (hpath : ∀ r, outcome = .ok r → r.path = i.path) :
    (h.settle i.path outcome).2.knownPaths.Perm h.knownPaths := by
  have hmem : i.path ∈ h.pending.map (·.path) := List.mem_map_of_mem hi
  have hpending : (h.pending.map (·.path)).Perm
      (i.path :: (h.pending.filter (·.path != i.path)).map (·.path)) := by
    have herase := (List.nodup_append'.mp honce).2.1.erase_eq_filter i.path
    rw [List.filter_map] at herase
    have hperm := List.perm_cons_erase hmem
    rwa [herase] at hperm
  cases outcome with
  | error e =>
    rw [knownPaths, knownPaths]
    refine .trans ?_ (hpending.symm.append_left _)
    dsimp only [settle]
    rw [List.map_cons, List.append_assoc, List.append_assoc]
    refine .append_left _ ?_
    exact List.perm_middle.symm
  | ok r =>
    have hpath := hpath r rfl
    rw [← hpath] at hmem hpending ⊢
    have hnew : h.registry.get? r.path = none := by
      refine Registry.get?_eq_none_iff.mpr fun hregistered => ?_
      exact (List.nodup_append'.mp honce).2.2 (List.mem_append_left _ hregistered) hmem
    rw [settle_new hnew, knownPaths, knownPaths, Registry.list, List.map_append]
    refine .trans ?_ (hpending.symm.append_left _)
    rw [List.append_assoc, List.append_assoc, List.append_assoc, List.map_singleton,
      List.singleton_append]
    exact List.perm_middle.symm.append_left _

/-- An ingestion that has asked what it asks ends well or badly. -/
theorem settle_accounted {i : Ingestion} (hb : h.Booked) (hi : i ∈ h.pending)
    (hasked : h.requests.Perm (h.ended.flatMap Ingestion.asks ++ i.asks))
    {outcome : Except HostError ModuleRecord} (hpath : ∀ r, outcome = .ok r → r.path = i.path) :
    (h.settle i.path outcome).2.Accounted := by
  obtain ⟨hbegun, hrequests, hpending⟩ := h.settle_spec i.path outcome
  have hknown := knownPaths_settle hb.once hi hpath
  refine ⟨⟨hknown.nodup_iff.mpr hb.once, ?_, ?_⟩, ?_⟩
  · rw [hbegun]
    exact hb.begun.trans hknown.symm
  · rw [hbegun, hpending]
    exact List.Subset.trans (List.filter_subset_self _) hb.pending
  · rw [hrequests]
    refine hasked.trans (.trans ?_ ((ended_settle hb hi outcome).flatMap_right _).symm)
    rw [List.flatMap_cons]
    exact List.perm_append_comm

/-- An ingestion asks what it asks, begins those of what its record depends on, and ends. -/
theorem ingest_eq_settle (net : Network) (h : Host) (i : Ingestion) :
    ∃ hl outcome, Launches { h with requests := h.requests ++ i.asks } hl ∧
      (∀ r, outcome = .ok r → r.path = i.path) ∧ h.ingest net i = hl.settle i.path outcome := by
  have hstate := fetch_state net h i
  have hends := ingests_ingest net h i
  generalize h.ingest net i = out at hends
  cases hends with
  | unfetched hfetch =>
    rw [hfetch] at hstate
    cases hstate
    exact ⟨_, _, .refl _, (fun r hr => by cases hr), rfl⟩
  | @refused answer hf ha e hfetch hadopt =>
    rw [hfetch] at hstate
    cases hstate
    have hlaunches := adopt_launches { h with requests := h.requests ++ i.asks }
      (readResponse { h with requests := h.requests ++ i.asks } i answer)
    rw [hadopt] at hlaunches
    exact ⟨ha, _, hlaunches, (fun r hr => by cases hr), rfl⟩
  | @registered answer hf ha r hfetch hadopt =>
    rw [hfetch] at hstate
    cases hstate
    have hlaunches := adopt_launches { h with requests := h.requests ++ i.asks }
      (readResponse { h with requests := h.requests ++ i.asks } i answer)
    rw [hadopt] at hlaunches
    refine ⟨ha, _, hlaunches, fun r' hr' => ?_, rfl⟩
    cases hr'
    exact adopt_path hadopt

theorem ingest_accounted (net : Network) (ha : h.Accounted) {i : Ingestion} (hi : i ∈ h.pending) :
    (h.ingest net i).2.Accounted := by
  obtain ⟨hl, outcome, hlaunches, hpath, heq⟩ := ingest_eq_settle net h i
  have hbooked : Booked { h with requests := h.requests ++ i.asks } :=
    ⟨ha.once, ha.begun, ha.pending⟩
  obtain ⟨more, hpending, -⟩ := hlaunches.begun
  rw [heq]
  refine settle_accounted (hlaunches.booked hbooked) ?_ ?_ hpath
  · rw [hpending]
    exact List.mem_append_left _ hi
  · rw [hlaunches.requests, hlaunches.ended_eq hbooked]
    exact ha.asked.append_right _

/-! ### Walks and operations -/

/-- What running a pending ingestion and beginning others preserve, every walk preserves. -/
structure Kept (net : Network) (holds : Host → Prop) : Prop where
  launches {h h' : Host} : holds h → Launches h h' → holds h'
  ingest {h : Host} {i : Ingestion} : holds h → i ∈ h.pending → holds (h.ingest net i).2

namespace Kept

variable {net : Network} {holds : Host → Prop}

theorem redeem (hk : Kept net holds) (hh : holds h) (t : Ticket) : holds (h.redeem net t).2 := by
  have heq : h.redeem net t = ((h.redeem net t).1, (h.redeem net t).2) := rfl
  rcases redeem_cases heq with ⟨hsame, -⟩ | ⟨i, hi, -, hingest⟩
  · rwa [hsame]
  · have hended := hk.ingest hh hi
    rwa [hingest] at hended

theorem follow (hk : Kept net holds) (root : ModulePath) (fuel : Nat) (seen : List ModulePath)
    (ts : List Ticket) (hh : holds h) : holds (Host.follow net root fuel seen ts h).2 := by
  induction fuel generalizing seen ts h with
  | zero => cases ts <;> exact hh
  | succ fuel ih =>
    cases ts with
    | nil => exact hh
    | cons t ts =>
      have hredeemed := hk.redeem hh t
      rw [Host.follow]
      split
      case h_1 heq =>
        rw [heq] at hredeemed
        exact hredeemed
      case h_2 r h₁ heq =>
        rw [heq] at hredeemed
        exact ih _ _ (hk.launches hredeemed (h₁.expand_launches seen r))

theorem close (hk : Kept net holds) (hh : holds h) (r : ModuleRecord) :
    holds (h.close net r).2 := by
  have hwalked := hk.follow r.path (h.expand [r.path] r).2.2.settings.limit
    (h.expand [r.path] r).2.1 (h.expand [r.path] r).1
    (hk.launches hh (h.expand_launches [r.path] r))
  rw [Host.close]
  dsimp only
  split
  case h_1 heq =>
    rw [heq] at hwalked
    exact hwalked
  case h_2 heq =>
    rw [heq] at hwalked
    exact hwalked

theorem addRoot (hk : Kept net holds) (hh : holds h) (path : ModulePath) (url : Url)
    (response : Option Response) : holds (h.addRoot net path url response).2 := by
  have hredeemed := hk.redeem (hk.launches hh (h.ticket_launches ⟨path, url, response⟩))
    (h.ticket ⟨path, url, response⟩).1
  rw [Host.addRoot]
  dsimp only
  split
  case h_1 heq =>
    rw [heq] at hredeemed
    exact hredeemed
  case h_2 r h₁ heq =>
    rw [heq] at hredeemed
    exact hk.close hredeemed r

theorem addLibrary (hk : Kept net holds) (hh : holds h) (name : String) :
    holds (h.addLibrary net name).2 := by
  unfold Host.addLibrary
  dsimp only
  split
  case h_1 => exact hh
  case h_2 url _ => exact hk.addRoot hh (ModulePath.library name) url none

theorem addLibraries (hk : Kept net holds) (hh : holds h) (names : List String) :
    holds (h.addLibraries net names).2 := by
  induction names generalizing h with
  | nil =>
    rw [addLibraries_nil]
    exact hh
  | cons name names ih =>
    have hadded := hk.addLibrary hh name
    rw [addLibraries_cons]
    split
    case h_1 heq =>
      rw [heq] at hadded
      exact hadded
    case h_2 heq =>
      rw [heq] at hadded
      exact ih hadded

end Kept

/-! ### Histories -/

/-- What an operation on a host is asked to do. -/
inductive Operation where
  | addRoot (path : ModulePath) (url : Url) (response : Option Response)
  | addRootUrl (url : Url) (response : Option Response)
  | addLibrary (name : String)
  | addLibraries (names : List String)
  | addOptionLibraries
  | update (path : ModulePath) (text : String)
  | setExtraLibraries (libraries : List ExtraLibrary)

/-- The host after an operation, whatever has come of it. -/
def perform (net : Network) (h : Host) : Operation → Host
  | .addRoot path url response => (h.addRoot net path url response).2
  | .addRootUrl url response => (h.addRootUrl net url response).2
  | .addLibrary name => (h.addLibrary net name).2
  | .addLibraries names => (h.addLibraries net names).2
  | .addOptionLibraries => (h.addOptionLibraries net).2
  | .update path text => (h.update net path text).2
  | .setExtraLibraries libraries => (h.setExtraLibraries libraries).2

/-- Operations one after another, each of them over the network as it is by then. -/
def performAll (h : Host) (history : List (Network × Operation)) : Host :=
  history.foldl (fun h x => h.perform x.1 x.2) h

namespace Kept

variable {net : Network} {holds : Host → Prop}

/-- What replacing a record preserves as well, every update preserves. -/
theorem update (hk : Kept net holds)
    (hreplace : ∀ {h r r' registry}, holds h → h.registry.replace r = .ok (r', registry) →
      holds { h with registry })
    (hh : holds h) (path : ModulePath) (text : String) : holds (h.update net path text).2 := by
  rw [Host.update]
  split
  case h_1 => exact hh
  case h_2 known _ =>
    have hadopted := hk.launches hh (h.adopt_launches
      (.ofText path known.url known.kind text known.response h.settings.read))
    split
    case h_1 heq =>
      rw [heq] at hadopted
      exact hadopted
    case h_2 heq =>
      rw [heq] at hadopted
      split
      case h_1 => exact hadopted
      case h_2 hreplaced => exact hk.close (hreplace hadopted hreplaced) _

/-- And what no library that is handed in changes, every operation preserves. -/
theorem perform (hk : Kept net holds)
    (hreplace : ∀ {h r r' registry}, holds h → h.registry.replace r = .ok (r', registry) →
      holds { h with registry })
    (hextras : ∀ {h : Host} (extraLibraries : List ModuleRecord), holds h →
      holds { h with extraLibraries })
    (hh : holds h) (op : Operation) : holds (h.perform net op) := by
  cases op with
  | addRoot path url response => exact hk.addRoot hh path url response
  | addRootUrl url response => exact hk.addRoot hh _ _ response
  | addLibrary name => exact hk.addLibrary hh name
  | addLibraries names => exact hk.addLibraries hh names
  | addOptionLibraries => exact hk.addLibraries hh _
  | update path text => exact hk.update hreplace hh path text
  | setExtraLibraries libraries =>
    rw [Host.perform, setExtraLibraries]
    split
    · exact hh
    · exact hextras _ hh

end Kept

theorem Accounted.ofRegistry (ha : h.Accounted) {registry : Registry}
    (hlist : registry.list = h.registry.list) : Accounted { h with registry } := by
  have hknown : knownPaths { h with registry } = h.knownPaths := by
    rw [knownPaths, knownPaths, hlist]
  refine ⟨⟨?_, ?_, ha.pending⟩, ha.asked⟩
  · rw [hknown]
    exact ha.once
  · rw [hknown]
    exact ha.begun

/-- All ingestions are accounted for, and those failures, at the least, are known. -/
def Remembers (failures : List (ModulePath × HostError)) (h : Host) : Prop :=
  h.Accounted ∧ failures <:+ h.failures

variable {failures : List (ModulePath × HostError)}

theorem Remembers.kept (net : Network) : Kept net (Remembers failures) where
  launches hr hl := ⟨hl.accounted hr.1, by rw [hl.failures]; exact hr.2⟩
  ingest {h i} hr hi := by
    refine ⟨ingest_accounted net hr.1 hi, ?_⟩
    obtain ⟨hl, outcome, hlaunches, -, heq⟩ := ingest_eq_settle net h i
    rw [heq]
    have hfailures : hl.failures = h.failures := hlaunches.failures
    cases outcome with
    | error e => exact hr.2.trans (by rw [← hfailures]; exact List.suffix_cons _ _)
    | ok r => exact hr.2.trans (by rw [← hfailures]; exact List.suffix_refl _)

theorem Remembers.perform (hr : h.Remembers failures) (net : Network) (op : Operation) :
    (h.perform net op).Remembers failures := by
  refine (Remembers.kept net).perform (fun hr' hreplace => ?_) (fun _ hr' => ?_) hr op
  · obtain ⟨-, hlist, -⟩ := Registry.replace_spec hreplace
    exact ⟨hr'.1.ofRegistry hlist, hr'.2⟩
  · exact ⟨⟨⟨hr'.1.once, hr'.1.begun, hr'.1.pending⟩, hr'.1.asked⟩, hr'.2⟩

theorem Remembers.performAll (hr : h.Remembers failures) (history : List (Network × Operation)) :
    (h.performAll history).Remembers failures := by
  induction history generalizing h with
  | nil => exact hr
  | cons x history ih => exact ih (hr.perform x.1 x.2)

/-! ### Failures -/

theorem Remembers.lookup (hr : h.Remembers failures) {p : ModulePath} {e : HostError}
    (he : failures.lookup p = some e) : h.failures.lookup p = some e := by
  obtain ⟨front, hfront⟩ := hr.2
  have hpaths : (h.failures.map (·.1)).Nodup :=
    (List.nodup_append'.mp (List.nodup_append'.mp hr.1.once).1).2.1
  rw [← hfront, List.map_append] at hpaths
  have hmem : p ∈ failures.map (·.1) := by
    obtain ⟨before, after, hsplit, -⟩ := List.lookup_eq_some_iff.mp he
    rw [hsplit]
    simp
  have hnew : front.lookup p = none := by
    refine List.lookup_eq_none_iff.mpr fun x hx => ?_
    have hne := (List.nodup_append'.mp hpaths).2.2 (List.mem_map_of_mem hx)
    refine bne_iff_ne.mpr fun hpath => ?_
    rw [← hpath] at hne
    exact hne hmem
  rw [← hfront, List.lookup_append, hnew, he, Option.none_or]

/-- A path that has failed is neither pending nor registered. -/
theorem Accounted.not_pending (ha : h.Accounted) {p : ModulePath} {e : HostError}
    (he : h.failures.lookup p = some e) : h.pending.find? (·.path == p) = none := by
  have hmem : p ∈ h.failures.map (·.1) := by
    obtain ⟨before, after, hsplit, -⟩ := List.lookup_eq_some_iff.mp he
    rw [hsplit]
    simp
  refine List.find?_eq_none.mpr fun i hi heq => ?_
  rw [← beq_iff_eq.mp heq] at hmem
  exact (List.nodup_append'.mp ha.once).2.2 (List.mem_append_right _ hmem)
    (List.mem_map_of_mem hi)

/-- Unless a library takes its place, whatever ingests the path is answered by the error, and neither
the network is asked nor anything begun. A dependency whose path makes no address is answered by
that. -/
def Refuses (h : Host) (p : ModulePath) (e : HostError) : Prop :=
  h.extraLibrary? p = none →
    (∀ i : Ingestion, i.path = p → h.ticket i = (.ready (.error e), h)) ∧
      (∀ url, h.urlOf p = .ok url → h.ticketOf p = (.ready (.error e), h)) ∧
      (∀ e', h.urlOf p = .error e' → h.ticketOf p = (.ready (.error e'), h)) ∧
      ∀ net, h.redeem net (.awaited p) = (.error e, h) ∧
        ∀ url response, h.addRoot net p url response = (.error e, h)

theorem Accounted.refuses (ha : h.Accounted) {p : ModulePath} {e : HostError}
    (he : h.failures.lookup p = some e) : h.Refuses p e := by
  intro hextra
  have hticket : ∀ i : Ingestion, i.path = p → h.ticket i = (.ready (.error e), h) := by
    rintro i rfl
    rw [ticket, hextra, he]
  refine ⟨hticket, fun url hurl => ?_, fun e' he' => ?_, fun net => ⟨?_, fun url response => ?_⟩⟩
  · rw [ticketOf, hurl]
    exact hticket _ rfl
  · rw [ticketOf, he']
  · rw [redeem, ha.not_pending he, he]
  · rw [addRoot, hticket _ rfl]
    rfl

/-- Over every history of operations each path is ingested once at most: the paths that are
registered, that have failed and that are pending are those of the ingestions that were begun, no
two of them of one path; the network was asked for each of those that have run and came without an
answer; and a path that has failed stays refused. -/
theorem each_path_ingested_once (settings : HostSettings)
    (history later : List (Network × Operation)) :
    let h := performAll { settings } history
    (h.begun.map (·.path)).Nodup ∧
      (h.begun.map (·.path)).Perm
        (h.registry.list ++ h.failures.map (·.1) ++ h.pending.map (·.path)) ∧
      h.registry.list.Disjoint (h.failures.map (·.1)) ∧
      h.registry.list.Disjoint (h.pending.map (·.path)) ∧
      (h.failures.map (·.1)).Disjoint (h.pending.map (·.path)) ∧
      h.requests.Perm (h.ended.flatMap Ingestion.asks) ∧
      ∀ p e, h.failures.lookup p = some e → (h.performAll later).Refuses p e := by
  intro h
  have hr : h.Remembers [] :=
    Remembers.performAll ⟨accounted_empty settings, List.nil_suffix⟩ history
  have ha := hr.1
  obtain ⟨hends, -, hpending⟩ := List.nodup_append'.mp ha.once
  obtain ⟨hregistered, hfailed⟩ := List.disjoint_append_left.mp hpending
  refine ⟨ha.begun.nodup_iff.mpr ha.once, ha.begun, (List.nodup_append'.mp hends).2.2, hregistered,
    hfailed, ha.asked, fun p e he => ?_⟩
  have hlater : (h.performAll later).Remembers h.failures :=
    Remembers.performAll ⟨ha, List.suffix_refl _⟩ later
  exact hlater.1.refuses (hlater.lookup he)

/-! ### A path without an address -/

/-- A script that imports a path of which no address can be made. -/
def crooked : Network := .ofFiles [("/a.ts", "import '/\\[.ts';\n")]

def crookedPath : ModulePath := ⟨"/\\[.ts"⟩

def crookedSettings : HostSettings :=
  { origin := .ofName "", libBase := .ofName "", read := .ofLines }

/-- The path is asked for under an address of something else, where nothing is. -/
def crookedHistory : List (Network × Operation) :=
  [(crooked, .addRoot crookedPath (.ofName "x.ts") none)]

def crookedHost : Host := performAll { settings := crookedSettings } crookedHistory

/-- `each_path_ingested_once` for the path, and a script that imports it later. -/
theorem crooked_ingested_once :
    crookedHost.failures.map (·.1) = [crookedPath] ∧
      crookedHost.begun.map (·.path) = [crookedPath] ∧
      (crookedHost.failures.map (·.1)).Disjoint (crookedHost.pending.map (·.path)) ∧
      ∀ e, crookedHost.failures.lookup crookedPath = some e →
        (crookedHost.performAll [(crooked, .addRootUrl (.ofName "a.ts") none)]).Refuses
          crookedPath e := by
  obtain ⟨-, -, -, -, hapart, -, hrefused⟩ := each_path_ingested_once crookedSettings
    crookedHistory [(crooked, .addRootUrl (.ofName "a.ts") none)]
  exact ⟨by decide +kernel, by decide +kernel, hapart, hrefused crookedPath⟩

/-- A path that has failed is not answered by the same error whatever ingests it: where no address
can be made of the path, that is the error of what depends on it. -/
theorem failed_path_unlocated :
    ∃ e reason, crookedHost.failures.lookup crookedPath = some (.fetch e) ∧
      crookedHost.extraLibrary? crookedPath = none ∧
      (crookedHost.addRootUrl crooked (.ofName "a.ts")).1 =
        .error (.unlocated crookedPath reason) := by
  have hfailed : (crookedHost.failures.lookup crookedPath).any fun e =>
      match e with
      | .fetch _ => true
      | _ => false := by decide +kernel
  have hrun : (match (crookedHost.addRootUrl crooked (.ofName "a.ts")).1 with
      | .error (.unlocated p _) => p == crookedPath
      | _ => false) = true := by decide +kernel
  obtain ⟨failed, hlookup, hfetch⟩ := (Option.any_eq_true _ _).mp hfailed
  cases failed with
  | fetch e =>
    split at hrun
    case h_1 p reason hrun' =>
      refine ⟨e, reason, hlookup, by decide +kernel, ?_⟩
      rw [hrun', beq_iff_eq.mp hrun]
    case h_2 => cases hrun
  | _ => cases hfetch

end

end Host

end CompilingProxy
