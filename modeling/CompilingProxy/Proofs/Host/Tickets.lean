import CompilingProxy.Host.Basic
import CompilingProxy.Proofs.Module.Registry

/-!
# Tickets

What a ticket says of its path, and what making and filing tickets leaves as it is: ingestions are
begun, and nothing else happens but to the queues.
-/

namespace CompilingProxy.Host

/-- The path stands for the record. -/
def Holds (h : Host) (p : ModulePath) (r : ModuleRecord) : Prop :=
  h.extraLibrary? p = some r ∨ h.registry.get? p = some r

/-- The ingestion of the path was begun, and its end, if it has one, is on record. -/
def Underway (h : Host) (p : ModulePath) : Prop :=
  (∃ i ∈ h.pending, i.path = p) ∨ (h.failures.lookup p).isSome ∨
    ∃ r, h.ingested.find? (·.path == p) = some r ∧ h.registry.get? p = some r

/-- The ticket is one of the path. -/
def Stands (h : Host) (p : ModulePath) : Ticket → Prop
  | .ready (.ok r) => r.path = p ∧ h.Holds p r
  | .ready (.error _) => True
  | .awaited q => q = p ∧ h.Underway p

/-- Every filed ticket is one of the dependency that it is filed for. -/
def Queued (h : Host) : Prop := ∀ e ∈ h.queues, ∀ d ∈ e.2, h.Stands d.1 d.2

/-- What every host is like, whatever was asked of it. -/
structure Sound (h : Host) : Prop where
  nodup : h.registry.list.Nodup
  unregistered : ∀ i ∈ h.pending, h.registry.get? i.path = none
  ingested : ∀ r ∈ h.ingested, (h.registry.get? r.path).isSome

/-- What is known of modules grows. -/
structure Grows (h h' : Host) : Prop where
  settings : h'.settings = h.settings
  extras : h'.extraLibraries = h.extraLibraries
  memo : h'.memo = h.memo
  records : ∃ more, h'.registry.records = h.registry.records ++ more
  underway : ∀ p, h.Underway p → h'.Underway p

/-- The ingestion is one of a dependency, which is fetched from where it belongs. -/
def Wants (settings : HostSettings) (ds : List ModulePath) (i : Ingestion) : Prop :=
  i.path ∈ ds ∧ i.response = none ∧ urlOf { settings } i.path = .ok i.url

/-- Ingestions of the kind are begun, and nothing else is known then that was not known. -/
structure Begins (kind : Ingestion → Prop) (h h' : Host) : Prop where
  settings : h'.settings = h.settings
  extras : h'.extraLibraries = h.extraLibraries
  memo : h'.memo = h.memo
  registry : h'.registry = h.registry
  failures : h'.failures = h.failures
  ingested : h'.ingested = h.ingested
  pending : ∃ more, h'.pending = h.pending ++ more ∧
    ∀ i ∈ more, kind i ∧ h.registry.get? i.path = none

theorem sound_empty (settings : HostSettings) : Sound { settings } :=
  ⟨List.nodup_nil, by simp, by simp⟩

theorem queued_empty (settings : HostSettings) : Queued { settings } := by simp [Queued]

/-! ### Growth -/

namespace Grows

variable {h h' h'' : Host}

theorem refl (h : Host) : Grows h h :=
  ⟨rfl, rfl, rfl, ⟨[], (List.append_nil _).symm⟩, fun _ => id⟩

theorem trans (h₁ : Grows h h') (h₂ : Grows h' h'') : Grows h h'' := by
  obtain ⟨more₁, hmore₁⟩ := h₁.records
  obtain ⟨more₂, hmore₂⟩ := h₂.records
  refine ⟨h₂.settings.trans h₁.settings, h₂.extras.trans h₁.extras, h₂.memo.trans h₁.memo,
    ⟨more₁ ++ more₂, ?_⟩, fun p hp => h₂.underway p (h₁.underway p hp)⟩
  rw [hmore₂, hmore₁, List.append_assoc]

theorem get? (hg : Grows h h') {p : ModulePath} {r : ModuleRecord}
    (hr : h.registry.get? p = some r) : h'.registry.get? p = some r := by
  obtain ⟨more, hmore⟩ := hg.records
  have hkept : Registry.get? ⟨h.registry.records ++ more⟩ p = some r := Registry.get?_append hr
  rwa [← hmore] at hkept

theorem extraLibrary? (hg : Grows h h') (p : ModulePath) :
    h'.extraLibrary? p = h.extraLibrary? p := by
  rw [Host.extraLibrary?, hg.extras, ← Host.extraLibrary?]

theorem holds (hg : Grows h h') {p : ModulePath} {r : ModuleRecord} (hr : h.Holds p r) :
    h'.Holds p r := by
  rcases hr with hr | hr
  · exact .inl (by rw [hg.extraLibrary?, hr])
  · exact .inr (hg.get? hr)

theorem stands (hg : Grows h h') {p : ModulePath} {t : Ticket} (ht : h.Stands p t) :
    h'.Stands p t := by
  cases t with
  | ready outcome =>
    cases outcome with
    | error e => trivial
    | ok r => exact ⟨ht.1, hg.holds ht.2⟩
  | awaited q => exact ⟨ht.1, hg.underway p ht.2⟩

theorem queued (hg : Grows h h') (hq : h.Queued) (hqueues : h'.queues = h.queues) :
    h'.Queued := by
  intro e he d hd
  rw [hqueues] at he
  exact hg.stands (hq e he d hd)

end Grows

namespace Begins

variable {h h' h'' : Host} {kind kind' : Ingestion → Prop}

theorem refl (kind : Ingestion → Prop) (h : Host) : Begins kind h h :=
  ⟨rfl, rfl, rfl, rfl, rfl, rfl, ⟨[], (List.append_nil _).symm, by simp⟩⟩

theorem trans (h₁ : Begins kind h h') (h₂ : Begins kind h' h'') : Begins kind h h'' := by
  obtain ⟨more₁, hmore₁, hall₁⟩ := h₁.pending
  obtain ⟨more₂, hmore₂, hall₂⟩ := h₂.pending
  refine ⟨h₂.settings.trans h₁.settings, h₂.extras.trans h₁.extras, h₂.memo.trans h₁.memo,
    h₂.registry.trans h₁.registry, h₂.failures.trans h₁.failures,
    h₂.ingested.trans h₁.ingested, more₁ ++ more₂, ?_, fun i hi => ?_⟩
  · rw [hmore₂, hmore₁, List.append_assoc]
  · rcases List.mem_append.mp hi with hi | hi
    · exact hall₁ i hi
    · rw [← h₁.registry]
      exact hall₂ i hi

theorem mono (hb : Begins kind h h') (hkind : ∀ i, kind i → kind' i) : Begins kind' h h' := by
  obtain ⟨more, hmore, hall⟩ := hb.pending
  exact { hb with pending := ⟨more, hmore, fun i hi => ⟨hkind i (hall i hi).1, (hall i hi).2⟩⟩ }

theorem underway (hb : Begins kind h h') {p : ModulePath} (hp : h.Underway p) :
    h'.Underway p := by
  obtain ⟨more, hmore, -⟩ := hb.pending
  rcases hp with ⟨i, hi, hpath⟩ | hfailed | ⟨r, hingested, hregistered⟩
  · exact .inl ⟨i, by rw [hmore]; exact List.mem_append_left _ hi, hpath⟩
  · exact .inr (.inl (by rwa [hb.failures]))
  · exact .inr (.inr ⟨r, by rwa [hb.ingested], by rwa [hb.registry]⟩)

theorem grows (hb : Begins kind h h') : Grows h h' :=
  ⟨hb.settings, hb.extras, hb.memo, ⟨[], by rw [hb.registry, List.append_nil]⟩,
    fun _ => hb.underway⟩

theorem sound (hb : Begins kind h h') (hs : h.Sound) : h'.Sound := by
  obtain ⟨more, hmore, hall⟩ := hb.pending
  refine ⟨by rw [hb.registry]; exact hs.nodup, fun i hi => ?_, fun r hr => ?_⟩
  · rw [hb.registry]
    rw [hmore] at hi
    rcases List.mem_append.mp hi with hi | hi
    · exact hs.unregistered i hi
    · exact (hall i hi).2
  · rw [hb.registry]
    rw [hb.ingested] at hr
    exact hs.ingested r hr

/-- What is wanted of some dependencies may be wanted of more of them. -/
theorem wants {settings : HostSettings} {ds es : List ModulePath}
    (hb : Begins (Wants settings ds) h h') (hsub : ds ⊆ es) : Begins (Wants settings es) h h' :=
  hb.mono fun _ hi => ⟨hsub hi.1, hi.2⟩

end Begins

/-! ### Making tickets -/

theorem ticket_spec (h : Host) (i : Ingestion) :
    Begins (· = i) h (h.ticket i).2 ∧ (h.ticket i).2.queues = h.queues ∧
      (h.ticket i).2.Stands i.path (h.ticket i).1 := by
  rw [ticket]
  split
  case h_1 r hextra =>
    have hpath : r.path = i.path := by simpa using List.find?_some hextra
    exact ⟨.refl _ h, rfl, hpath, .inl hextra⟩
  case h_2 =>
    split
    case h_1 => exact ⟨.refl _ h, rfl, trivial⟩
    case h_2 =>
      split
      case h_1 r hr => exact ⟨.refl _ h, rfl, Registry.path_of_get? hr, .inr hr⟩
      case h_2 hnone =>
        split
        case isTrue hpending =>
          obtain ⟨j, hj, hpath⟩ := List.any_eq_true.mp hpending
          exact ⟨.refl _ h, rfl, rfl, .inl ⟨j, hj, beq_iff_eq.mp hpath⟩⟩
        case isFalse =>
          refine ⟨⟨rfl, rfl, rfl, rfl, rfl, rfl, [i], rfl, fun j hj => ?_⟩, rfl, rfl, ?_⟩
          · rw [List.mem_singleton.mp hj]
            exact ⟨rfl, hnone⟩
          · exact .inl ⟨i, by simp, rfl⟩

theorem ticketOf_spec (h : Host) (p : ModulePath) :
    Begins (Wants h.settings [p]) h (h.ticketOf p).2 ∧ (h.ticketOf p).2.queues = h.queues ∧
      (h.ticketOf p).2.Stands p (h.ticketOf p).1 := by
  rw [ticketOf]
  split
  case h_1 url hurl =>
    obtain ⟨hbegins, hrest⟩ := h.ticket_spec ⟨p, url, none⟩
    refine ⟨hbegins.mono fun i hi => ?_, hrest⟩
    rw [hi]
    exact ⟨List.mem_cons_self, rfl, hurl⟩
  case h_2 => exact ⟨.refl _ h, rfl, trivial⟩

/-! ### Filing tickets -/

theorem mem_queues_of_lookup {h : Host} {p d : ModulePath} {t : Ticket}
    (ht : (d, t) ∈ h.queueOf p) : ∃ e ∈ h.queues, (d, t) ∈ e.2 := by
  rw [queueOf] at ht
  cases hqueue : h.queues.lookup p with
  | none => simp [hqueue] at ht
  | some queue =>
    obtain ⟨_, _, hqueues, -⟩ := List.lookup_eq_some_iff.mp hqueue
    rw [hqueue] at ht
    exact ⟨(p, queue), by simp [hqueues], ht⟩

theorem queued_putTicket {h : Host} (hq : h.Queued) {p d : ModulePath} {t : Ticket}
    (ht : h.Stands d t) : (h.putTicket p d t).Queued := by
  have hstands : ∀ q s, h.Stands q s → (h.putTicket p d t).Stands q s := fun q s hs => hs
  intro e he x hx
  apply hstands
  rw [putTicket] at he
  rcases List.mem_cons.mp he with rfl | he
  · have hqueue : ∀ y ∈ h.queueOf p, h.Stands y.1 y.2 := by
      intro y hy
      obtain ⟨e, he, hmem⟩ := mem_queues_of_lookup hy
      exact hq e he y hmem
    dsimp only at hx
    split at hx
    · exact hqueue x hx
    · rcases List.mem_append.mp hx with hx | hx
      · exact hqueue x hx
      · rw [List.mem_singleton.mp hx]
        exact ht
  · exact hq e (List.mem_filter.mp he).1 x hx

theorem putTicket_begins (kind : Ingestion → Prop) (h : Host) (p d : ModulePath) (t : Ticket) :
    Begins kind h (h.putTicket p d t) :=
  ⟨rfl, rfl, rfl, rfl, rfl, rfl, [], (List.append_nil _).symm, by simp⟩

theorem file_spec {h : Host} (hq : h.Queued) (p d : ModulePath) :
    Begins (Wants h.settings [d]) h (h.file p d) ∧ (h.file p d).Queued := by
  rw [file]
  split
  case isTrue => exact ⟨.refl _ h, hq⟩
  case isFalse =>
    obtain ⟨hbegins, hqueues, hstands⟩ := h.ticketOf_spec d
    have hqueued := hbegins.grows.queued hq hqueues
    exact ⟨hbegins.trans (putTicket_begins _ _ p d _), queued_putTicket hqueued hstands⟩

theorem foldl_file_spec {h : Host} (hq : h.Queued) (p : ModulePath) (met : List Dependency) :
    Begins (Wants h.settings (met.map (·.path))) h (met.foldl (fun h x => h.file p x.path) h) ∧
      (met.foldl (fun h x => h.file p x.path) h).Queued := by
  induction met generalizing h with
  | nil => exact ⟨.refl _ h, hq⟩
  | cons x met ih =>
    obtain ⟨hfirst, hqueued⟩ := file_spec hq p x.path
    obtain ⟨hrest, hqueued'⟩ := ih hqueued
    rw [hfirst.settings] at hrest
    rw [List.foldl_cons]
    exact ⟨(hfirst.wants (by simp)).trans (hrest.wants (by simp)), hqueued'⟩

/-- Adopting a record begins ingestions of what it depends on. -/
theorem adopt_spec {h : Host} (hq : h.Queued) (r : ModuleRecord) :
    Begins (Wants h.settings r.discover.paths) h (h.adopt r).2 ∧ (h.adopt r).2.Queued ∧
      ∀ r', (h.adopt r).1 = .ok r' → r'.path = r.path ∧ r'.dependencies = r.discover.paths := by
  obtain ⟨hbegins, hqueued⟩ := foldl_file_spec hq r.path r.discover.met
  have hsub : r.discover.met.map (·.path) ⊆ r.discover.paths := by
    intro p hp
    obtain ⟨x, hx, hpath⟩ := List.mem_map.mp hp
    exact Discovery.mem_paths_iff.mpr ⟨x, hx, hpath⟩
  rw [adopt]
  split
  case h_1 r' hr' =>
    refine ⟨hbegins.wants hsub, hqueued, fun r'' heq => ?_⟩
    cases heq
    exact ⟨ModuleRecord.edited_path hr', ModuleRecord.edited_dependencies hr'⟩
  case h_2 => exact ⟨hbegins.wants hsub, hqueued, fun r'' heq => by cases heq⟩

/-! ### Taking tickets -/

theorem collect_spec {h : Host} {queue : TicketQueue}
    (hqueue : ∀ d ∈ queue, h.Stands d.1 d.2) (seen ds : List ModulePath) :
    ∀ ts seen' h', h.collect queue seen ds = (ts, seen', h') →
      Begins (Wants h.settings ds) h h' ∧ h'.queues = h.queues ∧
        (∀ p, p ∈ seen' ↔ p ∈ seen ∨ p ∈ ds) ∧
        (∀ t ∈ ts, ∃ p, h'.Stands p t) ∧
        ∀ p ∈ seen', p ∈ seen ∨ ∃ t ∈ ts, h'.Stands p t := by
  induction ds generalizing h seen with
  | nil =>
    intro ts seen' h' heq
    rw [collect] at heq
    cases heq
    exact ⟨.refl _ h, rfl, by simp, by simp, fun p hp => .inl hp⟩
  | cons d ds ih =>
    intro ts seen' h' heq
    rw [collect] at heq
    split at heq
    case isTrue hseen =>
      obtain ⟨hbegins, hqueues, hmem, hstand, hcover⟩ := ih hqueue seen ts seen' h' heq
      refine ⟨hbegins.wants (List.subset_cons_self _ _), hqueues, fun p => ?_, hstand, hcover⟩
      have hd : d ∈ seen := by simpa using hseen
      rw [hmem, List.mem_cons]
      constructor
      · rintro (hp | hp)
        · exact .inl hp
        · exact .inr (.inr hp)
      · rintro (hp | rfl | hp)
        · exact .inl hp
        · exact .inl hd
        · exact .inr hp
    case isFalse hseen =>
      obtain ⟨t, h₁, hfirst, hqueues₁, ht, heq⟩ : ∃ t h₁,
          Begins (Wants h.settings [d]) h h₁ ∧ h₁.queues = h.queues ∧ h₁.Stands d t ∧
          (t :: (h₁.collect queue (d :: seen) ds).1, (h₁.collect queue (d :: seen) ds).2) =
            (ts, seen', h') := by
        cases hlookup : queue.lookup d with
        | some t =>
          obtain ⟨_, _, hmem, -⟩ := List.lookup_eq_some_iff.mp hlookup
          rw [hlookup] at heq
          exact ⟨t, h, .refl _ h, rfl, hqueue (d, t) (by simp [hmem]), heq⟩
        | none =>
          rw [hlookup] at heq
          obtain ⟨hbegins, hqueues, hstands⟩ := h.ticketOf_spec d
          exact ⟨_, _, hbegins, hqueues, hstands, heq⟩
      rw [Prod.mk.injEq] at heq
      obtain ⟨rfl, hrest⟩ := heq
      obtain ⟨hbegins, hqueues, hmem, hstand, hcover⟩ :=
        ih (fun x hx => hfirst.grows.stands (hqueue x hx)) (d :: seen) _ seen' h'
          (Prod.ext rfl hrest)
      have ht' := hbegins.grows.stands ht
      rw [hfirst.settings] at hbegins
      refine ⟨(hfirst.wants (by simp)).trans (hbegins.wants (List.subset_cons_self _ _)),
        hqueues.trans hqueues₁, fun p => ?_, fun s hs => ?_, fun p hp => ?_⟩
      · rw [hmem, List.mem_cons, List.mem_cons, or_comm (a := p = d), or_assoc]
      · rcases List.mem_cons.mp hs with rfl | hs
        · exact ⟨d, ht'⟩
        · exact hstand s hs
      · rcases hcover p hp with hp | ⟨s, hs, hstands⟩
        · rcases List.mem_cons.mp hp with rfl | hp
          · exact .inr ⟨t, List.mem_cons_self, ht'⟩
          · exact .inl hp
        · exact .inr ⟨s, List.mem_cons_of_mem _ hs, hstands⟩

/-- Expanding a module makes tickets of all that it depends on and that was not met before. -/
theorem expand_spec {h : Host} (hq : h.Queued) {seen : List ModulePath} {r : ModuleRecord}
    {ts : List Ticket} {seen' : List ModulePath} {h' : Host}
    (heq : h.expand seen r = (ts, seen', h')) :
    Begins (Wants h.settings r.dependencies) h h' ∧ h'.Queued ∧
      h'.queues = h.queues.filter (·.1 != r.path) ∧
      (∀ p, p ∈ seen' ↔ p ∈ seen ∨ p ∈ r.dependencies) ∧ (∀ t ∈ ts, ∃ p, h'.Stands p t) ∧
      ∀ p ∈ seen', p ∈ seen ∨ ∃ t ∈ ts, h'.Stands p t := by
  have hqueue : ∀ d ∈ h.queueOf r.path, h.Stands d.1 d.2 := by
    intro d hd
    obtain ⟨e, he, hmem⟩ := mem_queues_of_lookup hd
    exact hq e he d hmem
  rw [expand] at heq
  obtain ⟨hbegins, hqueues, hmem, hstand, hcover⟩ :=
    collect_spec (h := { h with queues := h.queues.filter (·.1 != r.path) }) hqueue seen
      r.dependencies ts seen' h' heq
  have hbegins' : Begins (Wants h.settings r.dependencies) h h' := { hbegins with }
  refine ⟨hbegins', fun e he d hd => ?_, hqueues, hmem, hstand, hcover⟩
  rw [hqueues] at he
  exact hbegins'.grows.stands (hq e (List.mem_filter.mp he).1 d hd)

end CompilingProxy.Host
