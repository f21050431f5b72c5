import CompilingProxy.Proofs.Host.Tickets

/-!
# Closures

A walk that ends well leaves a set of paths that holds the root and, for each of its paths, all that
the path's module depends on. What was known of modules before is known still.
-/

namespace CompilingProxy.Host

/-- Each of the paths stands for a module that depends on no other paths than these. -/
def Closed (h : Host) (paths : List ModulePath) : Prop :=
  ∀ p ∈ paths, ∃ r, h.Holds p r ∧ r.dependencies ⊆ paths

theorem Closed.grows {h h' : Host} {paths : List ModulePath} (hc : h.Closed paths)
    (hg : Grows h h') : h'.Closed paths := by
  intro p hp
  obtain ⟨r, hr, hsub⟩ := hc p hp
  exact ⟨r, hg.holds hr, hsub⟩

/-! ### Ingestion -/

section

variable {h h' : Host} {p : ModulePath}

/-- An ingestion that fails leaves the failure behind. -/
theorem settle_error (hs : h.Sound) (hq : h.Queued) (e : HostError) :
    Grows h (h.settle p (.error e)).2 ∧ (h.settle p (.error e)).2.Sound ∧
      (h.settle p (.error e)).2.Queued := by
  have hgrows : Grows h (h.settle p (.error e)).2 := by
    refine ⟨rfl, rfl, rfl, ⟨[], (List.append_nil _).symm⟩, fun q hq => ?_⟩
    rcases hq with ⟨i, hi, hpath⟩ | hfailed | hended
    · by_cases heq : q = p
      · refine .inr (.inl ?_)
        simp [settle, heq]
      · exact .inl ⟨i, by simpa [settle, hpath, heq] using hi, hpath⟩
    · refine .inr (.inl ?_)
      simp only [settle, List.lookup_cons]
      split
      · rfl
      · exact hfailed
    · exact .inr (.inr hended)
  refine ⟨hgrows, ⟨hs.nodup, fun i hi => ?_, hs.ingested⟩, hgrows.queued hq rfl⟩
  exact hs.unregistered i (List.mem_filter.mp hi).1

/-- What an ingestion that ends well leaves, if its path is not registered. -/
theorem settle_new {r : ModuleRecord} (hnew : h.registry.get? r.path = none) :
    h.settle r.path (.ok r) = (.ok r, { h with
      pending := h.pending.filter (·.path != r.path),
      registry := ⟨h.registry.records ++ [r]⟩, ingested := h.ingested ++ [r] }) := by
  rw [settle]
  simp only [Registry.register_new hnew]

/-- An ingestion that ends well adds its record to those that are known. -/
theorem settle_ok (hs : h.Sound) (hq : h.Queued) {r : ModuleRecord} (hpath : r.path = p)
    (hnew : h.registry.get? p = none) :
    Grows h (h.settle p (.ok r)).2 ∧ (h.settle p (.ok r)).2.Sound ∧
      (h.settle p (.ok r)).2.Queued ∧ (h.settle p (.ok r)).1 = .ok r ∧
      (h.settle p (.ok r)).2.registry.records = h.registry.records ++ [r] ∧
      (h.settle p (.ok r)).2.pending = h.pending.filter (·.path != p) ∧
      (h.settle p (.ok r)).2.queues = h.queues := by
  subst hpath
  rw [settle_new hnew]
  have hnone : h.ingested.find? (·.path == r.path) = none := by
    refine List.find?_eq_none.mpr fun q hq heq => ?_
    have hknown := hs.ingested q hq
    rw [beq_iff_eq.mp heq, hnew] at hknown
    cases hknown
  have hrecorded := Registry.get?_append_new hnew
  have hgrows : Grows h { h with
      pending := h.pending.filter (·.path != r.path),
      registry := ⟨h.registry.records ++ [r]⟩, ingested := h.ingested ++ [r] } := by
    refine ⟨rfl, rfl, rfl, ⟨[r], rfl⟩, fun q hq => ?_⟩
    rcases hq with ⟨i, hi, hpath⟩ | hfailed | ⟨known, hended, hregistered⟩
    · by_cases heq : q = r.path
      · subst heq
        refine .inr (.inr ⟨r, ?_, hrecorded⟩)
        rw [List.find?_append, hnone]
        simp
      · exact .inl ⟨i, by simpa [hpath, heq] using hi, hpath⟩
    · exact .inr (.inl hfailed)
    · refine .inr (.inr ⟨known, ?_, Registry.get?_append hregistered⟩)
      rw [List.find?_append, hended, Option.some_or]
  refine ⟨hgrows, ⟨?_, fun i hi => ?_, fun q hq => ?_⟩, hgrows.queued hq rfl, rfl, rfl, rfl, rfl⟩
  · rw [Registry.list, List.map_append, List.map_singleton, List.nodup_append]
    refine ⟨hs.nodup, by simp, fun q hq s hs heq => ?_⟩
    rw [List.mem_singleton.mp hs] at heq
    exact Registry.get?_eq_none_iff.mp hnew (heq ▸ hq)
  · obtain ⟨hi, hne⟩ := List.mem_filter.mp hi
    have hold := hs.unregistered i hi
    rw [Registry.get?_eq_none_iff] at hold ⊢
    rw [Registry.list, List.map_append, List.map_singleton, List.mem_append, List.mem_singleton]
    rintro (hmem | hmem)
    · exact hold hmem
    · simp [hmem] at hne
  · rcases List.mem_append.mp hq with hq | hq
    · obtain ⟨known, hknown⟩ := Option.isSome_iff_exists.mp (hs.ingested q hq)
      rw [Registry.get?_append hknown]
      rfl
    · rw [List.mem_singleton.mp hq, hrecorded]
      rfl

/-- Fetching asks the network and does nothing else. -/
theorem fetch_begins (kind : Ingestion → Prop) (net : Network) (h : Host) (i : Ingestion) :
    Begins kind h (h.fetch net i).2 ∧ (h.fetch net i).2.queues = h.queues := by
  rw [fetch]
  have hrefl := Begins.refl kind h
  split
  · split
    · exact ⟨hrefl, rfl⟩
    · exact ⟨hrefl, rfl⟩
  · exact ⟨{ hrefl with }, rfl⟩

/-- How an ingestion ends: its source cannot be fetched, its specifiers cannot be written, or there
is a record of it. -/
inductive Ingests (net : Network) (h : Host) (i : Ingestion) :
    Except HostError ModuleRecord × Host → Prop
  | unfetched {e : FetchError} {hf : Host} (hfetch : h.fetch net i = (.error e, hf)) :
      Ingests net h i (hf.settle i.path (.error (.fetch e)))
  | refused {answer : Response} {hf ha : Host} {e : HostError}
      (hfetch : h.fetch net i = (.ok answer, hf))
      (hadopt : hf.adopt (hf.readResponse i answer) = (.error e, ha)) :
      Ingests net h i (ha.settle i.path (.error e))
  | registered {answer : Response} {hf ha : Host} {r : ModuleRecord}
      (hfetch : h.fetch net i = (.ok answer, hf))
      (hadopt : hf.adopt (hf.readResponse i answer) = (.ok r, ha)) :
      Ingests net h i (ha.settle i.path (.ok r))

theorem ingests_ingest (net : Network) (h : Host) (i : Ingestion) :
    Ingests net h i (h.ingest net i) := by
  rw [ingest]
  cases hfetch : h.fetch net i with
  | mk answer hf =>
    cases answer with
    | error e => exact .unfetched hfetch
    | ok answer =>
      dsimp only
      cases hadopt : hf.adopt (hf.readResponse i answer) with
      | mk outcome ha =>
        cases outcome with
        | error e => exact .refused hfetch hadopt
        | ok r => exact .registered hfetch hadopt

/-- An ingestion fails, or it begins those of what its record depends on and adds the record. -/
theorem ingest_cases (net : Network) (hs : h.Sound) (hq : h.Queued) (i : Ingestion) :
    ∃ ds hb, Begins (Wants h.settings ds) h hb ∧ hb.Sound ∧ hb.Queued ∧
      ((∃ e, h.ingest net i = hb.settle i.path (.error e)) ∨
        ∃ r, r.path = i.path ∧ ds = r.dependencies ∧
          h.ingest net i = hb.settle i.path (.ok r)) := by
  have hfetched := fun ds => (fetch_begins (Wants h.settings ds) net h i).1
  have hqueued := (hfetched []).grows.queued hq (fetch_begins (fun _ => False) net h i).2
  have hends := ingests_ingest net h i
  generalize h.ingest net i = out at hends
  cases hends with
  | unfetched hfetch =>
    rw [hfetch] at hfetched hqueued
    exact ⟨[], _, hfetched [], (hfetched []).sound hs, hqueued, .inl ⟨_, rfl⟩⟩
  | @refused answer hf ha e hfetch hadopt =>
    rw [hfetch] at hfetched hqueued
    obtain ⟨hbegins, hqueued', -⟩ := adopt_spec hqueued (hf.readResponse i answer)
    rw [hadopt] at hbegins hqueued'
    rw [(hfetched []).settings] at hbegins
    have hbegins' := (hfetched _).trans hbegins
    exact ⟨_, ha, hbegins', hbegins'.sound hs, hqueued', .inl ⟨e, rfl⟩⟩
  | @registered answer hf ha r hfetch hadopt =>
    rw [hfetch] at hfetched hqueued
    obtain ⟨hbegins, hqueued', hok⟩ := adopt_spec hqueued (hf.readResponse i answer)
    rw [hadopt] at hbegins hqueued' hok
    rw [(hfetched []).settings] at hbegins
    have hbegins' := (hfetched _).trans hbegins
    obtain ⟨hpath, hdeps⟩ := hok r rfl
    exact ⟨_, ha, hbegins', hbegins'.sound hs, hqueued', .inr ⟨r, hpath, hdeps.symm, rfl⟩⟩

theorem ingest_spec {net : Network} (hs : h.Sound) (hq : h.Queued) {i : Ingestion}
    (hi : i ∈ h.pending) {outcome : Except HostError ModuleRecord}
    (heq : h.ingest net i = (outcome, h')) :
    Grows h h' ∧ h'.Sound ∧ h'.Queued ∧
      ∀ r, outcome = .ok r → r.path = i.path ∧ h'.registry.get? i.path = some r := by
  obtain ⟨ds, hb, hbegins, hsound, hqueued, ⟨e, he⟩ | ⟨r, hr, -, hok⟩⟩ := ingest_cases net hs hq i
  · obtain ⟨hgrows, hsound', hqueued'⟩ := settle_error (p := i.path) hsound hqueued e
    rw [← he, heq] at hgrows hsound' hqueued'
    refine ⟨hbegins.grows.trans hgrows, hsound', hqueued', fun r hr => ?_⟩
    rw [heq] at he
    cases (congrArg Prod.fst he).symm.trans hr
  · have hnew : hb.registry.get? i.path = none := by
      rw [hbegins.registry]
      exact hs.unregistered i hi
    obtain ⟨hgrows, hsound', hqueued', hfst, hrecords, -⟩ := settle_ok hsound hqueued hr hnew
    rw [← hok, heq] at hgrows hsound' hqueued' hfst hrecords
    refine ⟨hbegins.grows.trans hgrows, hsound', hqueued', fun r' hr' => ?_⟩
    cases hfst.symm.trans hr'
    have hknown := Registry.get?_append_new (hr ▸ hnew)
    rw [← hrecords, hr] at hknown
    exact ⟨hr, hknown⟩

/-- Redeeming a ticket runs the ingestion that it waits for, or tells what is known already. -/
theorem redeem_cases {net : Network} {t : Ticket} {outcome : Except HostError ModuleRecord}
    (heq : h.redeem net t = (outcome, h')) :
    (h' = h ∧ ∀ p r, outcome = .ok r → h.Stands p t → r.path = p ∧ h.Holds p r) ∨
      ∃ i ∈ h.pending, t = .awaited i.path ∧ h.ingest net i = (outcome, h') := by
  cases t with
  | ready known =>
    cases heq
    refine .inl ⟨rfl, fun p r hr ht => ?_⟩
    rw [hr] at ht
    exact ht
  | awaited q =>
    rw [redeem] at heq
    cases hfind : h.pending.find? (·.path == q) with
    | some i =>
      have hpath : i.path = q := by simpa using List.find?_some hfind
      rw [hfind] at heq
      exact .inr ⟨i, List.mem_of_find?_eq_some hfind, by rw [hpath], heq⟩
    | none =>
      rw [hfind] at heq
      dsimp only at heq
      split at heq
      case h_1 =>
        cases heq
        exact .inl ⟨rfl, fun p r hr => by cases hr⟩
      case h_2 r hfailed hended =>
        cases heq
        refine .inl ⟨rfl, fun p r' hr' ht => ?_⟩
        cases hr'
        obtain ⟨rfl, ⟨i, hi, hpath⟩ | hfail | ⟨known, hknown, hregistered⟩⟩ := ht
        · simpa [hpath] using List.find?_eq_none.mp hfind i hi
        · rw [hfailed] at hfail
          cases hfail
        · cases hended.symm.trans hknown
          exact ⟨Registry.path_of_get? hregistered, .inr hregistered⟩
      case h_3 =>
        cases heq
        exact .inl ⟨rfl, fun p r hr => by cases hr⟩

/-- Redeeming a ticket that is one of a path ends in a record that the path stands for. -/
theorem redeem_spec {net : Network} (hs : h.Sound) (hq : h.Queued) {t : Ticket}
    {outcome : Except HostError ModuleRecord} (heq : h.redeem net t = (outcome, h')) :
    Grows h h' ∧ h'.Sound ∧ h'.Queued ∧
      ∀ p r, outcome = .ok r → h.Stands p t → r.path = p ∧ h'.Holds p r := by
  rcases redeem_cases heq with ⟨rfl, hknown⟩ | ⟨i, hi, rfl, hingest⟩
  · exact ⟨.refl h', hs, hq, hknown⟩
  · obtain ⟨hgrows, hsound, hqueued, hok⟩ := ingest_spec hs hq hi hingest
    refine ⟨hgrows, hsound, hqueued, fun p r hr ht => ?_⟩
    obtain ⟨hpath, hknown⟩ := hok r hr
    rw [← ht.1]
    exact ⟨hpath, .inr hknown⟩

/-! ### Walks -/

/-- Each path that was met has a ticket in line, or stands for a module all whose dependencies were
met. -/
def Covered (h : Host) (ts : List Ticket) (seen : List ModulePath) : Prop :=
  ∀ p ∈ seen, (∃ t ∈ ts, h.Stands p t) ∨ ∃ r, h.Holds p r ∧ r.dependencies ⊆ seen

theorem Covered.closed {seen : List ModulePath} (hc : h.Covered [] seen) : h.Closed seen := by
  intro p hp
  rcases hc p hp with ⟨t, ht, -⟩ | hclosed
  · cases ht
  · exact hclosed

/-- Expanding the module of a path that has no ticket in line keeps what was met covered. -/
theorem Covered.expand {seen seen' : List ModulePath} {ts more : List Ticket} {r : ModuleRecord}
    (hq : h.Queued) (hcover : ∀ q ∈ seen, q = p ∨ (∃ t ∈ ts, h.Stands q t) ∨
      ∃ r, h.Holds q r ∧ r.dependencies ⊆ seen)
    (hr : h.Holds p r) (heq : h.expand seen r = (more, seen', h')) :
    h'.Covered (ts ++ more) seen' := by
  obtain ⟨hbegins, -, -, hmem, -, hnew⟩ := expand_spec hq heq
  have hgrows := hbegins.grows
  intro q hqmem
  rcases hnew q hqmem with hold | ⟨t, ht, hstands⟩
  · rcases hcover q hold with rfl | ⟨t, ht, hstands⟩ | ⟨rq, hrq, hsub⟩
    · exact .inr ⟨r, hgrows.holds hr, fun d hd => (hmem d).mpr (.inr hd)⟩
    · exact .inl ⟨t, List.mem_append_left _ ht, hgrows.stands hstands⟩
    · exact .inr ⟨rq, hgrows.holds hrq, fun d hd => (hmem d).mpr (.inl (hsub hd))⟩
  · exact .inl ⟨t, List.mem_append_right _ ht, hstands⟩

/-- A walk that ends well closes what it met. -/
theorem follow_spec {net : Network} {root : ModulePath} {fuel : Nat} {seen : List ModulePath}
    {ts : List Ticket} {outcome : Except HostError Unit} (hs : h.Sound) (hq : h.Queued)
    (hstand : ∀ t ∈ ts, ∃ p, h.Stands p t)
    (heq : follow net root fuel seen ts h = (outcome, h')) :
    Grows h h' ∧ h'.Sound ∧ h'.Queued ∧
      (outcome = .ok () → h.Covered ts seen →
        ∃ paths, h'.Closed paths ∧ seen ⊆ paths) := by
  induction fuel generalizing seen ts h with
  | zero =>
    cases ts with
    | nil =>
      rw [follow] at heq
      cases heq
      exact ⟨.refl _, hs, hq, fun _ hcover => ⟨seen, hcover.closed, List.Subset.refl _⟩⟩
    | cons t ts =>
      rw [follow] at heq
      cases heq
      exact ⟨.refl _, hs, hq, fun hok => by cases hok⟩
  | succ fuel ih =>
    cases ts with
    | nil =>
      rw [follow] at heq
      cases heq
      exact ⟨.refl _, hs, hq, fun _ hcover => ⟨seen, hcover.closed, List.Subset.refl _⟩⟩
    | cons t ts =>
      rw [follow] at heq
      cases hredeem : h.redeem net t with
      | mk redeemed h₁ =>
        rw [hredeem] at heq
        obtain ⟨hgrows₁, hsound₁, hqueued₁, hrecord⟩ := redeem_spec hs hq hredeem
        cases redeemed with
        | error e =>
          cases heq
          exact ⟨hgrows₁, hsound₁, hqueued₁, fun hok => by cases hok⟩
        | ok r =>
          cases hexpand : h₁.expand seen r with
          | mk more rest =>
            obtain ⟨seen', h₂⟩ := rest
            simp only [hexpand] at heq
            obtain ⟨hbegins, hqueued₂, -, hmem, hstand', -⟩ := expand_spec hqueued₁ hexpand
            have hgrows₂ := hbegins.grows
            have hline : ∀ s ∈ ts ++ more, ∃ q, h₂.Stands q s := by
              intro s hsmem
              rcases List.mem_append.mp hsmem with hsmem | hsmem
              · obtain ⟨q, hstands⟩ := hstand s (List.mem_cons_of_mem _ hsmem)
                exact ⟨q, hgrows₂.stands (hgrows₁.stands hstands)⟩
              · exact hstand' s hsmem
            obtain ⟨hgrows, hsound, hqueued, hclosed⟩ :=
              ih (hbegins.sound hsound₁) hqueued₂ hline heq
            refine ⟨(hgrows₁.trans hgrows₂).trans hgrows, hsound, hqueued, fun hok hcover => ?_⟩
            obtain ⟨p, hp⟩ := hstand t List.mem_cons_self
            obtain ⟨hpath, hholds⟩ := hrecord p r rfl hp
            have hcover₁ : ∀ q ∈ seen, q = p ∨ (∃ s ∈ ts, h₁.Stands q s) ∨
                ∃ r, h₁.Holds q r ∧ r.dependencies ⊆ seen := by
              intro q hqmem
              rcases hcover q hqmem with ⟨s, hsmem, hstands⟩ | ⟨rq, hrq, hdeps⟩
              · rcases List.mem_cons.mp hsmem with rfl | hsmem
                · exact .inl ((hrecord q r rfl hstands).1.symm.trans hpath)
                · exact .inr (.inl ⟨s, hsmem, hgrows₁.stands hstands⟩)
              · exact .inr (.inr ⟨rq, hgrows₁.holds hrq, hdeps⟩)
            obtain ⟨paths, hpaths, hsub⟩ :=
              hclosed hok (Covered.expand hqueued₁ hcover₁ hholds hexpand)
            exact ⟨paths, hpaths, fun q hqmem => hsub ((hmem q).mpr (.inl hqmem))⟩

/-- A module that is held and whose walk ends well is closed. -/
theorem close_spec {net : Network} (hs : h.Sound) (hq : h.Queued) {r : ModuleRecord}
    {outcome : Except HostError ModuleRecord} (heq : h.close net r = (outcome, h')) :
    Grows h h' ∧ h'.Sound ∧ h'.Queued ∧
      ∀ r', outcome = .ok r' → h.Holds r.path r →
        r' = r ∧ ∃ paths, h'.Closed paths ∧ r.path ∈ paths ∧ r.dependencies ⊆ paths := by
  rw [close] at heq
  cases hexpand : h.expand [r.path] r with
  | mk ts rest =>
    obtain ⟨seen, h₁⟩ := rest
    simp only [hexpand] at heq
    obtain ⟨hbegins, hqueued₁, -, hmem, hstand, -⟩ := expand_spec hq hexpand
    cases hfollow : follow net r.path h₁.settings.limit seen ts h₁ with
    | mk walked h₂ =>
      simp only [hfollow] at heq
      obtain ⟨hgrows, hsound, hqueued, hclosed⟩ :=
        follow_spec (hbegins.sound hs) hqueued₁ hstand hfollow
      have hgrows' := hbegins.grows.trans hgrows
      cases walked with
      | error e =>
        cases heq
        exact ⟨hgrows', hsound, hqueued, fun _ hok => by cases hok⟩
      | ok _ =>
        cases heq
        refine ⟨hgrows', hsound, hqueued, fun r' hok hholds => ?_⟩
        cases hok
        have hroot : ∀ q ∈ [r.path], q = r.path ∨ (∃ t ∈ ([] : List Ticket), h.Stands q t) ∨
            ∃ r', h.Holds q r' ∧ r'.dependencies ⊆ [r.path] :=
          fun q hqmem => .inl (List.mem_singleton.mp hqmem)
        obtain ⟨paths, hpaths, hsub⟩ := hclosed rfl (Covered.expand hq hroot hholds hexpand)
        exact ⟨rfl, paths, hpaths, hsub ((hmem _).mpr (.inl List.mem_cons_self)),
          fun d hd => hsub ((hmem d).mpr (.inr hd))⟩

/-- A root that is added with success is in a closed set of paths. -/
theorem addRoot_spec {net : Network} (hs : h.Sound) (hq : h.Queued) {path : ModulePath} {url : Url}
    {response : Option Response} {outcome : Except HostError ModuleRecord}
    (heq : h.addRoot net path url response = (outcome, h')) :
    Grows h h' ∧ h'.Sound ∧ h'.Queued ∧
      ∀ r, outcome = .ok r → r.path = path ∧ h'.Holds path r ∧
        ∃ paths, h'.Closed paths ∧ path ∈ paths ∧ r.dependencies ⊆ paths := by
  rw [addRoot] at heq
  obtain ⟨hbegins, hqueues, hstands⟩ := h.ticket_spec ⟨path, url, response⟩
  have hqueued₁ := hbegins.grows.queued hq hqueues
  cases hredeem : (h.ticket ⟨path, url, response⟩).2.redeem net
      (h.ticket ⟨path, url, response⟩).1 with
  | mk redeemed h₁ =>
    simp only [hredeem] at heq
    obtain ⟨hgrows₁, hsound₁, hqueued₁, hrecord⟩ :=
      redeem_spec (hbegins.sound hs) hqueued₁ hredeem
    have hgrows := hbegins.grows.trans hgrows₁
    cases redeemed with
    | error e =>
      cases heq
      exact ⟨hgrows, hsound₁, hqueued₁, fun _ hok => by cases hok⟩
    | ok r =>
      obtain ⟨hgrows₂, hsound₂, hqueued₂, hclosed⟩ := close_spec hsound₁ hqueued₁ heq
      obtain ⟨rfl, hholds⟩ := hrecord path r rfl hstands
      refine ⟨hgrows.trans hgrows₂, hsound₂, hqueued₂, fun r' hok => ?_⟩
      obtain ⟨rfl, hpaths⟩ := hclosed r' hok hholds
      exact ⟨rfl, hgrows₂.holds hholds, hpaths⟩

/-! ### Libraries -/

section

variable {net : Network}

-- Unfolding what one library comes to is of no use here, and slow.
attribute [local irreducible] Host.addLibrary

theorem addLibraries_nil : h.addLibraries net [] = (.ok (), h) := rfl

theorem addLibraries_cons {name : String} {names : List String} :
    h.addLibraries net (name :: names) = match h.addLibrary net name with
      | (.error e, h) => (.error e, h)
      | (.ok _, h) => h.addLibraries net names := rfl

end

/-! ### What walks preserve -/

/-- What holds of a host stays true while tickets are redeemed with success and their modules are
expanded; of a host at which a walk failed something weaker may hold. -/
structure Preserved (net : Network) (holds failed : Host → Prop) : Prop where
  weaken {h : Host} : holds h → failed h
  step {h h₁ h₂ : Host} {t : Ticket} {r : ModuleRecord} {seen seen' : List ModulePath}
    {ts : List Ticket} : holds h → h.Sound → h.Queued → h.redeem net t = (.ok r, h₁) →
    h₁.Holds r.path r → h₁.expand seen r = (ts, seen', h₂) → holds h₂
  fail {h h' : Host} {t : Ticket} {e : HostError} : holds h → h.Sound → h.Queued →
    h.redeem net t = (.error e, h') → failed h'

namespace Preserved

variable {net : Network} {holds failed : Host → Prop}

theorem follow (hp : Preserved net holds failed) {root : ModulePath} {fuel : Nat}
    {seen : List ModulePath} {ts : List Ticket} {outcome : Except HostError Unit}
    (hh : holds h) (hs : h.Sound) (hq : h.Queued) (hstand : ∀ t ∈ ts, ∃ p, h.Stands p t)
    (heq : Host.follow net root fuel seen ts h = (outcome, h')) :
    (outcome = .ok () → holds h') ∧ failed h' := by
  induction fuel generalizing seen ts h with
  | zero =>
    cases ts with
    | nil =>
      cases heq
      exact ⟨fun _ => hh, hp.weaken hh⟩
    | cons t ts =>
      cases heq
      exact ⟨(fun hok => by cases hok), hp.weaken hh⟩
  | succ fuel ih =>
    cases ts with
    | nil =>
      cases heq
      exact ⟨fun _ => hh, hp.weaken hh⟩
    | cons t ts =>
      rw [Host.follow] at heq
      cases hredeem : h.redeem net t with
      | mk redeemed h₁ =>
        rw [hredeem] at heq
        cases redeemed with
        | error e =>
          cases heq
          exact ⟨(fun hok => by cases hok), hp.fail hh hs hq hredeem⟩
        | ok r =>
          obtain ⟨hgrows₁, hsound₁, hqueued₁, hrecord⟩ := redeem_spec hs hq hredeem
          obtain ⟨p, hstands⟩ := hstand t List.mem_cons_self
          obtain ⟨rfl, hholds⟩ := hrecord p r rfl hstands
          cases hexpand : h₁.expand seen r with
          | mk more rest =>
            obtain ⟨seen', h₂⟩ := rest
            simp only [hexpand] at heq
            obtain ⟨hbegins, hqueued₂, -, -, hstand', -⟩ := expand_spec hqueued₁ hexpand
            have hh₂ := hp.step hh hs hq hredeem hholds hexpand
            refine ih hh₂ (hbegins.sound hsound₁) hqueued₂ (fun s hsmem => ?_) heq
            rcases List.mem_append.mp hsmem with hsmem | hsmem
            · obtain ⟨q, hstands⟩ := hstand s (List.mem_cons_of_mem _ hsmem)
              exact ⟨q, hbegins.grows.stands (hgrows₁.stands hstands)⟩
            · exact hstand' s hsmem

theorem close (hp : Preserved net holds failed) (hs : h.Sound) (hq : h.Queued) {r : ModuleRecord}
    (hh : holds (h.expand [r.path] r).2.2) {outcome : Except HostError ModuleRecord}
    (heq : h.close net r = (outcome, h')) :
    (∀ r', outcome = .ok r' → holds h') ∧ failed h' := by
  rw [Host.close] at heq
  cases hexpand : h.expand [r.path] r with
  | mk ts rest =>
    obtain ⟨seen, h₁⟩ := rest
    rw [hexpand] at hh
    simp only [hexpand] at heq
    obtain ⟨hbegins, hqueued₁, -, -, hstand, -⟩ := expand_spec hq hexpand
    cases hfollow : Host.follow net r.path h₁.settings.limit seen ts h₁ with
    | mk walked h₂ =>
      simp only [hfollow] at heq
      obtain ⟨hok, hfailed⟩ := hp.follow hh (hbegins.sound hs) hqueued₁ hstand hfollow
      cases walked with
      | error e =>
        cases heq
        exact ⟨(fun _ hok => by cases hok), hfailed⟩
      | ok _ =>
        cases heq
        exact ⟨fun _ _ => hok rfl, hfailed⟩

theorem addRoot (hp : Preserved net holds failed) (hs : h.Sound) (hq : h.Queued)
    {path : ModulePath} {url : Url} {response : Option Response}
    (hh : holds (h.ticket ⟨path, url, response⟩).2) {outcome : Except HostError ModuleRecord}
    (heq : h.addRoot net path url response = (outcome, h')) :
    (∀ r, outcome = .ok r → holds h') ∧ failed h' := by
  rw [Host.addRoot] at heq
  obtain ⟨hbegins, hqueues, hstands⟩ := h.ticket_spec ⟨path, url, response⟩
  have hsound := hbegins.sound hs
  have hqueued := hbegins.grows.queued hq hqueues
  cases hredeem : (h.ticket ⟨path, url, response⟩).2.redeem net
      (h.ticket ⟨path, url, response⟩).1 with
  | mk redeemed h₁ =>
    simp only [hredeem] at heq
    cases redeemed with
    | error e =>
      cases heq
      exact ⟨(fun _ hok => by cases hok), hp.fail hh hsound hqueued hredeem⟩
    | ok r =>
      obtain ⟨-, hsound₁, hqueued₁, hrecord⟩ := redeem_spec hsound hqueued hredeem
      obtain ⟨rfl, hholds⟩ := hrecord path r rfl hstands
      exact hp.close hsound₁ hqueued₁ (hp.step hh hsound hqueued hredeem hholds rfl) heq

end Preserved

end

end CompilingProxy.Host
