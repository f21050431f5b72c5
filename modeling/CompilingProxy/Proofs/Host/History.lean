import CompilingProxy.Proofs.Host.Closure
import CompilingProxy.Proofs.Module.Placement

/-!
# What a host has been through

Between operations, whether they succeeded or not, a host keeps no tickets, and each registered
module is what its served text comes to.
-/

namespace CompilingProxy

/-- The record of a module's text as it was served. -/
def ModuleRecord.served (r : ModuleRecord) (read : TreeReader) : ModuleRecord :=
  .ofText r.path r.url r.kind r.rawText r.response read

/-- The record is what its served text comes to when its specifiers are made canonical. -/
def ModuleRecord.IsCanonical (r : ModuleRecord) (read : TreeReader) : Prop :=
  (r.served read).edited (r.served read).discover.edits (r.served read).discover.paths read =
    .ok { r with version := 1 }

theorem ModuleRecord.IsCanonical.dependencies_eq {r : ModuleRecord} {read : TreeReader}
    (h : r.IsCanonical read) : r.dependencies = (r.served read).discover.paths := by
  have hedited := ModuleRecord.edited_dependencies h
  exact hedited

namespace Host

/-- A host that was asked for modules, was told of other texts of them and of libraries, and had
files of it analysed, in any order, with success or without. -/
inductive Attained (settings : HostSettings) : Host → Prop
  | empty : Attained settings { settings }
  | addRoot {h : Host} (ha : Attained settings h) (net : Network) (path : ModulePath) (url : Url)
      (response : Option Response) : Attained settings (h.addRoot net path url response).2
  | addLibrary {h : Host} (ha : Attained settings h) (net : Network) (name : String) :
      Attained settings (h.addLibrary net name).2
  | update {h : Host} (ha : Attained settings h) (net : Network) (path : ModulePath)
      (text : String) : Attained settings (h.update net path text).2
  | setExtraLibraries {h : Host} (ha : Attained settings h) (libraries : List ExtraLibrary) :
      Attained settings (h.setExtraLibraries libraries).2
  | analysed {h : Host} (ha : Attained settings h) (memo : AnalysisMemo) :
      Attained settings { h with memo }

/-- What holds of a host between operations. -/
structure Settled (read : TreeReader) (h : Host) : Prop where
  reads : h.settings.read = read
  quiet : h.queues = []
  canonical : ∀ r ∈ h.registry.records, r.IsCanonical read

/-- Every filed ticket is one of the module, for a path that is not registered. -/
def Filed (h : Host) (p : ModulePath) : Prop :=
  ∀ e ∈ h.queues, e.1 = p ∧ ∀ d ∈ e.2, h.registry.get? d.1 = none

section

variable {h h' : Host} {p d : ModulePath} {read : TreeReader}

theorem queued_of_quiet (hquiet : h.queues = []) : h.Queued := by
  intro e he
  rw [hquiet] at he
  cases he

/-! ### Adopting -/

theorem filed_putTicket {t : Ticket} (hf : h.Filed p) (hnone : h.registry.get? d = none) :
    (h.putTicket p d t).Filed p := by
  have hqueue : ∀ x ∈ h.queueOf p, h.registry.get? x.1 = none := by
    intro x hx
    obtain ⟨e, he, hmem⟩ := mem_queues_of_lookup hx
    exact (hf e he).2 x hmem
  intro e he
  rw [putTicket] at he
  rcases List.mem_cons.mp he with rfl | he
  · refine ⟨rfl, fun x hx => ?_⟩
    dsimp only at hx
    split at hx
    · exact hqueue x hx
    · rcases List.mem_append.mp hx with hx | hx
      · exact hqueue x hx
      · rw [List.mem_singleton.mp hx]
        exact hnone
  · exact hf e (List.mem_filter.mp he).1

theorem filed_file (hf : h.Filed p) : (h.file p d).Filed p := by
  rw [file]
  split
  case isTrue => exact hf
  case isFalse hunknown =>
    obtain ⟨hbegins, hqueues, -⟩ := h.ticketOf_spec d
    rw [Bool.or_eq_true, not_or, Registry.contains] at hunknown
    have hfiled : (h.ticketOf d).2.Filed p := by
      intro e he
      rw [hqueues] at he
      rw [hbegins.registry]
      exact hf e he
    have hnone : (h.ticketOf d).2.registry.get? d = none := by
      rw [hbegins.registry]
      simpa using hunknown.1
    exact filed_putTicket hfiled hnone

theorem filed_foldl_file (hf : h.Filed p) (met : List Dependency) :
    (met.foldl (fun h x => h.file p x.path) h).Filed p := by
  induction met generalizing h with
  | nil => exact hf
  | cons x met ih =>
    rw [List.foldl_cons]
    exact ih (filed_file hf)

/-- Where trees lie in their texts, the specifiers of a served text can always be written. -/
theorem edited_isOk {r : ModuleRecord} (hread : read.IsFaithful) (hserved : r = r.served read)
    (ds : List ModulePath) : ∃ r', r.edited r.discover.edits ds read = .ok r' := by
  have hordered : r.tree.isOrdered := by
    rw [hserved]
    exact hread.isOrdered _ _
  have hplaced : r.tree.isPlaced r.text.toList := by
    rw [hserved]
    exact hread.isPlaced _ _
  have hraw : r.rawText = r.text := by
    rw [hserved]
    rfl
  obtain ⟨out, hout⟩ := r.discover_applies hordered hplaced
  rw [ModuleRecord.edited, hraw]
  split
  · exact ⟨_, rfl⟩
  · exact ⟨_, bind_eq_ok_iff.mpr ⟨out, hout, rfl⟩⟩

theorem isCanonical_of_edited {r r' : ModuleRecord} (hserved : r = r.served read)
    (hedited : r.edited r.discover.edits r.discover.paths read = .ok r') :
    r'.IsCanonical read := by
  have hsame : r'.served read = r ∧ { r' with version := 1 } = r' := by
    rcases ModuleRecord.edited_eq_ok hedited with ⟨-, rfl⟩ | ⟨_, _, -, rfl⟩ <;>
      rw [hserved] <;> exact ⟨rfl, rfl⟩
  rw [ModuleRecord.IsCanonical, hsame.1, hsame.2]
  exact hedited

/-- Adopting a served text files tickets for the record that the text comes to. -/
theorem adopt_canonical {r : ModuleRecord} (hread : read.IsFaithful)
    (hreads : h.settings.read = read) (hquiet : h.queues = []) (hserved : r = r.served read) :
    ∃ r' ha, h.adopt r = (.ok r', ha) ∧ r'.path = r.path ∧ r'.IsCanonical read ∧
      ha.Filed r.path := by
  have hfiled : h.Filed r.path := by
    intro e he
    rw [hquiet] at he
    cases he
  have hbegins := (foldl_file_spec (queued_of_quiet hquiet) r.path r.discover.met).1
  obtain ⟨r', hr'⟩ := edited_isOk hread hserved r.discover.paths
  refine ⟨r', _, ?_, ModuleRecord.edited_path hr', isCanonical_of_edited hserved hr',
    filed_foldl_file hfiled r.discover.met⟩
  rw [adopt, hbegins.settings, hreads, hr']

/-! ### Walks -/

/-- An ingestion that fails leaves no tickets, and one that ends well those of its module. -/
theorem ingest_settled {net : Network} {i : Ingestion} {outcome : Except HostError ModuleRecord}
    (hread : read.IsFaithful) (hset : h.Settled read) (hs : h.Sound) (hi : i ∈ h.pending)
    (heq : h.ingest net i = (outcome, h')) :
    (∀ e, outcome = .error e → h'.Settled read) ∧
      ∀ r, outcome = .ok r → h'.settings.read = read ∧ (∀ e ∈ h'.queues, e.1 = r.path) ∧
        ∀ q ∈ h'.registry.records, q.IsCanonical read := by
  obtain ⟨hfetched, hqueues⟩ := fetch_begins (fun _ => False) net h i
  have hends := ingests_ingest net h i
  rw [heq] at hends
  cases hfetch : h.fetch net i with
  | mk answer hf =>
    rw [hfetch] at hfetched hqueues
    have hreads : hf.settings.read = read := by rw [hfetched.settings, hset.reads]
    have hquiet : hf.queues = [] := hqueues.trans hset.quiet
    have hsound := hfetched.sound hs
    generalize hout : (outcome, h') = out at hends
    cases hends with
    | unfetched hfetch' =>
      cases hfetch.symm.trans hfetch'
      obtain ⟨rfl, rfl⟩ := Prod.mk.inj hout
      have hcanonical : ∀ q ∈ hf.registry.records, q.IsCanonical read := by
        rw [hfetched.registry]
        exact hset.canonical
      exact ⟨fun _ _ => ⟨hreads, hquiet, hcanonical⟩, fun _ hok => by cases hok⟩
    | @refused response _ ha e hfetch' hadopt =>
      cases hfetch.symm.trans hfetch'
      obtain ⟨r, ha', hadopt', -⟩ := adopt_canonical (r := hf.readResponse i response) hread hreads
        hquiet (by rw [← hreads]; rfl)
      rw [hadopt'] at hadopt
      cases hadopt
    | @registered response _ ha r hfetch' hadopt =>
      cases hfetch.symm.trans hfetch'
      obtain ⟨r', ha', hadopt', hpath, hcanonical, hfiled⟩ :=
        adopt_canonical (r := hf.readResponse i response) hread hreads hquiet
          (by rw [← hreads]; rfl)
      rw [hadopt'] at hadopt
      cases hadopt
      obtain ⟨hbegins, hqueued, -⟩ :=
        adopt_spec (queued_of_quiet hquiet) (hf.readResponse i response)
      rw [hadopt'] at hbegins hqueued
      dsimp only at hbegins hqueued
      have hregistry : ha.registry = h.registry := hbegins.registry.trans hfetched.registry
      have hnew : ha.registry.get? i.path = none := by
        rw [hregistry]
        exact hs.unregistered i hi
      have hpath : r.path = i.path := hpath
      obtain ⟨hgrows, -, -, hok, hrecords, -, hkept⟩ :=
        settle_ok (hbegins.sound hsound) hqueued hpath hnew
      rw [← hout] at hgrows hok hrecords hkept
      refine ⟨(fun _ herror => by cases hok.symm.trans herror), fun q hq => ?_⟩
      cases hok.symm.trans hq
      refine ⟨by rw [hgrows.settings, hbegins.settings, hreads], fun e he => ?_, fun q hq => ?_⟩
      · rw [hkept] at he
        exact (hfiled e he).1.trans hpath.symm
      · rw [hrecords, hregistry] at hq
        rcases List.mem_append.mp hq with hq | hq
        · exact hset.canonical q hq
        · rw [List.mem_singleton.mp hq]
          exact hcanonical

/-- Walks leave no tickets behind, and register what served texts come to. -/
theorem settled_preserved (net : Network) (hread : read.IsFaithful) :
    Preserved net (Settled read) (Settled read) where
  weaken hset := hset
  step {h h₁ h₂ t r seen seen' ts} hset hs hq hredeem _ hexpand := by
    obtain ⟨-, -, hq₁, -⟩ := redeem_spec hs hq hredeem
    obtain ⟨hbegins, -, hqueues, -⟩ := expand_spec hq₁ hexpand
    obtain ⟨hreads, hkeys, hcanonical⟩ : h₁.settings.read = read ∧
        (∀ e ∈ h₁.queues, e.1 = r.path) ∧
        ∀ q ∈ h₁.registry.records, q.IsCanonical read := by
      rcases redeem_cases hredeem with ⟨rfl, -⟩ | ⟨i, hi, -, hingest⟩
      · refine ⟨hset.reads, fun e he => ?_, hset.canonical⟩
        rw [hset.quiet] at he
        cases he
      · exact (ingest_settled hread hset hs hi hingest).2 r rfl
    refine ⟨by rw [hbegins.settings, hreads], ?_, by rwa [hbegins.registry]⟩
    rw [hqueues]
    exact List.filter_eq_nil_iff.mpr fun e he => by simp [hkeys e he]
  fail {h h' t e} hset hs hq hredeem := by
    rcases redeem_cases hredeem with ⟨rfl, -⟩ | ⟨i, hi, -, hingest⟩
    · exact hset
    · exact (ingest_settled hread hset hs hi hingest).1 e rfl

/-! ### Operations -/

theorem addRoot_settled {net : Network} {path : ModulePath} {url : Url}
    {response : Option Response} {outcome : Except HostError ModuleRecord}
    (hread : read.IsFaithful) (hset : h.Settled read) (hs : h.Sound)
    (heq : h.addRoot net path url response = (outcome, h')) : h'.Sound ∧ h'.Settled read := by
  have hq := queued_of_quiet hset.quiet
  obtain ⟨hbegins, hqueues, -⟩ := h.ticket_spec ⟨path, url, response⟩
  have hticket : (h.ticket ⟨path, url, response⟩).2.Settled read := by
    refine ⟨by rw [hbegins.settings, hset.reads], hqueues.trans hset.quiet, ?_⟩
    rw [hbegins.registry]
    exact hset.canonical
  obtain ⟨-, hsound, -⟩ := addRoot_spec hs hq heq
  exact ⟨hsound, ((settled_preserved net hread).addRoot hs hq hticket heq).2⟩

/-- A replaced record leaves the tickets in force that are filed for paths without one. -/
theorem replace_spec {r r' : ModuleRecord} {registry : Registry} (hs : h.Sound)
    (hfiled : h.Filed p) (hq : h.Queued) (heq : h.registry.replace r = .ok (r', registry)) :
    { h with registry }.Sound ∧ { h with registry }.Queued := by
  obtain ⟨-, hlist, -⟩ := Registry.replace_spec heq
  have hnone : ∀ q, registry.get? q = none ↔ h.registry.get? q = none := by
    intro q
    rw [Registry.get?_eq_none_iff, Registry.get?_eq_none_iff, hlist]
  refine ⟨⟨by rw [hlist]; exact hs.nodup, fun i hi => ?_, fun q hq => ?_⟩, fun e he d hd => ?_⟩
  · exact (hnone _).mpr (hs.unregistered i hi)
  · rw [Registry.get?_isSome_iff, hlist, ← Registry.get?_isSome_iff]
    exact hs.ingested q hq
  · have hunknown := (hfiled e he).2 d hd
    have hstands := hq e he d hd
    obtain ⟨d, t⟩ := d
    dsimp only at hunknown hstands ⊢
    cases t with
    | ready outcome =>
      cases outcome with
      | error e => trivial
      | ok r =>
        obtain ⟨hpath, hextra | hregistered⟩ := hstands
        · exact ⟨hpath, .inl hextra⟩
        · rw [hunknown] at hregistered
          cases hregistered
    | awaited q =>
      obtain ⟨hpath, hpending | hfailed | ⟨r, -, hregistered⟩⟩ := hstands
      · exact ⟨hpath, .inl hpending⟩
      · exact ⟨hpath, .inr (.inl hfailed)⟩
      · rw [hunknown] at hregistered
        cases hregistered

/-- How an update goes: there is no module to replace, or the record of the new text is put in the
place of the old one and all that it depends on is ingested. -/
theorem update_cases {net : Network} {path : ModulePath} {text : String}
    {outcome : Except HostError ModuleRecord} (hread : read.IsFaithful) (hset : h.Settled read)
    (hs : h.Sound) (heq : h.update net path text = (outcome, h')) :
    (h' = h ∧ outcome = .error (.missing path)) ∨
      ∃ (r : ModuleRecord) (h₁ : Host), h₁.Sound ∧ h₁.Queued ∧ h₁.registry.get? r.path = some r ∧
        (h₁.expand [r.path] r).2.2.Settled read ∧ h₁.close net r = (outcome, h') := by
  rw [update] at heq
  split at heq
  case h_1 =>
    cases heq
    exact .inl ⟨rfl, rfl⟩
  case h_2 known hknown =>
    generalize hr : ModuleRecord.ofText path known.url known.kind text known.response
      h.settings.read = r at heq
    obtain ⟨hbegins, hqueued, -⟩ := adopt_spec (queued_of_quiet hset.quiet) r
    obtain ⟨r', ha, hadopt, hpath, hcanonical, hfiled⟩ := adopt_canonical hread hset.reads
      hset.quiet (r := r) (by rw [← hr, ← hset.reads]; rfl)
    rw [hadopt] at hbegins hqueued
    simp only [hadopt] at heq
    have hregistered : ha.registry.get? r'.path = some known := by
      rw [hbegins.registry, hpath, ← hr]
      exact hknown
    cases hreplace : ha.registry.replace r' with
    | error e =>
      rw [Registry.replace, hregistered] at hreplace
      cases hreplace
    | ok replaced =>
      obtain ⟨r'', registry⟩ := replaced
      simp only [hreplace] at heq
      obtain ⟨hsound', hqueued'⟩ := replace_spec (hbegins.sound hs) hfiled hqueued hreplace
      obtain ⟨⟨version, hversion⟩, -, hmem, hself⟩ := Registry.replace_spec hreplace
      refine .inr ⟨r'', _, hsound', hqueued', Registry.get?_of_mem hsound'.nodup hself, ?_, heq⟩
      cases hexpand : ({ ha with registry } : Host).expand [r''.path] r'' with
      | mk ts rest =>
        obtain ⟨seen, he⟩ := rest
        obtain ⟨hexpanded, -, hqueues, -⟩ := expand_spec hqueued' hexpand
        refine ⟨by rw [hexpanded.settings]; exact hbegins.settings ▸ hset.reads, ?_, ?_⟩
        · rw [hqueues]
          refine List.filter_eq_nil_iff.mpr fun e he => ?_
          have hkey : e.1 = r''.path := by rw [(hfiled e he).1, ← hpath, hversion]
          simp [hkey]
        · rw [hexpanded.registry]
          intro q hq
          rcases hmem q hq with rfl | hq
          · rw [hversion]
            exact hcanonical
          · rw [hbegins.registry] at hq
            exact hset.canonical q hq

theorem update_settled {net : Network} {path : ModulePath} {text : String}
    {outcome : Except HostError ModuleRecord} (hread : read.IsFaithful) (hset : h.Settled read)
    (hs : h.Sound) (heq : h.update net path text = (outcome, h')) :
    h'.Sound ∧ h'.Settled read := by
  rcases update_cases hread hset hs heq with ⟨rfl, -⟩ | ⟨r, h₁, hs₁, hq₁, -, hexpanded, hclose⟩
  · exact ⟨hs, hset⟩
  · obtain ⟨-, hsound, -⟩ := close_spec hs₁ hq₁ hclose
    exact ⟨hsound, ((settled_preserved net hread).close hs₁ hq₁ hexpanded hclose).2⟩

/-- What a host has been through leaves it sound and settled. -/
theorem settled_of_attained {settings : HostSettings} (hread : settings.read.IsFaithful)
    (ha : Attained settings h) : h.Sound ∧ h.Settled settings.read := by
  induction ha with
  | empty =>
    refine ⟨⟨List.nodup_nil, fun i hi => ?_, fun r hr => ?_⟩, ⟨rfl, rfl, fun r hr => ?_⟩⟩
    · cases hi
    · cases hr
    · cases hr
  | addRoot _ net path url response ih =>
    exact addRoot_settled hread ih.2 ih.1 rfl
  | @addLibrary h _ net name ih =>
    unfold addLibrary
    dsimp only
    split
    · exact ih
    · exact addRoot_settled hread ih.2 ih.1 rfl
  | update _ net path text ih => exact update_settled hread ih.2 ih.1 rfl
  | @setExtraLibraries h _ libraries ih =>
    obtain ⟨hs, hset⟩ := ih
    rw [setExtraLibraries]
    split
    · exact ⟨hs, hset⟩
    · exact ⟨⟨hs.nodup, hs.unregistered, hs.ingested⟩, ⟨hset.reads, hset.quiet, hset.canonical⟩⟩
  | analysed _ memo ih =>
    obtain ⟨hs, hset⟩ := ih
    exact ⟨⟨hs.nodup, hs.unregistered, hs.ingested⟩, ⟨hset.reads, hset.quiet, hset.canonical⟩⟩

end

end Host

end CompilingProxy
