import CompilingProxy.Proofs.Host.Closure
import CompilingProxy.Proofs.Sketch
import Mathlib.Logic.Relation

/-!
# What a host registers

Roots and libraries that are added with success to a host that begins empty register themselves and
what they depend on, directly or through others: every such module, no other one, each of them once,
and none ahead of all that depend on it.
-/

namespace CompilingProxy.Host

open Relation

/-- A module that is asked for: by its address, or as a library by its name. -/
inductive Call where
  | root (url : Url)
  | library (name : String)

/-- The path of what is asked for. -/
def Call.path : Call → ModulePath
  | root url => .ofUrl url.source
  | library name => .library name

def call (net : Network) (h : Host) : Call → Except HostError ModuleRecord × Host
  | .root url => h.addRootUrl net url
  | .library name => h.addLibrary net name

/-- Makes calls one after another, up to the first that fails. -/
def callAll (net : Network) (h : Host) : List Call → Except HostError Unit × Host
  | [] => (.ok (), h)
  | c :: cs =>
    match h.call net c with
    | (.error e, h) => (.error e, h)
    | (.ok _, h) => h.callAll net cs

/-- The registered module of the first path depends on the second path. -/
def Leads (h : Host) (p q : ModulePath) : Prop :=
  ∃ r, h.registry.get? p = some r ∧ q ∈ r.dependencies

/-! ### Nothing stands without a reason -/

/-- The path is a root or what some of the modules depend on. -/
def Asked (roots : List ModulePath) (records : List ModuleRecord) (p : ModulePath) : Prop :=
  p ∈ roots ∨ ∃ q ∈ records, p ∈ q.dependencies

/-- What is begun, and what was registered, was asked for by the time. -/
structure Backed (roots : List ModulePath) (h : Host) : Prop where
  noExtras : h.extraLibraries = []
  pending : ∀ i ∈ h.pending, Asked roots h.registry.records i.path
  records : ∀ front r back, h.registry.records = front ++ r :: back → Asked roots front r.path

theorem split_of_concat_eq {α : Type} {xs front back : List α} {x y : α}
    (h : xs ++ [x] = front ++ y :: back) :
    (∃ rest, xs = front ++ y :: rest) ∨ (front = xs ∧ y = x) := by
  rcases List.eq_nil_or_concat back with rfl | ⟨rest, z, rfl⟩
  · obtain ⟨hfront, hlast⟩ := List.append_inj' h rfl
    exact .inr ⟨hfront.symm, (List.singleton_inj.mp hlast).symm⟩
  · rw [List.concat_eq_append, ← List.cons_append, ← List.append_assoc] at h
    exact .inl ⟨rest, (List.append_inj' h rfl).1⟩

section

variable {roots : List ModulePath} {h h' : Host}

theorem Asked.append {records more : List ModuleRecord} {p : ModulePath}
    (ha : Asked roots records p) : Asked roots (records ++ more) p := by
  rcases ha with hroot | ⟨q, hq, hp⟩
  · exact .inl hroot
  · exact .inr ⟨q, List.mem_append_left _ hq, hp⟩

/-- What a registered module depends on may be begun. -/
theorem Backed.begins {kind : Ingestion → Prop} (hb : h.Backed roots)
    (hbegins : Begins kind h h')
    (hkind : ∀ i, kind i → Asked roots h.registry.records i.path) : h'.Backed roots := by
  obtain ⟨more, hmore, hall⟩ := hbegins.pending
  refine ⟨by rw [hbegins.extras]; exact hb.noExtras, fun i hi => ?_, ?_⟩
  · rw [hbegins.registry]
    rw [hmore] at hi
    rcases List.mem_append.mp hi with hi | hi
    · exact hb.pending i hi
    · exact hkind i (hall i hi).1
  · rw [hbegins.registry]
    exact hb.records

theorem Backed.holds (hb : h.Backed roots) {p : ModulePath} {r : ModuleRecord}
    (hr : h.Holds p r) : h.registry.get? p = some r := by
  rcases hr with hextra | hr
  · rw [extraLibrary?, hb.noExtras] at hextra
    cases hextra
  · exact hr

/-- An ingestion that ends well registers its module behind what asked for it, and begins nothing
but what that module depends on. -/
theorem Backed.ingest {net : Network} (hb : h.Backed roots) (hs : h.Sound) (hq : h.Queued)
    {i : Ingestion} (hi : i ∈ h.pending) {r : ModuleRecord}
    (heq : h.ingest net i = (.ok r, h')) : h'.Backed roots := by
  obtain ⟨ds, hbegun, hbegins, hsound, hqueued, ⟨e, he⟩ | ⟨r', hpath, hds, hok⟩⟩ :=
    ingest_cases net hs hq i
  · rw [heq] at he
    cases congrArg Prod.fst he
  · have hnew : hbegun.registry.get? i.path = none := by
      rw [hbegins.registry]
      exact hs.unregistered i hi
    obtain ⟨hgrows, -, -, -, hrecords, hpending, -⟩ := settle_ok hsound hqueued hpath hnew
    rw [← hok, heq] at hgrows hrecords hpending
    rw [hbegins.registry] at hrecords
    refine ⟨by rw [hgrows.extras, hbegins.extras]; exact hb.noExtras, fun j hj => ?_,
      fun front s back hsplit => ?_⟩
    · rw [hpending] at hj
      obtain ⟨more, hmore, hall⟩ := hbegins.pending
      rw [hmore] at hj
      rw [hrecords]
      rcases List.mem_append.mp (List.mem_filter.mp hj).1 with hj | hj
      · exact (hb.pending j hj).append
      · refine .inr ⟨r', List.mem_append_right _ List.mem_cons_self, ?_⟩
        rw [← hds]
        exact (hall j hj).1.1
    · rw [hrecords] at hsplit
      rcases split_of_concat_eq hsplit with ⟨rest, hold⟩ | ⟨rfl, rfl⟩
      · exact hb.records front s rest hold
      · rw [hpath]
        exact hb.pending i hi

theorem Backed.redeem {net : Network} (hb : h.Backed roots) (hs : h.Sound) (hq : h.Queued)
    {t : Ticket} {r : ModuleRecord} (heq : h.redeem net t = (.ok r, h')) : h'.Backed roots := by
  rcases redeem_cases heq with ⟨rfl, -⟩ | ⟨i, hi, -, hingest⟩
  · exact hb
  · exact hb.ingest hs hq hi hingest

theorem Backed.preserved (net : Network) (roots : List ModulePath) :
    Preserved net (Backed roots) fun _ => True where
  weaken _ := trivial
  step {h h₁ h₂ t r} _ _ _ hb hs hq hredeem hr hexpand := by
    have hb₁ := hb.redeem hs hq hredeem
    obtain ⟨-, -, hq₁, -⟩ := redeem_spec hs hq hredeem
    refine hb₁.begins (expand_spec hq₁ hexpand).1 fun i hi => .inr ⟨r, ?_, hi.1⟩
    exact Registry.mem_of_get? (hb₁.holds hr)
  fail _ _ _ _ := trivial

theorem Backed.addRoot {net : Network} (hb : h.Backed roots) (hs : h.Sound) (hq : h.Queued)
    {path : ModulePath} {url : Url} {response : Option Response} {r : ModuleRecord}
    (hroot : path ∈ roots) (heq : h.addRoot net path url response = (.ok r, h')) :
    h'.Backed roots := by
  have hticket := hb.begins (h.ticket_spec ⟨path, url, response⟩).1 fun i hi =>
    .inl (hi ▸ hroot)
  exact ((Backed.preserved net roots).addRoot hs hq hticket heq).1 r rfl

/-- What a module is asked for by stands in front of it. -/
theorem Backed.leads (hb : h.Backed roots) (hs : h.Sound) {front back : List ModuleRecord}
    {r : ModuleRecord} (hsplit : h.registry.records = front ++ r :: back) :
    r.path ∈ roots ∨ ∃ q ∈ front, h.Leads q.path r.path := by
  rcases hb.records front r back hsplit with hroot | ⟨q, hq, hdep⟩
  · exact .inl hroot
  · have hmem : q ∈ h.registry.records := by
      rw [hsplit]
      exact List.mem_append_left _ hq
    exact .inr ⟨q, hq, q, Registry.get?_of_mem hs.nodup hmem, hdep⟩

/-- Registered modules are reached from the roots. -/
theorem Backed.reachable (hb : h.Backed roots) (hs : h.Sound) {front back : List ModuleRecord}
    {r : ModuleRecord} (hsplit : h.registry.records = front ++ r :: back) :
    ∃ root ∈ roots, ReflTransGen h.Leads root r.path := by
  rcases hb.leads hs hsplit with hroot | ⟨q, hq, hleads⟩
  · exact ⟨r.path, hroot, .refl⟩
  · obtain ⟨first, rest, hfront⟩ := List.append_of_mem hq
    have hearlier : h.registry.records = first ++ q :: (rest ++ r :: back) := by
      rw [hsplit, hfront, List.append_assoc, List.cons_append]
    obtain ⟨root, hroot, hreach⟩ := hb.reachable hs hearlier
    exact ⟨root, hroot, hreach.tail hleads⟩
termination_by front.length
decreasing_by
  rw [hfront, List.length_append, List.length_cons]
  omega

/-- What is reached from a path of a closed set is in the set. -/
theorem Closed.mem_of_reachable {paths : List ModulePath} (hc : h.Closed paths)
    (hb : h.Backed roots) {p q : ModulePath} (hreach : ReflTransGen h.Leads p q)
    (hp : p ∈ paths) : q ∈ paths := by
  induction hreach with
  | refl => exact hp
  | tail _ hleads ih =>
    obtain ⟨r, hr, hdep⟩ := hleads
    obtain ⟨known, hknown, hsub⟩ := hc _ ih
    cases (hb.holds hknown).symm.trans hr
    exact hsub hdep

end

/-! ### Calls -/

variable {net : Network} {h h' : Host} {roots : List ModulePath}

/-- Every call adds a root. -/
theorem addRoot_of_call {c : Call} {r : ModuleRecord} (heq : h.call net c = (.ok r, h')) :
    ∃ url, h.addRoot net c.path url = (.ok r, h') := by
  cases c with
  | root url => exact ⟨url.source, heq⟩
  | library name =>
    unfold call addLibrary at heq
    dsimp only at heq
    split at heq
    case h_1 => cases heq
    case h_2 url _ => exact ⟨url, heq⟩

theorem call_spec {c : Call} {r : ModuleRecord} (hs : h.Sound) (hq : h.Queued)
    (hb : h.Backed roots) (hroot : c.path ∈ roots) (heq : h.call net c = (.ok r, h')) :
    Grows h h' ∧ h'.Sound ∧ h'.Queued ∧ h'.Backed roots ∧
      ∃ paths, h'.Closed paths ∧ c.path ∈ paths := by
  obtain ⟨url, hadd⟩ := addRoot_of_call heq
  obtain ⟨hgrows, hsound, hqueued, hok⟩ := addRoot_spec hs hq hadd
  obtain ⟨-, -, paths, hpaths, hmem, -⟩ := hok r rfl
  exact ⟨hgrows, hsound, hqueued, hb.addRoot hs hq hroot hadd, paths, hpaths, hmem⟩

theorem callAll_spec {calls : List Call} (hs : h.Sound) (hq : h.Queued) (hb : h.Backed roots)
    (hroots : ∀ c ∈ calls, c.path ∈ roots) (heq : h.callAll net calls = (.ok (), h')) :
    Grows h h' ∧ h'.Sound ∧ h'.Backed roots ∧
      ∀ c ∈ calls, ∃ paths, h'.Closed paths ∧ c.path ∈ paths := by
  induction calls generalizing h with
  | nil =>
    cases heq
    exact ⟨.refl _, hs, hb, by simp⟩
  | cons c cs ih =>
    rw [callAll] at heq
    cases hcall : h.call net c with
    | mk outcome h₁ =>
      rw [hcall] at heq
      cases outcome with
      | error e => cases heq
      | ok r =>
        obtain ⟨hgrows₁, hs₁, hq₁, hb₁, paths, hpaths, hmem⟩ :=
          call_spec hs hq hb (hroots c List.mem_cons_self) hcall
        obtain ⟨hgrows, hsound, hbacked, hclosed⟩ :=
          ih hs₁ hq₁ hb₁ (fun d hd => hroots d (List.mem_cons_of_mem _ hd)) heq
        refine ⟨hgrows₁.trans hgrows, hsound, hbacked, fun d hd => ?_⟩
        rcases List.mem_cons.mp hd with rfl | hd
        · exact ⟨paths, hpaths.grows hgrows, hmem⟩
        · exact hclosed d hd

theorem backed_empty (settings : HostSettings) (roots : List ModulePath) :
    Backed roots { settings } :=
  ⟨rfl, by simp, fun front r back hsplit => by simp at hsplit⟩

/-- Calls that all succeed on a host that begins empty register the modules that are reached from
what they ask for, and no others; each is registered once, and each that was not asked for itself
behind one that depends on it. -/
theorem callAll_registers_reachable {settings : HostSettings} {calls : List Call}
    (heq : callAll net { settings } calls = (.ok (), h)) :
    h.registry.list.Nodup ∧
      (∀ p, p ∈ h.registry.list ↔ ∃ c ∈ calls, ReflTransGen h.Leads c.path p) ∧
      ∀ front p back, h.registry.list = front ++ p :: back → (∀ c ∈ calls, c.path ≠ p) →
        ∃ q ∈ front, h.Leads q p := by
  obtain ⟨-, hs, hb, hclosed⟩ := callAll_spec (sound_empty settings)
    (queued_empty settings) (backed_empty settings (calls.map Call.path))
    (fun c hc => List.mem_map_of_mem hc) heq
  refine ⟨hs.nodup, fun p => ⟨fun hp => ?_, ?_⟩, fun front p back hsplit hnot => ?_⟩
  · obtain ⟨r, hr, rfl⟩ := List.mem_map.mp hp
    obtain ⟨front, back, hsplit⟩ := List.append_of_mem hr
    obtain ⟨root, hroot, hreach⟩ := hb.reachable hs hsplit
    obtain ⟨c, hc, rfl⟩ := List.mem_map.mp hroot
    exact ⟨c, hc, hreach⟩
  · rintro ⟨c, hc, hreach⟩
    obtain ⟨paths, hpaths, hmem⟩ := hclosed c hc
    obtain ⟨r, hr, -⟩ := hpaths p (hpaths.mem_of_reachable hb hreach hmem)
    rw [← Registry.get?_isSome_iff, hb.holds hr]
    rfl
  · obtain ⟨first, rest, hrecords, rfl, hrest⟩ := List.map_eq_append_iff.mp hsplit
    obtain ⟨r, back', rfl, rfl, -⟩ := List.map_eq_cons_iff.mp hrest
    rcases hb.leads hs hrecords with hroot | ⟨q, hq, hleads⟩
    · obtain ⟨c, hc, hpath⟩ := List.mem_map.mp hroot
      exact absurd hpath (hnot c hc)
    · exact ⟨q.path, List.mem_map_of_mem hq, hleads⟩

/-- Modules that depend on each other in a ring, one of them on itself, and a library that refers
to another one. -/
def ring : Network := .ofFiles
  [("/a.ts", "import './b';\nimport '/c.ts';\n"), ("/b.ts", "import './d';\n"),
    ("/c.ts", "import '/d.ts';\n"), ("/d.ts", "import './d';\nimport '/a.ts';\n"),
    ("/lib.es5.d.ts", "/// <reference lib=\"dom\" />\n"), ("/lib.dom.d.ts", "// none\n")]

def ringSettings : HostSettings :=
  { origin := .ofName "", libBase := .ofName "", read := .ofLines }

def ringCalls : List Call := [.root (.ofName "a.ts"), .library "ES5"]

def ringHost : Host := (callAll ring { settings := ringSettings } ringCalls).2

theorem ring_callAll : callAll ring { settings := ringSettings } ringCalls = (.ok (), ringHost) :=
  eq_ok_of_fst_toOption (by decide +kernel)

/-- `callAll_registers_reachable` for the modules of the ring. -/
theorem ring_registers_reachable :
    ringHost.registry.list =
        [⟨"/a.ts"⟩, ⟨"/b.ts"⟩, ⟨"/c.ts"⟩, ⟨"/d.ts"⟩, ⟨"lib.es5.d.ts"⟩, ⟨"lib.dom.d.ts"⟩] ∧
      ringHost.registry.list.Nodup ∧
      (∀ p, p ∈ ringHost.registry.list ↔
        ∃ c ∈ ringCalls, ReflTransGen ringHost.Leads c.path p) ∧
      ∀ front p back, ringHost.registry.list = front ++ p :: back →
        (∀ c ∈ ringCalls, c.path ≠ p) → ∃ q ∈ front, ringHost.Leads q p :=
  ⟨by decide +kernel, callAll_registers_reachable ring_callAll⟩

end CompilingProxy.Host
