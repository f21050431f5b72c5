import CompilingProxy.Proofs.Gateway.Steady
import CompilingProxy.Proofs.Store.Keeping

/-!
# What the cache holds

Nothing is put into the cache but what modules of passes compile to, so that whatever holds of that
holds of all that the cache holds after a run of requests.
-/

namespace CompilingProxy

/-- What the store holds of compiled modules, as far as those keys go, is as claimed. -/
structure Store.Holds (keys : String → Prop) (kind : Store → Prop)
    (claim : String → List UInt8 → Prop) (s : Store) : Prop where
  isKind : kind s
  compiled : ∀ key bytes, keys key → s.get .compiled key = .ok (some bytes) → claim key bytes

namespace Gateway

/-- This is the pass that the request runs: the script can be had, and the cache has nothing fresh
of it. -/
def Runs (g : Gateway) (s : GatewayState) (a : Ask) (x : Response) (pass : CompiledPass) : Prop :=
  a.net (.bypass a.url.source) = .ok x ∧ x.isOk ∧
    s.store.freshEntry? a.url.source x.lastModified = none ∧
    (g.compile a.net (s.ask a.net (.bypass a.url.source)).2 a.url.source x).1 = .ok pass

/-- This is the pass that one of the requests ran. -/
def Ran (g : Gateway) (start : GatewayState) (asks : List Ask) (a : Ask) (x : Response)
    (pass : CompiledPass) : Prop :=
  ∃ earlier later, asks = earlier ++ a :: later ∧ g.Runs (g.serveAll start earlier) a x pass

theorem Ran.passes {g : Gateway} {start : GatewayState} {asks : List Ask} {a : Ask} {x : Response}
    {pass : CompiledPass} (h : g.Ran start asks a x pass) : a ∈ asks ∧ g.Passes a pass := by
  obtain ⟨earlier, later, rfl, hx, hok, -, hpass⟩ := h
  exact ⟨List.mem_append_right _ List.mem_cons_self, x, _, hx, hok, hpass⟩

/-- The module may be kept: it stands under one of the keys, and what it compiles to is as
claimed. -/
def MayKeep (keys : String → Prop) (claim : String → List UInt8 → Prop) (m : CompiledModule) :
    Prop :=
  keys m.url.source.text ∧ ∀ text i, m.compiled = some text → m.response.lastModified = some i →
    claim m.url.source.text (Text.bytes (CacheEntry.script m.url text i).toJson.render)

end Gateway

namespace Store.Holds

open Gateway

variable {keys : String → Prop} {kind : Store → Prop} {claim : String → List UInt8 → Prop}
  {store store' : Store}

theorem setConfig (hkind : AreHonestOn keys kind) (h : store.Holds keys kind claim) {key : String}
    {value : Json} (hset : store.setDocument .config key value = .ok store') :
    store'.Holds keys kind claim := by
  obtain ⟨hkind', hfound⟩ := hkind.setConfig h.isKind hset
  exact ⟨hkind', fun k bytes hk hbytes => h.compiled k bytes hk (hfound k bytes hk hbytes)⟩

theorem dropEntry (hkind : AreHonestOn keys kind) (h : store.Holds keys kind claim) (url : Url) :
    (store.dropEntry url).Holds keys kind claim := by
  rw [Store.dropEntry]
  split
  case h_1 store' hdelete =>
    obtain ⟨hkind', hfound⟩ := hkind.delete h.isKind hdelete
    exact ⟨hkind', fun k bytes hk hbytes => h.compiled k bytes hk (hfound k bytes hk hbytes)⟩
  case h_2 => exact h

theorem keep (hkind : AreHonestOn keys kind) (h : store.Holds keys kind claim) {m : CompiledModule}
    (hm : MayKeep keys claim m) : (Gateway.keep store m).Holds keys kind claim := by
  obtain ⟨hkey, hclaim⟩ := hm
  cases hcompiled : m.compiled with
  | none =>
    cases hmodified : m.response.lastModified with
    | none =>
      rw [Gateway.keep, hcompiled, hmodified]
      exact h.dropEntry hkind m.url
    | some i =>
      rw [Gateway.keep, hcompiled, hmodified]
      exact h
  | some text =>
    rw [Gateway.keep, hcompiled]
    cases hmodified : m.response.lastModified with
    | none => exact h.dropEntry hkind m.url
    | some i =>
      dsimp only [Store.keepCompiled]
      rw [Store.putEntry]
      split
      case h_1 store' hset =>
        obtain ⟨hkind', hfound⟩ := hkind.set h.isKind hkey hset
        refine ⟨hkind', fun k bytes hk hbytes => ?_⟩
        rcases hfound k bytes hk hbytes with ⟨rfl, rfl⟩ | hbytes
        · exact hclaim text i hcompiled hmodified
        · exact h.compiled k bytes hk hbytes
      case h_2 => exact h

theorem keepAll (hkind : AreHonestOn keys kind) (h : store.Holds keys kind claim)
    {ms : List CompiledModule} (hms : ∀ m ∈ ms, MayKeep keys claim m) :
    (ms.foldl Gateway.keep store).Holds keys kind claim := by
  induction ms generalizing store with
  | nil => exact h
  | cons m ms ih =>
    exact ih (h.keep hkind (hms m List.mem_cons_self))
      fun m' hm' => hms m' (List.mem_cons_of_mem _ hm')

variable {g : Gateway} {s start : GatewayState}

theorem loadConfig (hkind : AreHonestOn keys kind) (h : s.store.Holds keys kind claim)
    (net : Network) : (g.loadConfig net s).2.store.Holds keys kind claim := by
  unfold Gateway.loadConfig
  dsimp only [GatewayState.ask]
  split
  case h_1 => exact h
  case h_2 =>
    split
    case h_1 => exact h
    case h_2 =>
      split
      case h_1 hset => exact h.setConfig hkind hset
      case h_2 => exact h

theorem compile (hkind : AreHonestOn keys kind) (h : s.store.Holds keys kind claim)
    (net : Network) (url : Url) (x : Response) :
    (g.compile net s url x).2.store.Holds keys kind claim := by
  have hload := h.loadConfig (g := g) hkind net
  unfold Gateway.compile
  split
  case h_1 hfailed =>
    rw [hfailed] at hload
    exact hload
  case h_2 hloaded =>
    rw [hloaded] at hload
    exact hload

theorem respond (hkind : AreHonestOn keys kind) {a : Ask} (h : s.store.Holds keys kind claim)
    (hpass : ∀ x pass, g.Runs s a x pass → ∀ m ∈ pass.modules, MayKeep keys claim m) :
    (g.respond a.net s a.url).2.store.Holds keys kind claim := by
  unfold Gateway.respond
  dsimp only [GatewayState.ask]
  cases hanswer : a.net (.bypass a.url.source) with
  | error e => exact h
  | ok x =>
    dsimp only
    split
    case isTrue => exact h
    case isFalse hok =>
      rw [Bool.not_eq_true', Bool.not_eq_false] at hok
      split
      case h_1 => exact h
      case h_2 hstale =>
        have hheld := compile (g := g) hkind h a.net a.url.source x
          (s := { s with requests := s.requests ++ [.bypass a.url.source] })
        cases hcompile : g.compile a.net
            { s with requests := s.requests ++ [.bypass a.url.source] } a.url.source x with
        | mk outcome s₁ =>
          rw [hcompile] at hheld
          dsimp only
          have hdropped : (if x.lastModified.isNone
              then { s₁ with store := s₁.store.dropEntry a.url.source } else s₁).store.Holds
                keys kind claim := by
            split
            · exact hheld.dropEntry hkind _
            · exact hheld
          cases outcome with
          | error e => exact hdropped
          | ok pass =>
            exact hdropped.keepAll hkind
              (hpass x pass ⟨hanswer, hok, hstale, congrArg Prod.fst hcompile⟩)

/-- Answering a request leaves everything that the cache holds as claimed. -/
theorem compileRequest (hkind : AreHonestOn keys kind) {a : Ask}
    (h : s.store.Holds keys kind claim)
    (hpass : ∀ x pass, g.Runs s a x pass → ∀ m ∈ pass.modules, MayKeep keys claim m) :
    (g.compileRequest a.net s a.url).2.store.Holds keys kind claim := by
  have hrespond := h.respond hkind hpass
  unfold Gateway.compileRequest
  split
  case h_1 hanswered =>
    rw [hanswered] at hrespond
    exact hrespond
  case h_2 hfailed =>
    rw [hfailed] at hrespond
    exact hrespond

/-- Whatever is claimed of the modules of all passes of a run holds of what is in the cache then. -/
theorem serveAll (hkind : AreHonestOn keys kind) {asks : List Ask}
    (h : start.store.Holds keys kind claim)
    (hpass : ∀ a x pass, g.Ran start asks a x pass → ∀ m ∈ pass.modules, MayKeep keys claim m) :
    (g.serveAll start asks).store.Holds keys kind claim := by
  induction asks generalizing start with
  | nil => exact h
  | cons a asks ih =>
    refine ih (h.compileRequest hkind fun x pass hruns => hpass a x pass ⟨[], asks, rfl, hruns⟩) ?_
    rintro b x pass ⟨earlier, later, rfl, hruns⟩
    exact hpass b x pass ⟨a :: earlier, later, rfl, hruns⟩

end Store.Holds

/-- A fresh entry is the answer. -/
theorem Gateway.compileRequest_of_freshEntry {g : Gateway} {s : GatewayState} {a : Ask}
    {x : Response} {e : CacheEntry} (hanswer : a.net (.bypass a.url.source) = .ok x)
    (hok : x.isOk)
    (hfresh : s.store.freshEntry? a.url.source x.lastModified = some e) :
    (g.compileRequest a.net s a.url).1 =
      Gateway.scriptResponse a.url.source e.contentType e.body (some e.lastModified) := by
  unfold compileRequest respond
  dsimp only [GatewayState.ask]
  rw [hanswer]
  dsimp only
  rw [hok, Bool.not_true, if_neg Bool.false_ne_true, hfresh]

end CompilingProxy
