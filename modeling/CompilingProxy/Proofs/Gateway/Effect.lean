import CompilingProxy.Proofs.Gateway.Honesty
import CompilingProxy.Proofs.Store.Table

/-!
# What a request does to the cache

A request changes nothing of what the cache holds unless a pass is begun for it. A pass that fails
empties the row of its script if the script is not dated, and that is all. A pass that succeeds
goes on to record its modules, one after another.
-/

namespace CompilingProxy

/-- What a module of a pass leaves in its row: its entry if it compiles to something and is dated,
nothing if it is not dated, and what there was if it does not compile. An entry that the store does
not take is not written. -/
def CompiledModule.row (takes : String → Bool) (m : CompiledModule) (old : Option (List UInt8)) :
    Option (List UInt8) :=
  match m.response.lastModified, m.compiled with
  | none, _ => none
  | some _, none => old
  | some i, some text =>
    if takes m.url.source.text then
      some (Text.bytes (CacheEntry.script m.url text i).toJson.render)
    else old

namespace Holdings

variable {takes : String → Bool} {held : Holdings} {m : CompiledModule} {key : String}

/-- With the row of a source emptied. -/
def drop (held : Holdings) (url : Url) : Holdings := Function.update held url.source.text none

/-- With the row of a source emptied that is not dated. -/
def dropUndated (held : Holdings) (url : Url) (x : Response) : Holdings :=
  if x.lastModified.isNone then held.drop url else held

def record (takes : String → Bool) (held : Holdings) (m : CompiledModule) : Holdings :=
  Function.update held m.url.source.text (m.row takes (held m.url.source.text))

end Holdings

/-! ### What becomes of the store -/

namespace Store.Becomes

variable {keys : Set String} {start store : Store} {held : Holdings}

theorem dropEntry (h : start.Becomes keys held store) {url : Url}
    (hkey : url.source.text ∈ keys) :
    start.Becomes keys (held.drop url) (store.dropEntry url) := by
  rw [Store.dropEntry]
  split
  case h_1 store' hdelete =>
    exact (h.trans (h.sound.delete hkey hdelete)).congr (eqOn_update h.held _ _)
  case h_2 hfailed =>
    -- What cannot be taken away could not be had before, either.
    refine h.congr fun l hl => ?_
    by_cases hsame : l = url.source.text
    · rw [← h.held hl, hsame, held?_of_delete_error hfailed, Holdings.drop, Function.update_self]
    · rw [Holdings.drop, Function.update_of_ne hsame]

theorem putEntry (h : start.Becomes keys held store) {entry : CacheEntry}
    (hkey : entry.url ∈ keys) :
    start.Becomes keys
      (Function.update held entry.url
        (if start.takes entry.url then some (Text.bytes entry.toJson.render) else held entry.url))
      (store.putEntry entry) := by
  rw [Store.putEntry, setDocument, ← h.takes _ hkey]
  cases hset : store.set .compiled entry.url (Text.bytes entry.toJson.render) with
  | ok store' =>
    rw [if_pos (takes_of_set hset)]
    exact (h.trans (h.sound.set hkey hset)).congr (eqOn_update h.held _ _)
  | error e =>
    rw [if_neg, Function.update_eq_self]
    · exact h
    · intro htakes
      obtain ⟨store', hset'⟩ := set_of_takes htakes (Text.bytes entry.toJson.render)
      cases hset.symm.trans hset'

theorem keep (h : start.Becomes keys held store) {m : CompiledModule}
    (hkey : m.url.source.text ∈ keys) :
    start.Becomes keys (held.record start.takes m) (Gateway.keep store m) := by
  rw [Holdings.record, CompiledModule.row, Gateway.keep]
  cases m.response.lastModified with
  | none => cases m.compiled <;> exact h.dropEntry hkey
  | some i =>
    cases m.compiled with
    | none =>
      dsimp only
      rw [Function.update_eq_self]
      exact h
    | some text => exact h.putEntry (show (CacheEntry.script m.url text i).url ∈ keys from hkey)

theorem keepAll {ms : List CompiledModule} (h : start.Becomes keys held store)
    (hkeys : ∀ m ∈ ms, m.url.source.text ∈ keys) :
    start.Becomes keys (ms.foldl (Holdings.record start.takes) held)
      (ms.foldl Gateway.keep store) := by
  induction ms generalizing held store with
  | nil => exact h
  | cons m ms ih =>
    exact ih (h.keep (hkeys m List.mem_cons_self))
      fun m' hm' => hkeys m' (List.mem_cons_of_mem _ hm')

variable {g : Gateway} {s : GatewayState}

theorem loadConfig (h : start.Becomes keys held s.store) (net : Network) :
    start.Becomes keys held (g.loadConfig net s).2.store := by
  unfold Gateway.loadConfig
  dsimp only [GatewayState.ask]
  split
  case h_1 => exact h
  case h_2 =>
    split
    case h_1 => exact h
    case h_2 =>
      split
      case h_1 hset => exact (h.trans (h.sound.setConfig hset)).congr h.held
      case h_2 => exact h

theorem compile (h : start.Becomes keys held s.store) (net : Network) (url : Url) (x : Response) :
    start.Becomes keys held (g.compile net s url x).2.store := by
  have hload := h.loadConfig (g := g) net
  unfold Gateway.compile
  split
  case h_1 hfailed =>
    rw [hfailed] at hload
    exact hload
  case h_2 hloaded =>
    rw [hloaded] at hload
    exact hload

end Store.Becomes

namespace Gateway

variable {g : Gateway} {s : GatewayState} {a : Ask} {x : Response} {pass : CompiledPass}
  {keys : Set String}

/-- A pass is begun: the script can be had, and the cache has nothing fresh of it. -/
def Begins (s : GatewayState) (a : Ask) (x : Response) : Prop :=
  a.net (.bypass a.url.source) = .ok x ∧ x.isOk ∧
    s.store.freshEntry? a.url.source x.lastModified = none

/-- What comes of the pass that is begun. -/
def outcome (g : Gateway) (s : GatewayState) (a : Ask) (x : Response) :
    Except GatewayError CompiledPass :=
  (g.compile a.net (s.ask a.net (.bypass a.url.source)).2 a.url.source x).1

theorem runs_iff : g.Runs s a x pass ↔ Begins s a x ∧ g.outcome s a x = .ok pass := by
  rw [Runs, Begins, outcome, and_assoc, and_assoc]

theorem store_of_not_begun (h : ∀ x, ¬Begins s a x) :
    (g.compileRequest a.net s a.url).2.store = s.store := by
  have hrespond : (g.respond a.net s a.url).2.store = s.store := by
    unfold respond
    dsimp only [GatewayState.ask]
    cases hanswer : a.net (.bypass a.url.source) with
    | error e => rfl
    | ok x =>
      dsimp only
      split
      case isTrue => rfl
      case isFalse hok =>
        rw [Bool.not_eq_true', Bool.not_eq_false] at hok
        split
        case h_1 => rfl
        case h_2 hstale => exact absurd ⟨hanswer, hok, hstale⟩ (h x)
  unfold compileRequest
  split
  case h_1 hanswered =>
    rw [hanswered] at hrespond
    exact hrespond
  case h_2 hfailed =>
    rw [hfailed] at hrespond
    exact hrespond

/-- What is left of a store once the pass is over and the script's row is emptied if need be. -/
def afterPass (g : Gateway) (s : GatewayState) (a : Ask) (x : Response) : Store :=
  let store := (g.compile a.net (s.ask a.net (.bypass a.url.source)).2 a.url.source x).2.store
  if x.lastModified.isNone then store.dropEntry a.url.source else store

/-- What is answered once a pass is begun is a matter of what comes of it, and so is what is kept. -/
theorem compileRequest_of_begun (h : Begins s a x) :
    ∃ requests, g.compileRequest a.net s a.url =
      match g.outcome s a x with
      | .error e => (failure a.url e.message, ⟨g.afterPass s a x, requests⟩)
      | .ok pass =>
        (answerOf a.url.source pass, ⟨pass.modules.foldl keep (g.afterPass s a x), requests⟩) := by
  obtain ⟨hanswer, hok, hstale⟩ := h
  unfold compileRequest respond outcome afterPass
  dsimp only [GatewayState.ask]
  rw [hanswer]
  dsimp only
  rw [hok, Bool.not_true, if_neg Bool.false_ne_true, hstale]
  dsimp only
  generalize g.compile a.net _ a.url.source x = compiled
  obtain ⟨outcome, s₁⟩ := compiled
  refine ⟨s₁.requests, ?_⟩
  cases outcome with
  | error e =>
    dsimp only
    split <;> rfl
  | ok pass =>
    dsimp only
    split <;> rfl

theorem store_of_begun (h : Begins s a x) :
    (g.compileRequest a.net s a.url).2.store =
      match g.outcome s a x with
      | .error _ => g.afterPass s a x
      | .ok pass => pass.modules.foldl keep (g.afterPass s a x) := by
  obtain ⟨requests, hbegun⟩ := compileRequest_of_begun (g := g) h
  rw [hbegun]
  cases g.outcome s a x <;> rfl

/-- Whatever comes of the pass, the script's row is emptied if the script is not dated. -/
theorem becomes_afterPass (hstore : s.store.IsSoundFor keys) (hsource : a.url.source.text ∈ keys) :
    s.store.Becomes keys (s.store.held?.dropUndated a.url x) (g.afterPass s a x) := by
  have hbefore : s.store.Becomes keys s.store.held?
      (s.ask a.net (.bypass a.url.source)).2.store := .refl hstore
  have hcompiled := hbefore.compile (g := g) a.net a.url.source x
  rw [afterPass, Holdings.dropUndated]
  split
  case isTrue =>
    have hkey : a.url.source.source.text ∈ keys := by rwa [Url.source_source]
    have hdropped := hcompiled.dropEntry hkey
    rwa [Holdings.drop, Url.source_source] at hdropped
  case isFalse => exact hcompiled

/-- A request leaves a sound store sound, so that what is said of one request holds of any number of
them in turn. -/
theorem isSoundFor_compileRequest (hstore : s.store.IsSoundFor keys)
    (hsource : a.url.source.text ∈ keys)
    (hkeys : ∀ x pass, g.Runs s a x pass → ∀ m ∈ pass.modules, m.url.source.text ∈ keys) :
    (g.compileRequest a.net s a.url).2.store.IsSoundFor keys := by
  by_cases hbegins : ∃ x, Begins s a x
  · obtain ⟨x, hbegins⟩ := hbegins
    have hafter := becomes_afterPass (g := g) (x := x) hstore hsource
    rw [store_of_begun hbegins]
    cases houtcome : g.outcome s a x with
    | error e => exact hafter.sound
    | ok pass => exact (hafter.keepAll (hkeys x pass (runs_iff.mpr ⟨hbegins, houtcome⟩))).sound
  · rw [store_of_not_begun (not_exists.mp hbegins)]
    exact hstore

end Gateway

/-! ### A script without a date -/

namespace Gateway

end Gateway

end CompilingProxy
