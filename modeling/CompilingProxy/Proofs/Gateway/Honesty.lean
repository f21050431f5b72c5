import CompilingProxy.Proofs.Gateway.Caching
import CompilingProxy.Proofs.Store.Directory

/-!
# Honest caches

Whatever becomes of the network between requests, what the cache holds of a source was compiled in a
pass of the run, and is dated as the answer was that it was compiled from. An answer from the cache
is not older than what the network said of the source at the time.
-/

namespace CompilingProxy

namespace Gateway

/-- The entry stands under its own address, which is one of a source. A module with that address was
compiled to its text in one of the passes, and was read from an answer of success with its date. -/
def IsRecorded (g : Gateway) (start : GatewayState) (asks : List Ask) (key : String)
    (e : CacheEntry) : Prop :=
  e.url = key ∧ ∃ a x pass, g.Ran start asks a x pass ∧ ∃ m ∈ pass.modules,
    m.url.text = key ∧ m.url.query = none ∧ m.url.fragment = none ∧ m.compiled = some e.body ∧
      ∃ u y, u.source = m.url ∧ a.net (.bypass u) = .ok y ∧ y.status = 200 ∧
        y.lastModified = some e.lastModified

/-- What a request is answered when nothing was cached before. -/
def freshAnswer (g : Gateway) (a : Ask) : Response :=
  (g.compileRequest a.net { store := .inMemory } a.url).1

variable {g : Gateway} {start s : GatewayState} {asks : List Ask} {keys : String → Prop}

/-! ### Entries -/

/-- What is put into the cache for a module of a pass is recorded. -/
theorem isRecorded_of_ran {a : Ask} {x : Response} {pass : CompiledPass} {m : CompiledModule}
    {text : String} {i : Instant} (hran : g.Ran start asks a x pass) (hm : m ∈ pass.modules)
    (hcompiled : m.compiled = some text) (hmodified : m.response.lastModified = some i) :
    Json.read CacheEntry.ofDocument (Text.bytes (CacheEntry.script m.url text i).toJson.render) =
        .ok (.script m.url text i) ∧
      g.IsRecorded start asks m.url.source.text (.script m.url text i) := by
  obtain ⟨earlier, later, -, hanswer, -, -, hcompile⟩ := id hran
  obtain ⟨config, h', -, hrun⟩ := runPass_of_compile hcompile
  obtain ⟨u, y, hu, hy, hok, hdate⟩ :=
    answer_of_runPass hrun hanswer a.url.source_source m hm
  rw [hmodified] at hdate
  have hsource : m.url.source = m.url := by rw [← hu, Url.source_source]
  obtain ⟨header, hheader⟩ : ∃ header, Instant.ofHeader? header = some i := by
    rw [Response.lastModified, eq_comm, Option.bind_eq_some_iff] at hdate
    obtain ⟨header, -, hheader⟩ := hdate
    exact ⟨header, hheader⟩
  refine ⟨CacheEntry.read_document
    (Instant.ofDocument?_documentText (Instant.isWritable_of_ofHeader? hheader)), rfl,
    a, x, pass, hran, m, hm, by rw [hsource], ?_, ?_, hcompiled, u, y, hu, hy,
    beq_iff_eq.mp hok, hdate.symm⟩
  · rw [← hsource]
    exact Url.source_query
  · rw [← hsource]
    exact Url.source_fragment

theorem serveAll_isRecorded (hstart : start.store.IsEmptyFor keys)
    (hkeys : ∀ a x pass, g.Ran start asks a x pass → ∀ m ∈ pass.modules, keys m.url.source.text)
    (key : String) (bytes : List UInt8) (hkey : keys key)
    (hbytes : (g.serveAll start asks).store.get .compiled key = .ok (some bytes)) :
    ∃ e, Json.read CacheEntry.ofDocument bytes = .ok e ∧ g.IsRecorded start asks key e := by
  obtain ⟨kind, hkind, hisKind, hempty⟩ := hstart.exists_kind
  have hholds : (g.serveAll start asks).store.Holds keys kind fun key bytes =>
      ∃ e, Json.read CacheEntry.ofDocument bytes = .ok e ∧ g.IsRecorded start asks key e := by
    refine Store.Holds.serveAll hkind
      ⟨hisKind, fun key bytes _ hbytes => absurd hbytes (hempty key bytes)⟩ ?_
    intro a x pass hran m hm
    refine ⟨hkeys a x pass hran m hm, fun text i hcompiled hmodified => ?_⟩
    exact ⟨_, isRecorded_of_ran hran hm hcompiled hmodified⟩
  exact hholds.compiled key bytes hkey hbytes

/-! ### Answers -/

/-- Without a fresh entry the cache has nothing to do with the answer. -/
theorem compileRequest_eq_freshAnswer {a : Ask}
    (hstale : ∀ x, a.net (.bypass a.url.source) = .ok x → x.isOk →
      s.store.freshEntry? a.url.source x.lastModified = none) :
    (g.compileRequest a.net s a.url).1 = g.freshAnswer a := by
  have hrespond : (g.respond a.net s a.url).1 =
      (g.respond a.net { store := .inMemory } a.url).1 := by
    unfold respond
    dsimp only [GatewayState.ask]
    cases hanswer : a.net (.bypass a.url.source) with
    | error e => rfl
    | ok x =>
      dsimp only
      split
      case isTrue => rfl
      case isFalse hok =>
        rw [Bool.not_eq_true', Bool.not_eq_false] at hok
        have hnothing : Store.inMemory.freshEntry? a.url.source x.lastModified = none := by
          cases x.lastModified <;> rfl
        rw [hstale x hanswer hok, hnothing]
        dsimp only
        rw [compile_fst _ { store := .inMemory, requests := [] ++ [.bypass a.url.source] }]
        cases (g.compile a.net { store := .inMemory, requests := [] ++ [.bypass a.url.source] }
          a.url.source x).1 <;> rfl
  rw [freshAnswer, compileRequest, compileRequest]
  cases hout : g.respond a.net s a.url with
  | mk outcome s₁ =>
    cases hout' : g.respond a.net { store := .inMemory } a.url with
    | mk outcome' s₁' =>
      rw [hout, hout'] at hrespond
      cases hrespond
      cases outcome <;> rfl

/-- Over every run of requests that begins with an empty cache, whatever the network answers at each
of them, what the cache holds is recorded: it stands under its own address, which is one of a source,
and is what a module with that address compiled to in an earlier pass, with the date of the answer of
success that the module was read from. An answer from the cache is what is recorded of the source
that is asked for, with a date that is not older than the one that the network gave for this very
request. All other answers are those of an empty cache, and so is each to a request for a source that
is not dated. -/
theorem cache_is_honest (hstart : start.store.IsEmptyFor keys)
    (hkeys : ∀ a x pass, g.Ran start asks a x pass → ∀ m ∈ pass.modules, keys m.url.source.text) :
    let s := g.serveAll start asks
    (∀ key bytes, keys key → s.store.get .compiled key = .ok (some bytes) →
        ∃ e, Json.read CacheEntry.ofDocument bytes = .ok e ∧ g.IsRecorded start asks key e) ∧
      ∀ last : Ask, keys last.url.source.text →
        ((g.compileRequest last.net s last.url).1 = g.freshAnswer last ∨
          ∃ x e i, last.net (.bypass last.url.source) = .ok x ∧ x.isOk ∧
            x.lastModified = some i ∧ i.le e.lastModified ∧
            s.store.cached? last.url.source = some e ∧
            g.IsRecorded start asks last.url.source.text e ∧
            (g.compileRequest last.net s last.url).1 =
              scriptResponse last.url.source e.contentType e.body (some e.lastModified)) ∧
        ∀ x, last.net (.bypass last.url.source) = .ok x → x.lastModified = none →
          (g.compileRequest last.net s last.url).1 = g.freshAnswer last := by
  intro s
  have hentries := serveAll_isRecorded hstart hkeys
  refine ⟨hentries, fun last hlast => ⟨?_, fun x hanswer hundated => ?_⟩⟩
  · by_cases hstale : ∀ x, last.net (.bypass last.url.source) = .ok x → x.isOk →
        s.store.freshEntry? last.url.source x.lastModified = none
    · exact .inl (compileRequest_eq_freshAnswer hstale)
    · push Not at hstale
      obtain ⟨x, hanswer, hok, hhit⟩ := hstale
      obtain ⟨e, hfresh⟩ := Option.ne_none_iff_exists'.mp hhit
      cases hmodified : x.lastModified with
      | none =>
        rw [hmodified] at hfresh
        cases hfresh
      | some i =>
        have hserved := compileRequest_of_freshEntry hanswer hok hfresh (g := g)
        rw [hmodified] at hfresh
        obtain ⟨hcached, hdate⟩ := Store.cached_of_fresh hfresh
        obtain ⟨bytes, hbytes, hread⟩ := Store.read_of_cached hcached
        rw [Url.source_source] at hbytes
        obtain ⟨e', hread', hrecorded⟩ := hentries _ bytes hlast hbytes
        cases hread.symm.trans hread'
        exact .inr ⟨x, e, i, hanswer, hok, hmodified, hdate, hcached, hrecorded, hserved⟩
  · refine compileRequest_eq_freshAnswer fun y hy _ => ?_
    cases hanswer.symm.trans hy
    rw [hundated]
    rfl

/-! ### A site behind a store in a directory -/

def filedStart : GatewayState := { store := .inDirectory "/store" }

/-- The keys that a run for the site meets. -/
def siteKeys (key : String) : Prop :=
  key = "http://app.test/main.ts" ∨ key = "http://app.test/util.ts"

theorem filedStart_isEmptyFor : filedStart.store.IsEmptyFor siteKeys := by
  refine .inr ⟨"/store", rfl, ?_⟩
  have hapart : Store.entryName "http://app.test/main.ts" ≠
      Store.entryName "http://app.test/util.ts" := by decide +kernel
  rintro k l (rfl | rfl) (rfl | rfl) hsame
  · rfl
  · exact absurd hsame hapart
  · exact absurd hsame.symm hapart
  · rfl

/-- `cache_is_honest` for a script that is imported by the one that is asked for, with a store in
memory, and for all entries of a store in a directory. -/
theorem site_cache_is_honest :
    (∃ bytes e, (siteGateway.serveAll siteStart siteAsks).store.get .compiled
        "http://app.test/util.ts" = .ok (some bytes) ∧
      Json.read CacheEntry.ofDocument bytes = .ok e ∧
      siteGateway.IsRecorded siteStart siteAsks "http://app.test/util.ts" e) ∧
    ∀ key bytes, siteKeys key →
      (siteGateway.serveAll filedStart siteAsks).store.get .compiled key = .ok (some bytes) →
        ∃ e, Json.read CacheEntry.ofDocument bytes = .ok e ∧
          siteGateway.IsRecorded filedStart siteAsks key e := by
  have hkeys : ∀ a x pass, siteGateway.Ran filedStart siteAsks a x pass →
      ∀ m ∈ pass.modules, siteKeys m.url.source.text := by
    intro a x pass hran m hm
    obtain ⟨ha, hpass⟩ := hran.passes
    rw [siteAsks, List.mem_singleton] at ha
    have hall : ((siteGateway.passOf? ⟨site, .ofName "main.ts"⟩).all fun pass =>
        pass.modules.all fun m => m.url.source.text == "http://app.test/main.ts" ||
          m.url.source.text == "http://app.test/util.ts") = true := by decide +kernel
    rw [passes_iff, ha] at hpass
    rw [hpass, Option.all_some, List.all_eq_true] at hall
    simpa [siteKeys] using hall m hm
  refine ⟨?_, (cache_is_honest filedStart_isEmptyFor hkeys).1⟩
  have hsome : ((siteGateway.serveAll siteStart siteAsks).store.get .compiled
      "http://app.test/util.ts").toOption.join.isSome := by decide +kernel
  have hentries : ∀ key bytes, True →
      (siteGateway.serveAll siteStart siteAsks).store.get .compiled key = .ok (some bytes) →
      ∃ e, Json.read CacheEntry.ofDocument bytes = .ok e ∧
        siteGateway.IsRecorded siteStart siteAsks key e :=
    (cache_is_honest (.inl rfl) fun _ _ _ _ _ _ => trivial).1
  cases hget : (siteGateway.serveAll siteStart siteAsks).store.get .compiled
      "http://app.test/util.ts" with
  | error e =>
    rw [hget] at hsome
    cases hsome
  | ok found =>
    cases found with
    | none =>
      rw [hget] at hsome
      cases hsome
    | some bytes =>
      obtain ⟨e, hread, hrecorded⟩ := hentries _ bytes trivial hget
      exact ⟨bytes, e, rfl, hread, hrecorded⟩

end Gateway

end CompilingProxy
