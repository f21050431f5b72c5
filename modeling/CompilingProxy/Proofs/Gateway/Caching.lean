import CompilingProxy.Proofs.Gateway.Record
import CompilingProxy.Proofs.Sketch
import CompilingProxy.Proofs.Store.Entry
import CompilingProxy.Proofs.Time.Reading

/-!
# Answers from the cache

An answer from the cache is the one that a pass would have given, as long as sources that changed
are marked as changed. What the cache holds of a source was compiled in some pass before, which may
have been one for another script; a module compiles to the same in every pass that gets the same
answer for it.
-/

namespace CompilingProxy

theorem Network.ofDatedFiles_isPlain (files : List (String × String)) :
    (ofDatedFiles files).IsPlain := by
  intro r r' hsource
  rw [ofDatedFiles, ofDatedFiles, hsource]
  split
  · rfl
  · rfl

namespace Gateway

/-! ### What the cache holds -/

/-- The bytes under the key are what a module of one of the passes for the requests compiles to. -/
def IsRecord (g : Gateway) (asks : List Ask) (key : String) (bytes : List UInt8) : Prop :=
  ∃ a ∈ asks, ∃ pass, g.Passes a pass ∧ ∃ m ∈ pass.modules, ∃ text i, m.compiled = some text ∧
    m.response.lastModified = some i ∧ key = m.url.source.text ∧
    bytes = Text.bytes (CacheEntry.script m.url text i).toJson.render

theorem serveAll_isRecord {g : Gateway} {kind : Store → Prop} {start : GatewayState}
    {asks : List Ask} (hkind : Store.AreHonest kind) (hstart : kind start.store)
    (hempty : ∀ key, start.store.get .compiled key = .ok none) :
    (g.serveAll start asks).store.Holds (fun _ => True) kind (g.IsRecord asks) := by
  refine Store.Holds.serveAll (hkind.on _) ⟨hstart, fun key bytes _ hbytes => ?_⟩ ?_
  · rw [hempty] at hbytes
    cases hbytes
  · intro a x pass hran m hm
    obtain ⟨ha, hpass⟩ := hran.passes
    exact ⟨trivial, fun text i hcompiled hmodified =>
      ⟨a, ha, pass, hpass, m, hm, text, i, hcompiled, hmodified, rfl, rfl⟩⟩

/-! ### Answers -/

section

variable {g : Gateway} {options : CompilerOptions} {kind : Store → Prop} {start : GatewayState}
  {asks : List Ask} {last : Ask} {x : Response} {entry : CacheEntry} {pass : CompiledPass}

theorem answerOf_compiled {url : Url} {m : CompiledModule} {text : String}
    (hfound : pass.atUrl? url = some m) (hcompiled : m.compiled = some text) :
    answerOf url pass =
      scriptResponse url CacheEntry.scriptType text m.response.lastModified := by
  obtain ⟨path, url', compiled, groups, response⟩ := m
  cases hcompiled
  rw [answerOf, hfound]

/-- Only compiled text is answered with success. -/
theorem compiled_of_status {url : Url} (h : (answerOf url pass).status = 200) :
    ∃ m, pass.atUrl? url = some m ∧ m.compiled.isSome := by
  rw [answerOf] at h
  split at h
  case h_1 hfound => exact ⟨_, hfound, rfl⟩
  case h_2 =>
    split at h
    · cases h
    · cases h

/-- What is served of a source is what a module of an earlier pass compiles to, and the source has
not changed since. -/
theorem entry_of_hit (hkind : Store.AreHonest kind) (hstart : kind start.store)
    (hempty : ∀ key, start.store.get .compiled key = .ok none)
    (hsteady : g.IsSteady options (asks ++ [last]))
    (hanswer : last.net (.bypass last.url.source) = .ok x) (hok : x.isOk)
    (hhit : (g.serveAll start asks).store.freshEntry? last.url.source x.lastModified =
      some entry) :
    ∃ text i, x.lastModified = some i ∧ entry = .script last.url.source text i ∧
      ∃ (m : CompiledModule) (i' : Ingestion) (x' : Response),
        m.Renders (g.passSettings options) i' x' ∧ x'.body = x.body ∧
          m.path = ModulePath.ofUrl last.url.source ∧ m.compiled = some text := by
  have hrecord : (g.serveAll start asks).store.Holds (fun _ => True) kind (g.IsRecord asks) :=
    serveAll_isRecord hkind hstart hempty
  cases hmodified : x.lastModified with
  | none =>
    rw [hmodified] at hhit
    cases hhit
  | some j =>
    rw [hmodified] at hhit
    obtain ⟨hcached, hfresh⟩ := Store.cached_of_fresh hhit
    obtain ⟨bytes, hbytes, hread⟩ := Store.read_of_cached hcached
    obtain ⟨a, ha, pass, hpass, m, hm, text, i, hcompiled, hmodified₀, htext, rfl⟩ :=
      hrecord.compiled _ _ trivial hbytes
    have ha' : a ∈ asks ++ [last] := List.mem_append_left _ ha
    obtain ⟨_, _, hany⟩ := renders_of_pass (hsteady.configured a ha') hsteady.emits hpass hm
    have hsource : m.path.isLibrary = false := by
      cases hlibrary : m.path.isLibrary with
      | false => rfl
      | true =>
        rw [hany.compiled_of_isLibrary hlibrary] at hcompiled
        cases hcompiled
    obtain ⟨hpath, i', x', hanswer', hok', hrenders⟩ := module_of_pass (hsteady.plain a ha')
      (hsteady.configured a ha') hsteady.emits
      (hsteady.located a ha' pass hpass m hm hsource) hpass hm hsource
    have hsourceUrl : m.url.source = m.url := by rw [hrenders.url, Url.source_source]
    have hurl : m.url = last.url.source := by
      rw [Url.source_source, hsourceUrl] at htext
      exact hsteady.named _ _ ⟨a, ha', .inr ⟨pass, hpass, m, hm, rfl⟩⟩
        ⟨last, List.mem_append_right _ List.mem_cons_self, .inl rfl⟩ htext.symm
    rw [hrenders.lastModified] at hmodified₀
    have hentry : entry = .script m.url text i := by
      obtain ⟨date, hdate⟩ : ∃ date, Instant.ofHeader? date = some i := by
        rw [Response.lastModified, Option.bind_eq_some_iff] at hmodified₀
        obtain ⟨date, -, hdate⟩ := hmodified₀
        exact ⟨date, hdate⟩
      have hdocument := Instant.ofDocument?_documentText (Instant.isWritable_of_ofHeader? hdate)
      rw [CacheEntry.read_document (e := .script m.url text i) hdocument] at hread
      exact (Except.ok.inj hread).symm
    rw [hurl] at hanswer' hpath hentry
    have hprecedes : a.net.Precedes last.net :=
      (List.pairwise_append.mp hsteady.inOrder).2.2 a ha last List.mem_cons_self
    obtain ⟨hle, hbody⟩ := hprecedes _ _ _ _ _ hanswer' hanswer hok' hok hmodified₀ hmodified
    have hij : i = j := by
      rw [hentry] at hfresh
      exact Instant.le_antisymm hle hfresh
    exact ⟨text, i, by rw [hij], hentry, m, i', x', hrenders, hbody hij, hpath, hcompiled⟩

theorem cached_answer_eq_iff (hkind : Store.AreHonest kind) (hstart : kind start.store)
    (hempty : ∀ key, start.store.get .compiled key = .ok none)
    (hsteady : g.IsSteady options (asks ++ [last]))
    (hanswer : last.net (.bypass last.url.source) = .ok x) (hok : x.isOk)
    (hhit : (g.serveAll start asks).store.freshEntry? last.url.source x.lastModified =
      some entry)
    {s : GatewayState} (hpass : (g.compile last.net s last.url.source x).1 = .ok pass) :
    (g.compileRequest last.net (g.serveAll start asks) last.url).1 =
        answerOf last.url.source pass ↔
      ∃ m, pass.atUrl? last.url.source = some m ∧ m.path.isLibrary = false := by
  have hlast : last ∈ asks ++ [last] := List.mem_append_right _ List.mem_cons_self
  have hpasses : g.Passes last pass := ⟨x, s, hanswer, hok, hpass⟩
  obtain ⟨text, i, hmodified, rfl, m₀, i₀, x₀, hrenders₀, hbody, hpath₀, hcompiled₀⟩ :=
    entry_of_hit hkind hstart hempty hsteady hanswer hok hhit
  have hserved : (g.compileRequest last.net (g.serveAll start asks) last.url).1 =
      scriptResponse last.url.source CacheEntry.scriptType text (some i) :=
    compileRequest_of_freshEntry hanswer hok hhit
  rw [hserved]
  constructor
  · intro hsame
    have hstatus : (answerOf last.url.source pass).status = 200 := by
      rw [← hsame]
      rfl
    obtain ⟨m, hfound, hcompiled⟩ := compiled_of_status hstatus
    have hm : m ∈ pass.modules := List.mem_of_find?_eq_some hfound
    obtain ⟨_, _, hrenders⟩ := renders_of_pass (hsteady.configured last hlast) hsteady.emits
      hpasses hm
    refine ⟨m, hfound, ?_⟩
    cases hlibrary : m.path.isLibrary with
    | false => rfl
    | true =>
      rw [hrenders.compiled_of_isLibrary hlibrary] at hcompiled
      cases hcompiled
  · rintro ⟨m, hfound, hsource⟩
    have hm : m ∈ pass.modules := List.mem_of_find?_eq_some hfound
    have hurl : m.url = last.url.source := by
      have hat := List.find?_some hfound
      rw [Url.source_source] at hat
      exact eq_of_beq hat
    obtain ⟨hpath, i', x', hanswer', -, hrenders⟩ := module_of_pass (hsteady.plain last hlast)
      (hsteady.configured last hlast) hsteady.emits
      (hsteady.located last hlast pass hpasses m hm hsource) hpasses hm hsource
    rw [hurl, hanswer] at hanswer'
    cases hanswer'
    have hcompiled : m.compiled = some text := by
      rw [hrenders.compiled_eq hrenders₀ (by rw [hpath, hurl, hpath₀]) hbody.symm, hcompiled₀]
    rw [answerOf_compiled hfound hcompiled, hrenders.lastModified, hmodified]

end

/-! ### A site that stays the same -/

/-- A gateway in front of a site that its libraries are on, too. -/
def siteGateway : Gateway :=
  { settings := {}, origin := .ofName "", libBase := .ofName "", configUrl := .ofName "tsconfig.json",
    read := .ofLines }

/-- A script and what it imports. -/
def site : Network := .ofDatedFiles
  [("/tsconfig.json", "\x7b\x7d"), ("/main.ts", "import './util';\n"), ("/util.ts", "// none\n")]

def siteAsks : List Ask := [⟨site, .ofName "main.ts"⟩]

def siteLast : Ask := ⟨site, .ofName "util.ts"⟩

def siteConfig : Config :=
  (siteGateway.loadConfig site ⟨.inMemory, []⟩).1.toOption.get (by decide +kernel)

theorem site_isPlain : site.IsPlain := Network.ofDatedFiles_isPlain _

theorem site_isSteady : siteGateway.IsSteady siteConfig.options (siteAsks ++ [siteLast]) :=
  isSteady_of_unchanging site_isPlain
    (by simp [siteAsks, siteLast])
    (Option.some_get _).symm (by decide +kernel) (by decide +kernel) (by decide +kernel)

def siteStart : GatewayState := { store := .inMemory }

def siteAnswer : Response :=
  (site (.bypass siteLast.url.source)).toOption.get (by decide +kernel)

theorem site_answer : site (.bypass siteLast.url.source) = .ok siteAnswer := rfl

theorem siteAnswer_isOk : siteAnswer.isOk := by decide +kernel

def siteEntry : CacheEntry :=
  ((siteGateway.serveAll siteStart siteAsks).store.freshEntry? siteLast.url.source
    siteAnswer.lastModified).get (by decide +kernel)

theorem site_hit : (siteGateway.serveAll siteStart siteAsks).store.freshEntry? siteLast.url.source
    siteAnswer.lastModified = some siteEntry := (Option.some_get _).symm

def sitePass : CompiledPass :=
  (siteGateway.compile site siteStart siteLast.url.source siteAnswer).1.toOption.get
    (by decide +kernel)

theorem site_compile :
    (siteGateway.compile site siteStart siteLast.url.source siteAnswer).1 = .ok sitePass :=
  congrArg Prod.fst (eq_ok_of_fst_toOption (Option.some_get _).symm)

/-- `cached_answer_eq_iff` for a script that was compiled along with one that imports it. -/
theorem site_cached_answer :
    siteEntry.body = "// none\n" ∧
      sitePass.modules.map (fun m => (m.path, m.url)) = [(⟨"/util.ts"⟩, .ofName "util.ts")] ∧
      ((siteGateway.compileRequest siteLast.net (siteGateway.serveAll siteStart siteAsks)
          siteLast.url).1 = answerOf siteLast.url.source sitePass ↔
        ∃ m, sitePass.atUrl? siteLast.url.source = some m ∧ m.path.isLibrary = false) :=
  ⟨by decide +kernel, by decide +kernel,
    cached_answer_eq_iff Store.areHonest_memory ⟨_, rfl⟩ (fun _ => rfl) site_isSteady site_answer
      siteAnswer_isOk site_hit site_compile⟩

/-- A site with a library that stands at the address of a script. -/
def sharedSite : Network := .ofDatedFiles
  [("/tsconfig.json", "\x7b\"compilerOptions\":\x7b\"lib\":[\"a.ts?\"]\x7d\x7d"),
    ("/lib.a.ts", "// none\n")]

def sharedAsk : Ask := ⟨sharedSite, .ofName "lib.a.ts"⟩

def sharedConfig : Config :=
  (siteGateway.loadConfig sharedSite ⟨.inMemory, []⟩).1.toOption.get (by decide +kernel)

theorem sharedSite_isPlain : sharedSite.IsPlain := Network.ofDatedFiles_isPlain _

theorem sharedSite_isSteady :
    siteGateway.IsSteady sharedConfig.options ([sharedAsk] ++ [sharedAsk]) :=
  isSteady_of_unchanging sharedSite_isPlain (by simp [sharedAsk])
    (Option.some_get _).symm (by decide +kernel) (by decide +kernel) (by decide +kernel)

def sharedAnswer : Response :=
  (sharedSite (.bypass sharedAsk.url.source)).toOption.get (by decide +kernel)

theorem shared_answer : sharedSite (.bypass sharedAsk.url.source) = .ok sharedAnswer := rfl

theorem sharedAnswer_isOk : sharedAnswer.isOk := by decide +kernel

theorem shared_hit : ((siteGateway.serveAll siteStart [sharedAsk]).store.freshEntry?
    sharedAsk.url.source sharedAnswer.lastModified).isSome := by decide +kernel

/-- The answer from the cache is one of success, and the one of the pass is not. -/
theorem shared_status :
    ((siteGateway.compile sharedAsk.net siteStart sharedAsk.url.source sharedAnswer).1.toOption.any
      fun pass => (siteGateway.compileRequest sharedAsk.net
        (siteGateway.serveAll siteStart [sharedAsk]) sharedAsk.url).1.status !=
          (answerOf sharedAsk.url.source pass).status) = true := by decide +kernel

/-- An answer from the cache need not be the one of a pass: a library that is fetched from the
address of the script takes its place among the modules. -/
theorem shared_address_answers_differ :
    ∃ (g : Gateway) (options : CompilerOptions) (kind : Store → Prop) (start : GatewayState)
      (asks : List Ask) (last : Ask) (x : Response) (entry : CacheEntry) (s : GatewayState)
      (pass : CompiledPass),
      Store.AreHonest kind ∧ kind start.store ∧
        (∀ key, start.store.get .compiled key = .ok none) ∧ g.IsSteady options (asks ++ [last]) ∧
        last.net (.bypass last.url.source) = .ok x ∧ x.isOk ∧
        (g.serveAll start asks).store.freshEntry? last.url.source x.lastModified = some entry ∧
        (g.compile last.net s last.url.source x).1 = .ok pass ∧
        (g.compileRequest last.net (g.serveAll start asks) last.url).1 ≠
          answerOf last.url.source pass := by
  obtain ⟨entry, hentry⟩ := Option.isSome_iff_exists.mp shared_hit
  obtain ⟨pass, hpass, hdiffer⟩ := (Option.any_eq_true _ _).mp shared_status
  refine ⟨siteGateway, sharedConfig.options, fun s => ∃ values, s = .memory values, siteStart,
    [sharedAsk], sharedAsk, sharedAnswer, entry, siteStart, pass, Store.areHonest_memory, ⟨_, rfl⟩,
    fun _ => rfl, sharedSite_isSteady, shared_answer, sharedAnswer_isOk, hentry,
    congrArg Prod.fst (eq_ok_of_fst_toOption hpass), fun hsame => ?_⟩
  rw [hsame, bne_self_eq_false] at hdiffer
  cases hdiffer

end Gateway

end CompilingProxy
