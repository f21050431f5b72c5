import CompilingProxy.Gateway.Basic
import CompilingProxy.Proofs.Host.Report
import CompilingProxy.Proofs.Host.Provenance
import CompilingProxy.Proofs.Url.Path

/-!
# What a pass of the gateway compiles

Every module of a pass is what one answer of the network compiles to: the answer for the script
itself, or one to a request for the module from where it belongs. What a module compiles to is a
matter of its path and of the body of its answer, whatever else the pass has met.
-/

namespace CompilingProxy

theorem eq_ok_of_sourceOf {url : Url} {answer : Except FetchError Response} {x : Response}
    (h : sourceOf url answer = .ok x) : answer = .ok x ∧ x.isOk := by
  cases answer with
  | error e => cases h
  | ok y =>
    rw [sourceOf] at h
    split at h
    case isTrue hok =>
      cases h
      exact ⟨rfl, hok⟩
    case isFalse => cases h

/-! ### Records of answers -/

namespace ModuleRecord

/-- The record of a text that comes from elsewhere. -/
def movedTo (r : ModuleRecord) (url : Url) (response : ResponseHead) : ModuleRecord :=
  { r with url, response }

theorem edited_movedTo {r r' : ModuleRecord} {url : Url} {response : ResponseHead}
    {edits : List TextEdit} {ds : List ModulePath} {read : TreeReader}
    (h : r.edited edits ds read = .ok r') :
    (r.movedTo url response).edited edits ds read = .ok (r'.movedTo url response) := by
  rw [edited] at h ⊢
  split at h
  case isTrue hempty =>
    cases h
    rw [if_pos hempty]
    rfl
  case isFalse hempty =>
    obtain ⟨⟨text, offsets⟩, happly, h⟩ := bind_eq_ok_iff.mp h
    cases h
    rw [if_neg hempty]
    exact bind_eq_ok_iff.mpr ⟨(text, offsets), happly, rfl⟩

namespace Reads

variable {settings : HostSettings} {i i' : Ingestion} {x x' : Response} {r r' : ModuleRecord}

/-- Records of one path that are read from the same body differ in where they come from alone. -/
theorem eq_movedTo (h : r.Reads settings i x) (h' : r'.Reads settings i' x')
    (hpath : i.path = i'.path) (hbody : x.body = x'.body) :
    ∃ url response, r' = r.movedTo url response := by
  let served := Host.readResponse { settings } i x
  let served' := Host.readResponse { settings } i' x'
  have hserved : served' = served.movedTo served'.url served'.response := by
    simp only [served, served', Host.readResponse, Response.text, hpath, hbody]
    rfl
  have hfound : served'.discover = served.discover := by
    rw [hserved]
    rfl
  have hedited : served'.edited served'.discover.edits served'.discover.paths settings.read =
      .ok (r.movedTo served'.url served'.response) := by
    rw [hfound, hserved]
    exact edited_movedTo h
  refine ⟨_, _, Except.ok.inj (Eq.trans ?_ hedited)⟩
  exact h'.symm

end Reads

end ModuleRecord

/-- The module is what the answer to the ingestion compiles to. -/
def CompiledModule.Renders (settings : HostSettings) (i : Ingestion) (x : Response)
    (m : CompiledModule) : Prop :=
  ∃ r : ModuleRecord, r.Reads settings i x ∧ m.IsOf settings.options r

namespace CompiledModule.Renders

variable {settings : HostSettings} {i i' : Ingestion} {x x' : Response} {m m' : CompiledModule}

theorem path (h : m.Renders settings i x) : m.path = i.path := by
  obtain ⟨r, hreads, hof⟩ := h
  rw [hof.path, hreads.origin.1]

theorem url (h : m.Renders settings i x) : m.url = i.url.source := by
  obtain ⟨r, hreads, hof⟩ := h
  rw [hof.url, hreads.origin.2.1]

theorem lastModified (h : m.Renders settings i x) : m.response.lastModified = x.lastModified := by
  obtain ⟨r, hreads, hof⟩ := h
  rw [hof.response, hreads.origin.2.2]
  rfl

theorem compiled_eq (h : m.Renders settings i x) (h' : m'.Renders settings i' x')
    (hpath : m.path = m'.path) (hbody : x.body = x'.body) : m.compiled = m'.compiled := by
  rw [h.path, h'.path] at hpath
  obtain ⟨r, hreads, hof⟩ := h
  obtain ⟨r', hreads', hof'⟩ := h'
  obtain ⟨out, hout, hcompiled⟩ := hof.compiled
  obtain ⟨out', hout', hcompiled'⟩ := hof'.compiled
  have hsame : Program.compiled? settings.options r' = Program.compiled? settings.options r := by
    obtain ⟨url, response, rfl⟩ := hreads.eq_movedTo hreads' hpath hbody
    rfl
  rw [hout, hout'] at hsame
  cases hsame
  rw [hcompiled, hcompiled']

/-- Libraries compile to nothing. -/
theorem compiled_of_isLibrary (h : m.Renders settings i x) (hlibrary : m.path.isLibrary) :
    m.compiled = none := by
  obtain ⟨r, hreads, hof⟩ := h
  obtain ⟨out, hout, hcompiled⟩ := hof.compiled
  have hnone : r.isLibrary = true := by rw [ModuleRecord.isLibrary, ← hof.path, hlibrary]
  rw [Program.compiled?, hnone] at hout
  cases hout
  exact hcompiled

end CompiledModule.Renders

/-! ### Passes -/

/-- The ingestion is the one of the script that was fetched, or one of a module that is fetched from
where it belongs. -/
def OfPass (settings : HostSettings) (url : Url) (x : Response) (i : Ingestion) : Prop :=
  i = ⟨ModulePath.ofUrl url, url, some x⟩ ∨
    i.response = none ∧ Host.urlOf { settings } i.path = .ok i.url

/-- What an ingestion of the pass reads is what the network answers for its address. -/
theorem OfPass.asked {settings : HostSettings} {net : Network} {url : Url} {x y : Response}
    {i : Ingestion} (hi : OfPass settings url x i) (hanswer : net (.bypass url) = .ok x)
    (hy : i.answer net = .ok y) : net (.bypass i.url) = .ok y ∧ y.isOk := by
  rcases hi with rfl | ⟨hnone, -⟩
  · rw [Ingestion.answer] at hy
    obtain ⟨hsame, hok⟩ := eq_ok_of_sourceOf hy
    cases hsame
    exact ⟨hanswer, hok⟩
  · rw [Ingestion.answer, hnone] at hy
    exact eq_ok_of_sourceOf hy

theorem OfPass.of_wants {settings : HostSettings} {url : Url} {x : Response}
    (ds : List ModulePath) (i : Ingestion) (_ : ∀ d ∈ ds, d.IsCanonical)
    (h : Host.Wants settings ds i) : OfPass settings url x i := .inr h.2

section

variable {settings : HostSettings} {net : Network} {url : Url} {x : Response} {h h' : Host}

theorem Host.addLibrary_eq_ok {name : String} {r : ModuleRecord}
    (heq : h.addLibrary net name = (.ok r, h')) :
    ∃ path url, h.urlOf path = .ok url ∧ h.addRoot net path url = (.ok r, h') := by
  unfold addLibrary at heq
  dsimp only at heq
  split at heq
  case h_1 => cases heq
  case h_2 url hurl => exact ⟨_, url, hurl, heq⟩

theorem Host.addLibraries_spec {names : List String}
    (hp : h.Provided net.Answers settings (OfPass settings url x)) (hs : h.Sound) (hq : h.Queued)
    (heq : h.addLibraries net names = (.ok (), h')) :
    h'.Provided net.Answers settings (OfPass settings url x) ∧ h'.Sound ∧ h'.Queued ∧
      Grows h h' := by
  induction names generalizing h with
  | nil =>
    cases heq
    exact ⟨hp, hs, hq, .refl _⟩
  | cons name names ih =>
    rw [Host.addLibraries_cons] at heq
    cases hadd : h.addLibrary net name with
    | mk outcome h₁ =>
      rw [hadd] at heq
      cases outcome with
      | error e => cases heq
      | ok r =>
        obtain ⟨path, base, hbase, hroot⟩ := addLibrary_eq_ok hadd
        have hlocated : OfPass settings url x ⟨path, base, none⟩ := by
          rw [hp.urlOf_eq] at hbase
          exact .inr ⟨rfl, hbase⟩
        obtain ⟨hgrows₁, hs₁, hq₁, -⟩ := addRoot_spec hs hq hroot
        have hp₁ := hp.addRoot (fun _ _ => id) OfPass.of_wants hlocated hs hq
        rw [hroot] at hp₁
        obtain ⟨hp', hs', hq', hgrows⟩ := ih hp₁ hs₁ hq₁ heq
        exact ⟨hp', hs', hq', hgrows₁.trans hgrows⟩

/-- A pass is what the host says of which the modules are what answers to its ingestions come to. -/
theorem Gateway.runPass_host {pass : CompiledPass}
    (heq : runPass net { settings } url x = (.ok pass, h')) :
    ∃ hosted : Host, hosted.Provided net.Answers settings (OfPass settings url.source x) ∧
      hosted.Sound ∧ hosted.memo = {} ∧ hosted.outputs = (.ok pass, h') := by
  rw [runPass] at heq
  cases hlibraries : Host.addOptionLibraries net { settings } with
  | mk outcome h₁ =>
    rw [hlibraries] at heq
    cases outcome with
    | error e => cases heq
    | ok u =>
      obtain ⟨hp₁, hs₁, hq₁, hgrows₁⟩ := Host.addLibraries_spec
        (Host.Provided.empty : Host.Provided net.Answers settings (OfPass settings url.source x) _)
        (Host.sound_empty settings) (Host.queued_empty settings) hlibraries
      dsimp only at heq
      cases hroot : h₁.addRootUrl net url x with
      | mk outcome h₂ =>
        rw [hroot] at heq
        cases outcome with
        | error e => cases heq
        | ok r =>
          obtain ⟨hgrows₂, hs₂, -, -⟩ := Host.addRoot_spec hs₁ hq₁ hroot
          have hp₂ := hp₁.addRoot (fun _ _ => id) OfPass.of_wants (.inl rfl) hs₁ hq₁
          rw [← Host.addRootUrl, hroot] at hp₂
          exact ⟨h₂, hp₂, hs₂, hgrows₂.memo.trans hgrows₁.memo, heq⟩

/-- Where compiled text is not left out, a module of a pass is what an answer to one of the pass's
ingestions compiles to. -/
theorem Gateway.renders_of_runPass {pass : CompiledPass}
    (heq : runPass net { settings } url x = (.ok pass, h')) {m : CompiledModule}
    (hm : m ∈ pass.modules)
    (hkept : m.compiled.isSome ∨ settings.options.noEmitOnError = false) :
    ∃ i y, OfPass settings url.source x i ∧ i.answer net = .ok y ∧ m.Renders settings i y := by
  obtain ⟨hosted, hp, hs, hmemo, houtputs⟩ := runPass_host heq
  have hcoherent := Host.coherent_of_fresh hs.nodup hp.noExtras hmemo
  rw [← hp.settings_eq] at hkept
  obtain ⟨r, hr, hof⟩ := Host.record_of_compiled hcoherent houtputs hm hkept
  rw [hp.settings_eq] at hof
  obtain ⟨i, y, hi, hy, hreads⟩ := hp.records r hr
  exact ⟨i, y, hi, hy, r, hreads, hof⟩

/-- Every module of a pass is what an answer to one of the pass's ingestions compiles to. -/
theorem Gateway.runPass_spec {pass : CompiledPass}
    (hemit : settings.options.noEmitOnError = false)
    (heq : runPass net { settings } url x = (.ok pass, h')) :
    ∀ m ∈ pass.modules, ∃ i y, OfPass settings url.source x i ∧ i.answer net = .ok y ∧
      m.Renders settings i y :=
  fun _ hm => renders_of_runPass heq hm (.inr hemit)

/-- Whatever has become of it, every module of a pass is what an answer of success was read for. -/
theorem Gateway.answer_of_runPass {pass : CompiledPass}
    (heq : runPass net { settings } url x = (.ok pass, h')) (hanswer : net (.bypass url) = .ok x)
    (hsource : url.source = url) :
    ∀ m ∈ pass.modules, ∃ u y, u.source = m.url ∧ net (.bypass u) = .ok y ∧ y.isOk ∧
      m.response.lastModified = y.lastModified := by
  obtain ⟨hosted, hp, hs, -, houtputs⟩ := runPass_host heq
  intro m hm
  obtain ⟨r, hr, -, hurl, hresponse⟩ := (Host.record_of_outputs hs.nodup houtputs).2 m hm
  obtain ⟨i, y, hi, hy, hreads⟩ := hp.records r hr
  obtain ⟨-, hrurl, hrresponse⟩ := hreads.origin
  rw [hsource] at hi
  obtain ⟨hasked, hok⟩ := hi.asked hanswer hy
  refine ⟨i.url, y, by rw [hurl, hrurl], hasked, hok, ?_⟩
  rw [hresponse, hrresponse]
  rfl

end

end CompilingProxy
