import CompilingProxy.Proofs.Gateway.Effect
import CompilingProxy.Proofs.Host.Succession

/-!
# What is answered to a request for a script

Where no libraries are named, the script is the first module of its pass, known by the address that
was asked for. It is no declaration, so that it compiles to something unless there is an error to
report: no answer is left with nothing to say.
-/

namespace CompilingProxy

open Text

/-! ### Names of scripts -/

namespace Host

variable {settings : HostSettings} {net : Network} {p : ModulePath} {url : Url} {x : Response}

end Host

namespace Gateway

section

variable {settings : HostSettings} {net : Network} {url : Url} {x : Response} {h' : Host}
  {pass : CompiledPass}

/-- The module is the script that the pass was run for: it is made of the answer that the pass was
given. It is missing no compiled text unless there is an error to report. -/
structure IsScript (settings : HostSettings) (source : Url) (x : Response) (pass : CompiledPass)
    (m : CompiledModule) : Prop where
  path : m.path = ModulePath.ofUrl source
  url : m.url = source
  response : m.response = x.head source
  renders : m.compiled.isSome → m.Renders settings ⟨ModulePath.ofUrl source, source, some x⟩ x
  missing : m.path.isDeclarationFile = false → m.compiled = none →
    ∃ d ∈ pass.report.diagnostics, d.isError

end

/-! ### Answers -/

section

variable {g : Gateway} {s : GatewayState} {a : Ask} {x : Response}

/-- What may be answered to a request for a script. -/
inductive Answers (g : Gateway) (s : GatewayState) (a : Ask) : Response → Prop
  /-- That the script cannot be fetched. -/
  | unfetched (e : FetchError) (hanswer : a.net (.bypass a.url.source) = .error e) :
    Answers g s a (failure a.url e.message)
  /-- The answer of the origin server, which is none of success. -/
  | passedOn (x : Response) (hanswer : a.net (.bypass a.url.source) = .ok x)
      (hstatus : x.status ≠ 200) :
    Answers g s a { x with headers := Header.endToEnd x.headers }
  /-- What the cache holds of the script, which has not changed since. -/
  | cached (x : Response) (entry : CacheEntry)
      (hanswer : a.net (.bypass a.url.source) = .ok x) (hok : x.isOk)
      (hfresh : s.store.freshEntry? a.url.source x.lastModified = some entry) :
    Answers g s a
      (scriptResponse a.url.source entry.contentType entry.body (some entry.lastModified))
  /-- Why there is no pass. -/
  | failed (x : Response) (e : GatewayError) (hbegins : Begins s a x)
      (houtcome : g.outcome s a x = .error e) :
    Answers g s a (failure a.url e.message)
  /-- What the script compiles to. -/
  | compiled (x : Response) (pass : CompiledPass) (m : CompiledModule) (text : String)
      (config : Config) (hruns : g.Runs s a x pass) (hm : m ∈ pass.modules)
      (hload : (g.loadConfig a.net s).1 = .ok config)
      (hscript : IsScript (g.passSettings config.options) a.url.source x pass m)
      (hcompiled : m.compiled = some text) :
    Answers g s a (scriptResponse a.url.source CacheEntry.scriptType text x.lastModified)
  /-- What the pass has to report, errors among it. -/
  | reported (x : Response) (pass : CompiledPass) (hruns : g.Runs s a x pass)
      (herror : ∃ d ∈ pass.report.diagnostics, d.isError) :
    Answers g s a (failure a.url.source pass.report.render)

/-- Whether the pass has compiled text for the address, or else something to report. -/
def answersFor (pass : CompiledPass) (url : Url) : Bool :=
  (pass.atUrl? url).any (·.compiled.isSome) || !pass.report.isEmpty

/-- A pass that has nothing of either kind would be said to lack the script. -/
theorem answerOf_of_not_answersFor {pass : CompiledPass} {url : Url}
    (h : answersFor pass url = false) :
    answerOf url pass = failure url ("File “" ++ url.text ++ "” not found in compiled output") := by
  obtain ⟨hnone, hempty⟩ := Bool.or_eq_false_iff.mp h
  rw [Bool.not_eq_false'] at hempty
  rw [answerOf]
  split
  case h_1 hfound =>
    rw [hfound] at hnone
    cases hnone
  case h_2 => exact if_pos hempty

section

variable (hlib : ∀ config, (g.loadConfig a.net s).1 = .ok config → config.options.lib.getD [] = [])
  (hscript : (ModulePath.ofUrl a.url.source).isDeclarationFile = false)

include hlib hscript

end

end

/-! ### A script that cannot be read -/

end Gateway

end CompilingProxy
