import CompilingProxy.Gateway.Route
import CompilingProxy.Gateway.Settings
import CompilingProxy.Host.Output
import CompilingProxy.Store.Cache

/-!
# The gateway

A request for a script is answered with what the script compiles to. The script is fetched first, so
that a compiled text is served from the cache as long as the script has not changed; otherwise a
pass compiles it with all that it depends on, and the cache keeps what every module of the pass
compiles to. All other requests are passed through.
-/

namespace CompilingProxy

/-- Why the configuration of a pass could not be read. -/
inductive ConfigError where
  | fetch (e : FetchError)
  | malformed
deriving Repr

/-- What the origin server has to say about it, if it has answered. -/
def ConfigError.message : ConfigError → String
  | .fetch (.status _ _ statusText) => statusText
  | .fetch e => e.message
  | .malformed => "Unable to parse tsconfig.json file"

/-- Why a request could not be answered as it was meant. -/
inductive GatewayError where
  | badTarget (target : String) (reason : UrlError)
  | fetch (e : FetchError)
  | config (e : ConfigError)
  | host (e : HostError)
deriving Repr

def GatewayError.message : GatewayError → String
  | .badTarget target reason => "invalid request target " ++ target ++ ": " ++ reason.message
  | .fetch e => e.message
  | .config e => e.message
  | .host e => e.message

structure Gateway where
  settings : Settings
  /-- The origin server. -/
  origin : Url
  libBase : Url
  /-- Where the compiler's configuration is. -/
  configUrl : Url
  /-- What makes trees of the modules' texts. -/
  read : TreeReader := Grammar.parse

/-- What outlasts a request: the store, and what was asked of the network. -/
structure GatewayState where
  store : Store
  requests : List Request := []

namespace GatewayState

/-- Asks the network. -/
def ask (net : Network) (s : GatewayState) (r : Request) :
    Except FetchError Response × GatewayState :=
  (net r, { s with requests := s.requests ++ [r] })

end GatewayState

namespace Gateway

def ofSettings (settings : Settings) : Except SettingsError Gateway := do
  settings.validate
  let origin ← settings.originUrl
  let configUrl ← (origin.join settings.configPath).mapError .badConfigPath
  return { settings, origin, libBase := ← settings.libBaseUrl, configUrl }

/-- The address that the target of a request names. -/
def requestUrl (g : Gateway) (target : String) : Except GatewayError Url :=
  (g.origin.join target).mapError (.badTarget target)

/-! ### Passes -/

/-- The key of the configuration that was read last. -/
def configKey : String := "tsConfig"

/-- Reads the configuration and keeps it in the store, where it can be looked up. -/
def loadConfig (g : Gateway) (net : Network) (s : GatewayState) :
    Except ConfigError Config × GatewayState :=
  let (answer, s) := s.ask net (.bypass g.configUrl)
  match sourceOf g.configUrl answer with
  | .error e => (.error (.fetch e), s)
  | .ok response =>
    match Config.ofBytes response.body with
    | .error _ => (.error .malformed, s)
    | .ok config =>
      match s.store.setDocument .config configKey config.toJson with
      | .ok store => (.ok config, { s with store })
      | .error _ => (.ok config, s)

/-- A pass on a host: the libraries first, then the script and what it depends on. -/
def runPass (net : Network) (h : Host) (url : Url) (response : Response) :
    Except HostError CompiledPass × Host :=
  match h.addOptionLibraries net with
  | (.error e, h) => (.error e, h)
  | (.ok (), h) =>
    match h.addRootUrl net url response with
    | (.error e, h) => (.error e, h)
    | (.ok _, h) => h.outputs

/-- Compiles the script that was fetched, with all that it depends on. -/
def compile (g : Gateway) (net : Network) (s : GatewayState) (url : Url) (response : Response) :
    Except GatewayError CompiledPass × GatewayState :=
  match g.loadConfig net s with
  | (.error e, s) => (.error (.config e), s)
  | (.ok config, s) =>
    let host : Host :=
      { settings := { origin := g.origin, libBase := g.libBase, options := config.options,
                      read := g.read } }
    let (outcome, host) := runPass net host url response
    (outcome.mapError .host, { s with requests := s.requests ++ host.requests })

/-- Fetches and compiles a script and leaves the cache alone. -/
def check (g : Gateway) (net : Network) (s : GatewayState) (url : Url) :
    Except GatewayError CompiledPass × GatewayState :=
  let (answer, s) := s.ask net (.bypass url)
  match sourceOf url answer with
  | .error e => (.error (.fetch e), s)
  | .ok response => g.compile net s url.source response

/-! ### Answers -/

def textType : String := "text/plain; charset=utf-8"

/-- An answer with text alone. -/
def textResponse (url : Url) (status : Nat) (statusText body : String) : Response :=
  { (Response.withStatus url status statusText).withHeader "content-type" textType with
    body := Text.bytes body }

def failure (url : Url) (body : String) : Response :=
  textResponse url 500 "Internal Server Error" body

/-- An answer with compiled text. -/
def scriptResponse (url : Url) (contentType body : String) (lastModified : Option Instant) :
    Response :=
  let r := (Response.ok url (Text.bytes body)).withHeader "content-type" contentType
  match lastModified with
  | some i => r.withHeader "last-modified" i.headerText
  | none => r

/-- What is answered after a pass: the compiled text, or else what is to be said of the pass. -/
def answerOf (url : Url) (pass : CompiledPass) : Response :=
  match pass.atUrl? url with
  | some { compiled := some compiled, response := head, .. } =>
    scriptResponse url CacheEntry.scriptType compiled head.lastModified
  | _ =>
    if pass.report.isEmpty then
      failure url ("File “" ++ url.text ++ "” not found in compiled output")
    else failure url pass.report.render

/-- Keeps what a module compiles to. Of a module of which it is not known when it changed last
nothing is kept; one that does not compile leaves what there is. -/
def keep (store : Store) (m : CompiledModule) : Store :=
  match m.compiled, m.response.lastModified with
  | some compiled, lastModified => store.keepCompiled m.url compiled lastModified
  | none, none => store.dropEntry m.url
  | none, some _ => store

/-- Answers a request for a script, or says why it cannot. -/
def respond (g : Gateway) (net : Network) (s : GatewayState) (url : Url) :
    Except GatewayError Response × GatewayState :=
  let source := url.source
  match s.ask net (.bypass source) with
  | (.error e, s) => (.error (.fetch e), s)
  | (.ok response, s) =>
    if !response.isOk then (.ok { response with headers := Header.endToEnd response.headers }, s)
    else
      match s.store.freshEntry? source response.lastModified with
      | some entry =>
        (.ok (scriptResponse source entry.contentType entry.body (some entry.lastModified)), s)
      | none =>
        let (outcome, s) := g.compile net s source response
        let s := if response.lastModified.isNone
          then { s with store := s.store.dropEntry source } else s
        match outcome with
        | .error e => (.error e, s)
        | .ok pass =>
          (.ok (answerOf source pass), { s with store := pass.modules.foldl keep s.store })

/-- Answers a request for a script. -/
def compileRequest (g : Gateway) (net : Network) (s : GatewayState) (url : Url) :
    Response × GatewayState :=
  match g.respond net s url with
  | (.ok response, s) => (response, s)
  | (.error e, s) => (failure url e.message, s)

/-- Passes a request through. -/
def forward (net : Network) (s : GatewayState) (r : Request) : Response × GatewayState :=
  let r := { r with headers := Header.endToEnd r.headers }
  match s.ask net r with
  | (.ok response, s) => ({ response with headers := Header.endToEnd response.headers }, s)
  | (.error e, s) => (textResponse r.url 502 "Bad Gateway" e.message, s)

/-- Answers a request. -/
def handle (g : Gateway) (net : Network) (s : GatewayState) (r : Request) :
    Response × GatewayState :=
  match r.route g.settings.scope with
  | .compile => g.compileRequest net s r.url
  | .passThrough => forward net s r

end Gateway

end CompilingProxy
