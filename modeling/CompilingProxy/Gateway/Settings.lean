import CompilingProxy.Gateway.Address
import CompilingProxy.Json.Value
import CompilingProxy.Toml.Reading
import CompilingProxy.Url.Basic

/-!
# Settings

What a proxy stands in front of, what it compiles and where it keeps the results. Every setting has
a default; settings that are not known are passed over.
-/

namespace CompilingProxy

/-- How log lines are laid out. -/
inductive LogFormat where
  | pretty
  | compact
  | json
deriving DecidableEq, Repr

inductive SettingsError where
  | malformed
  | badUrl (setting : String) (reason : UrlError)
  | notABase (setting value : String)
  | unrooted (setting value : String)
  /-- The path of the configuration makes no URL. -/
  | badConfigPath (reason : UrlError)
  | unknownLogFormat (name : String)
deriving DecidableEq, Repr

def SettingsError.reason : SettingsError → String
  | .malformed => "the document does not hold settings"
  | .badUrl setting reason => s!"{setting}: {reason.message}"
  | .notABase setting value => setting ++ ": `" ++ value ++ "` cannot be a base URL"
  | .unrooted setting value => setting ++ " `" ++ value ++ "` must start with `/`"
  | .badConfigPath reason => reason.message
  | .unknownLogFormat name => "unknown log format `" ++ name ++ "`"

def SettingsError.message (e : SettingsError) : String := "invalid settings: " ++ e.reason

namespace LogFormat

def names : List (String × LogFormat) := [("pretty", pretty), ("compact", compact), ("json", json)]

def name : LogFormat → String
  | .pretty => "pretty"
  | .compact => "compact"
  | .json => "json"

/-- The format of a name in any case. -/
def ofName (name : String) : Except SettingsError LogFormat :=
  let lower := String.ofList (Text.lowerAscii name.toList)
  match names.lookup lower with
  | some f => .ok f
  | none => .error (.unknownLogFormat lower)

end LogFormat

structure LogSettings where
  format : LogFormat := .compact
  filter : String := "info,tsgate=info"
deriving DecidableEq, Repr

structure Settings where
  listen : SocketAddress := .four 0x7f000001 8787
  /-- The origin server. -/
  origin : String := "http://127.0.0.1:3000/"
  /-- The paths that are compiled begin with it. -/
  scope : String := "/"
  /-- Where the ambient libraries are. -/
  libBase : String := "https://cdn.jsdelivr.net/npm/typescript@5/lib/"
  /-- The path of the compiler's configuration on the origin server. -/
  configPath : String := "/tsconfig.json"
  /-- Where the store is; without it, in memory. -/
  storeDirectory : Option String := none
  /-- How many entries a store in memory keeps. -/
  capacity : Nat := 10000
  timeoutSeconds : Nat := 30
  log : LogSettings := {}
deriving DecidableEq, Repr

/-! ### Reading -/

namespace TomlValue

def asString? : TomlValue → Option String
  | .string s => some s
  | _ => none

def asCount? : TomlValue → Option Nat
  | .integer n => if 0 ≤ n then some n.toNat else none
  | _ => none

/-- The members of a table of either sort. -/
def members? : TomlValue → Option (List (String × TomlValue))
  | .table _ members => some members
  | .inlineTable _ members => some members
  | _ => none

def isEmptyCollection : TomlValue → Bool
  | .table _ [] => true
  | .inlineTable _ [] => true
  | .array [] => true
  | _ => false

end TomlValue

namespace LogFormat

/-- A format by its name, which may be the only key of a table with nothing under it. -/
def ofToml? (v : TomlValue) : Option LogFormat :=
  match v with
  | .string s => names.lookup s
  | _ =>
    match v.members? with
    | some [(name, inner)] => if inner.isEmptyCollection then names.lookup name else none
    | _ => none

end LogFormat

/-- The value of a setting, or its default if it is not there. -/
def orDefault (value : Option TomlValue) (fallback : α) (read : TomlValue → Option α) : Option α :=
  match value with
  | none => some fallback
  | some v => read v

namespace LogSettings

def ofParts? (format filter : Option TomlValue) : Option LogSettings := do
  let d : LogSettings := {}
  return ⟨← orDefault format d.format LogFormat.ofToml?, ← orDefault filter d.filter (·.asString?)⟩

/-- Settings by name, or in order. A date says nothing. -/
def ofToml? (v : TomlValue) : Option LogSettings :=
  match v with
  | .array items => ofParts? items[0]? items[1]?
  | .tables items => ofParts? items[0]? items[1]?
  | .moment => some {}
  | _ => v.members?.bind fun members => ofParts? (members.lookup "format") (members.lookup "filter")

end LogSettings

namespace Settings

def ofTable? (t : TomlTable) : Option Settings := do
  let d : Settings := {}
  let text (key fallback : String) := orDefault (t.get? key) fallback (·.asString?)
  return {
    listen := ← orDefault (t.get? "listen") d.listen fun v => v.asString?.bind SocketAddress.parse?
    origin := ← text "upstream" d.origin
    scope := ← text "scope" d.scope
    libBase := ← text "lib_base" d.libBase
    configPath := ← text "tsconfig_path" d.configPath
    storeDirectory := ← orDefault (t.get? "store_dir") d.storeDirectory (·.asString?.map some)
    capacity := ← orDefault (t.get? "cache_capacity") d.capacity (·.asCount?)
    timeoutSeconds := ← orDefault (t.get? "upstream_timeout_secs") d.timeoutSeconds (·.asCount?)
    log := ← orDefault (t.get? "log") d.log LogSettings.ofToml? }

/-- The URL in a setting, with a slash at the end of its path. -/
def baseUrl (setting value : String) : Except SettingsError Url :=
  match Url.parse value with
  | .error e => .error (.badUrl setting e)
  | .ok url => if url.isOpaque then .error (.notABase setting value) else .ok url.asDirectory

def originUrl (s : Settings) : Except SettingsError Url := baseUrl "upstream" s.origin

def libBaseUrl (s : Settings) : Except SettingsError Url := baseUrl "lib_base" s.libBase

def rooted (setting value : String) : Except SettingsError Unit :=
  if value.startsWith "/" then .ok () else .error (.unrooted setting value)

/-- Finds the first setting that cannot be. -/
def validate (s : Settings) : Except SettingsError Unit := do
  let _ ← s.originUrl
  let _ ← s.libBaseUrl
  rooted "scope" s.scope
  rooted "tsconfig_path" s.configPath

/-- Reads settings from a document. -/
def parse (text : String) : Except SettingsError Settings := do
  match (TomlTable.parse? text).bind ofTable? with
  | none => throw .malformed
  | some s =>
    s.validate
    return s

def toJson (s : Settings) : Json :=
  .object [("listen", .string s.listen.text), ("upstream", .string s.origin),
    ("scope", .string s.scope), ("lib_base", .string s.libBase),
    ("tsconfig_path", .string s.configPath),
    ("store_dir", .optional .string s.storeDirectory), ("cache_capacity", .nat s.capacity),
    ("upstream_timeout_secs", .nat s.timeoutSeconds),
    ("log", .object [("format", .string s.log.format.name), ("filter", .string s.log.filter)])]

end Settings

end CompilingProxy
