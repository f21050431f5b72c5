import CompilingProxy.Gateway.Settings

/-!
# The command line

Options change settings that were read from a file, or the defaults. Behind them stands what is to
be done: to answer requests, or to compile one module and report on it.
-/

namespace CompilingProxy

inductive Task where
  | serve
  | check (target : String)
deriving DecidableEq, Repr

/-- A setting that an option changes. -/
inductive Override where
  | listen (address : SocketAddress)
  | origin (url : String)
  | scope (scope : String)
  | libBase (url : String)
  | storeDirectory (directory : String)
  | logFormat (format : LogFormat)
  | logFilter (filter : String)
deriving DecidableEq, Repr

structure CommandLine where
  /-- The file with the settings. -/
  config : Option String := none
  /-- The directory whose files the origin server answers with. -/
  files : String := "."
  overrides : List Override := []
  words : List String := []
deriving DecidableEq, Repr

inductive CommandLineError where
  | unknownOption (name : String)
  | missingValue (name : String)
  | badValue (name value : String)
  | missingTarget
  | unexpected (word : String)
deriving DecidableEq, Repr

def CommandLineError.message : CommandLineError → String
  | .unknownOption name => "unexpected argument '" ++ name ++ "' found"
  | .missingValue name => "a value is required for '" ++ name ++ "' but none was supplied"
  | .badValue name value => "invalid value '" ++ value ++ "' for '" ++ name ++ "'"
  | .missingTarget => "missing module url"
  | .unexpected word => "unexpected argument '" ++ word ++ "' found"

def Override.apply (s : Settings) : Override → Settings
  | .listen address => { s with listen := address }
  | .origin url => { s with origin := url }
  | .scope path => { s with scope := path }
  | .libBase url => { s with libBase := url }
  | .storeDirectory directory => { s with storeDirectory := some directory }
  | .logFormat format => { s with log := { s.log with format } }
  | .logFilter filter => { s with log := { s.log with filter } }

namespace CommandLine

/-- Adds an option with its value. -/
def addOption (c : CommandLine) (name value : String) : Except CommandLineError CommandLine :=
  let override (o : Override) : CommandLine := { c with overrides := c.overrides ++ [o] }
  let orBad (o : Option Override) : Except CommandLineError CommandLine :=
    match o with
    | some o => .ok (override o)
    | none => .error (.badValue name value)
  match name with
  | "--config" | "-c" => .ok { c with config := some value }
  | "--files" => .ok { c with files := value }
  | "--listen" => orBad ((SocketAddress.parse? value).map .listen)
  | "--upstream" => .ok (override (.origin value))
  | "--scope" => .ok (override (.scope value))
  | "--lib-base" => .ok (override (.libBase value))
  | "--store-dir" => .ok (override (.storeDirectory value))
  | "--log-format" => orBad ((LogFormat.names.lookup value).map .logFormat)
  | "--log-filter" => .ok (override (.logFilter value))
  | _ => .error (.unknownOption name)

/-- Reads options, whose values stand behind an equals sign or next to them, and other words. -/
def parse (c : CommandLine) : List String → Except CommandLineError CommandLine
  | [] => .ok c
  | word :: rest =>
    if !word.startsWith "-" then parse { c with words := c.words ++ [word] } rest
    else
      match Text.cutFirst? '=' word.toList with
      | some (name, value) =>
        match c.addOption (String.ofList name) (String.ofList value) with
        | .ok c => parse c rest
        | .error e => .error e
      | none =>
        match rest with
        | [] => .error (.missingValue word)
        | value :: rest =>
          match c.addOption word value with
          | .ok c => parse c rest
          | .error e => .error e

/-- What is to be done; requests are answered unless something else is said. -/
def task (c : CommandLine) : Except CommandLineError Task :=
  match c.words with
  | [] | ["serve"] => .ok .serve
  | ["check", target] => .ok (.check target)
  | ["check"] => .error .missingTarget
  | "serve" :: word :: _ | "check" :: _ :: word :: _ | word :: _ => .error (.unexpected word)

/-- The settings with everything changed that options change, if they are consistent then. -/
def settings (c : CommandLine) (read : Settings) : Except SettingsError Settings := do
  let s := c.overrides.foldl Override.apply read
  s.validate
  return s

end CommandLine

end CompilingProxy
