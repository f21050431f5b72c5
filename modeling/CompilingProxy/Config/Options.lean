import CompilingProxy.Json.Shape
import CompilingProxy.Text.Blank

/-!
# Compiler options

The options that decide how modules are checked and compiled, and the document that holds them.
Whatever else a document says is kept as it is. A target or module system that is not known by that
name is the default one.
-/

namespace CompilingProxy

/-- The level of the language that is written. -/
inductive ScriptTarget where
  | es3 | es5 | es2015 | es2016 | es2017 | es2018 | es2019 | es2020 | esNext | json
deriving DecidableEq, Repr, Inhabited

inductive ModuleSystem where
  | none | commonJs | amd | umd | system | es2015 | es2020 | esNext
deriving DecidableEq, Repr, Inhabited

inductive ModuleResolution where
  | classic | node
deriving DecidableEq, Repr, Inhabited

/-- The value that one of the names stands for, whatever the case of its letters. -/
def ofAlias? (names : List (String × α)) (text : String) : Option α :=
  let lower (s : String) := Text.lowerAscii s.toList
  (names.find? fun (name, _) => lower name == lower text).map (·.2)

namespace ScriptTarget

/-- The name that is written, and the others that are read. -/
def names : List (String × ScriptTarget) :=
  [("ES3", es3), ("ES5", es5), ("ES2015", es2015), ("ES6", es2015), ("ES2016", es2016),
    ("ES2017", es2017), ("ES2018", es2018), ("ES2019", es2019), ("ES2020", es2020),
    ("ESNext", esNext), ("Latest", esNext), ("JSON", json)]

def ofAlias? (text : String) : Option ScriptTarget := CompilingProxy.ofAlias? names text

def name (t : ScriptTarget) : String :=
  ((names.find? fun (_, value) => value == t).map (·.1)).getD ""

end ScriptTarget

namespace ModuleSystem

/-- The name that is written, and the others that are read. -/
def names : List (String × ModuleSystem) :=
  [("None", none), ("CommonJS", commonJs), ("AMD", amd), ("UMD", umd), ("System", system),
    ("ES2015", es2015), ("ES6", es2015), ("ES2020", es2020), ("ESNext", esNext)]

def ofAlias? (text : String) : Option ModuleSystem := CompilingProxy.ofAlias? names text

def name (m : ModuleSystem) : String :=
  ((names.find? fun (_, value) => value == m).map (·.1)).getD ""

end ModuleSystem

namespace ModuleResolution

/-- The name that is written, and the others that are read. -/
def names : List (String × ModuleResolution) :=
  [("Classic", classic), ("Node", node), ("Node10", node), ("NodeJs", node)]

def ofAlias? (text : String) : Option ModuleResolution := CompilingProxy.ofAlias? names text

def name (r : ModuleResolution) : String :=
  ((names.find? fun (_, value) => value == r).map (·.1)).getD ""

end ModuleResolution

structure CompilerOptions where
  target : ScriptTarget := .esNext
  module : ModuleSystem := .esNext
  moduleResolution : ModuleResolution := .node
  /-- The ambient libraries to load. -/
  lib : Option (List String) := none
  /-- Accepts plain scripts. -/
  allowJs : Bool := false
  /-- Reports errors in plain scripts. -/
  checkJs : Bool := false
  /-- Compiles nothing when there is any error. -/
  noEmitOnError : Bool := false
  outFile : Option String := none
  /-- Local names that nothing uses are errors. -/
  noUnusedLocals : Bool := false
  /-- Imports stay as they are written, but for those of types. -/
  verbatimModuleSyntax : Bool := false
  /-- Refuses what cannot be compiled by leaving types out. -/
  erasableSyntaxOnly : Bool := false
  /-- The options that mean nothing here, in the order of their names. -/
  extra : List (String × Json) := []
deriving Repr, Inhabited

/-- A configuration document. -/
structure Config where
  options : CompilerOptions := {}
  /-- Everything but the options, in the order of the names. -/
  rest : List (String × Json) := []
deriving Repr, Inhabited

/-! ### Reading -/

/-- The value of a name; any other value in its place stands for the default. -/
def aliased (ofAlias? : String → Option α) (fallback : α) (d : JsonDocument) :
    Except JsonFault α := do
  match ← d.toJson with
  | .string s => return (ofAlias? s).getD fallback
  | _ => return fallback

/-- The options that an object has named so far. -/
structure NamedOptions where
  target : Option ScriptTarget := none
  module : Option ModuleSystem := none
  moduleResolution : Option ModuleResolution := none
  lib : Option (Option (List String)) := none
  allowJs : Option Bool := none
  checkJs : Option Bool := none
  noEmitOnError : Option Bool := none
  outFile : Option (Option String) := none
  noUnusedLocals : Option Bool := none
  verbatimModuleSyntax : Option Bool := none
  erasableSyntaxOnly : Option Bool := none
  extra : List (String × Json) := []

namespace NamedOptions

open JsonDocument

/-- Reads one more member. -/
def read (o : NamedOptions) (key : String) (d : JsonDocument) :
    Except JsonFault NamedOptions := do
  match key with
  | "target" =>
    return { o with target := ← once o.target (aliased ScriptTarget.ofAlias? .esNext) d }
  | "module" =>
    return { o with module := ← once o.module (aliased ModuleSystem.ofAlias? .esNext) d }
  | "moduleResolution" =>
    return { o with
      moduleResolution := ← once o.moduleResolution (aliased ModuleResolution.ofAlias? .node) d }
  | "lib" => return { o with lib := ← once o.lib (asOptional (asList asString)) d }
  | "allowJs" => return { o with allowJs := ← once o.allowJs asBool d }
  | "checkJs" => return { o with checkJs := ← once o.checkJs asBool d }
  | "noEmitOnError" => return { o with noEmitOnError := ← once o.noEmitOnError asBool d }
  | "outFile" => return { o with outFile := ← once o.outFile (asOptional asString) d }
  | "noUnusedLocals" => return { o with noUnusedLocals := ← once o.noUnusedLocals asBool d }
  | "verbatimModuleSyntax" =>
    return { o with verbatimModuleSyntax := ← once o.verbatimModuleSyntax asBool d }
  | "erasableSyntaxOnly" =>
    return { o with erasableSyntaxOnly := ← once o.erasableSyntaxOnly asBool d }
  | _ => return { o with extra := Json.insert key (← d.toJson) o.extra }

/-- The options, with the defaults of those that are not named. -/
def toOptions (o : NamedOptions) : CompilerOptions where
  target := o.target.getD .esNext
  module := o.module.getD .esNext
  moduleResolution := o.moduleResolution.getD .node
  lib := o.lib.getD none
  allowJs := o.allowJs.getD false
  checkJs := o.checkJs.getD false
  noEmitOnError := o.noEmitOnError.getD false
  outFile := o.outFile.getD none
  noUnusedLocals := o.noUnusedLocals.getD false
  verbatimModuleSyntax := o.verbatimModuleSyntax.getD false
  erasableSyntaxOnly := o.erasableSyntaxOnly.getD false
  extra := o.extra

end NamedOptions

def CompilerOptions.ofDocument (d : JsonDocument) : Except JsonFault CompilerOptions :=
  (d.foldMembers NamedOptions.read {}).map NamedOptions.toOptions

namespace Config

/-- Reads the members of a configuration. -/
def ofDocument (d : JsonDocument) : Except JsonFault Config := do
  let (options, rest) ← d.foldMembers
    (fun (options, rest) key value => do
      if key == "compilerOptions" then
        return (← JsonDocument.once options CompilerOptions.ofDocument value, rest)
      else return (options, Json.insert key (← value.toJson) rest))
    (none, [])
  return ⟨options.getD {}, rest⟩

/-- Reads a configuration from the bytes of its document. -/
def ofBytes (bytes : List UInt8) : Except JsonFault Config := Json.read ofDocument bytes

end Config

/-! ### Writing -/

/-- The document of the options; those that have no value are left out. -/
def CompilerOptions.toJson (o : CompilerOptions) : Json :=
  let lib := o.lib.map fun names => ("lib", Json.list Json.string names)
  let outFile := o.outFile.map fun name => ("outFile", Json.string name)
  .object ([("target", .string o.target.name), ("module", .string o.module.name),
      ("moduleResolution", .string o.moduleResolution.name)] ++ lib.toList ++
    [("allowJs", .bool o.allowJs), ("checkJs", .bool o.checkJs),
      ("noEmitOnError", .bool o.noEmitOnError)] ++ outFile.toList ++
    [("noUnusedLocals", .bool o.noUnusedLocals),
      ("verbatimModuleSyntax", .bool o.verbatimModuleSyntax),
      ("erasableSyntaxOnly", .bool o.erasableSyntaxOnly)] ++ o.extra)

def Config.toJson (c : Config) : Json :=
  .object (("compilerOptions", c.options.toJson) :: c.rest)

end CompilingProxy
