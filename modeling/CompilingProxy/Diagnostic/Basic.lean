import CompilingProxy.Json.Value
import CompilingProxy.Module.Record

/-!
# Diagnostics

What the checks have to say, as plain data: a file is named by its path and positions are those of
the text as it was served. A report lists the diagnostics of the options, and then those of each
module by groups, in the order of registration.
-/

namespace CompilingProxy

/-- The group that a diagnostic belongs to. -/
inductive DiagnosticKind where
  | compiler
  | syntactic
  | semantic
  | suggestion
deriving DecidableEq, Repr, Inhabited

namespace DiagnosticKind

def names : List (String × DiagnosticKind) :=
  [("compiler", compiler), ("syntactic", syntactic), ("semantic", semantic),
    ("suggestion", suggestion)]

def name : DiagnosticKind → String
  | compiler => "compiler"
  | syntactic => "syntactic"
  | semantic => "semantic"
  | suggestion => "suggestion"

end DiagnosticKind

inductive Category where
  | warning
  | error
  | suggestion
  | message
deriving DecidableEq, Repr, Inhabited

namespace Category

def names : List (String × Category) :=
  [("warning", warning), ("error", error), ("suggestion", suggestion), ("message", message)]

def name : Category → String
  | warning => "warning"
  | error => "error"
  | suggestion => "suggestion"
  | message => "message"

end Category

/-- A message with the details below it. -/
inductive Message where
  | mk (text : String) (details : List Message)
deriving Repr, Inhabited

namespace Message

def ofText (text : String) : Message := mk text []

mutual

/-- The message with every detail on a line of its own, two blanks deeper than what it explains. -/
def flattenAt (depth : Nat) : Message → String
  | mk text details =>
    let head := if depth = 0 then "" else "\n" ++ String.join (List.replicate depth "  ")
    head ++ text ++ flattenAll (depth + 1) details

def flattenAll (depth : Nat) : List Message → String
  | [] => ""
  | m :: ms => m.flattenAt depth ++ flattenAll depth ms

end

def flatten (m : Message) : String := m.flattenAt 0

end Message

/-- Another place that a diagnostic has to do with. -/
structure RelatedPlace where
  file : Option ModulePath
  start : Option Position
  message : Message
deriving Repr

structure Diagnostic where
  kind : DiagnosticKind
  category : Category
  code : Nat
  file : Option ModulePath
  start : Option Position
  message : Message
  related : List RelatedPlace
deriving Repr

namespace Diagnostic

/-- A diagnostic of no file. -/
def overall (kind : DiagnosticKind) (category : Category) (code : Nat) (text : String) :
    Diagnostic :=
  ⟨kind, category, code, none, none, .ofText text, []⟩

/-- A diagnostic at an offset of a module's compiled text. -/
def inModule (kind : DiagnosticKind) (category : Category) (code : Nat) (r : ModuleRecord)
    (offset : Nat) (text : String) : Diagnostic :=
  ⟨kind, category, code, some r.path, some (r.servedPosition offset), .ofText text, []⟩

def isError (d : Diagnostic) : Bool := d.category == .error

/-- Kind, file and position, as far as they are known, and the message. -/
def printed (d : Diagnostic) : String :=
  let place := match d.file, d.start with
    | some file, some start =>
      " " ++ file.text ++ " (" ++ toString start.line ++ "," ++ toString start.column ++ ")"
    | some file, none => " " ++ file.text
    | none, _ => ""
  d.kind.name ++ place ++ ": " ++ d.message.flatten

end Diagnostic

/-- The diagnostics of one group. -/
structure DiagnosticGroup where
  kind : DiagnosticKind
  diagnostics : List Diagnostic
deriving Repr

/-- The groups of a pass, in order. -/
structure Report where
  groups : List DiagnosticGroup
deriving Repr

namespace Report

def diagnostics (r : Report) : List Diagnostic := r.groups.flatMap (·.diagnostics)

def isEmpty (r : Report) : Bool := r.diagnostics.isEmpty

def errorCount (r : Report) : Nat := (r.diagnostics.filter (·.isError)).length

/-- The printed diagnostics, one behind the other. -/
def render (r : Report) : String := "\n".intercalate (r.diagnostics.map (·.printed))

end Report

end CompilingProxy
