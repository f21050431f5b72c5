import CompilingProxy.Module.Path
import CompilingProxy.Text.Edit
import CompilingProxy.Url.Basic

/-!
# What can be wrong with a module
-/

namespace CompilingProxy

inductive ModuleError where
  | badPath (description : String)
  | badEdit (reason : EditError)
  | notRegistered (path : ModulePath)
deriving DecidableEq, Repr

def ModuleError.message : ModuleError → String
  | .badPath description => "invalid module path: " ++ description
  | .badEdit reason => "invalid text edit: " ++ reason.message
  | .notRegistered path => "module " ++ path.text ++ " is not registered"

namespace ModulePath

/-- The canonical path of a rooted one. -/
def parse (path : String) : Except ModuleError ModulePath :=
  match parse? path with
  | some p => .ok p
  | none => .error (.badPath path)

/-- The path that a URL names; query and fragment say nothing about it. -/
def ofUrl (url : Url) : ModulePath := ⟨String.ofList (normalize url.pathText)⟩

/-- The URL of the path against an origin, or of a library against the base of libraries. -/
def toUrl (p : ModulePath) (base : Url) : Except ModuleError Url :=
  match base.join p.text with
  | .ok url => .ok url
  | .error e => .error (.badPath (p.text ++ ": " ++ e.message))

end ModulePath

end CompilingProxy
