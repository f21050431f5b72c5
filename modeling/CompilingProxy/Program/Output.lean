import CompilingProxy.Check.Options
import CompilingProxy.Check.Suggestion
import CompilingProxy.Check.Syntax
import CompilingProxy.Emit.Basic

/-!
# Checking and compiling the files of a program
-/

namespace CompilingProxy

/-- What can go wrong with a module beside what its diagnostics say. -/
inductive HostError where
  | fetch (e : FetchError)
  | module (e : ModuleError)
  /-- A path that was never registered. -/
  | missing (path : ModulePath)
  /-- A path that has no address. -/
  | unlocated (path : ModulePath) (reason : String)
  /-- A root whose modules lead to more modules than a host takes. -/
  | unbounded (path : ModulePath)
deriving Repr

def HostError.message : HostError → String
  | .fetch e => e.message
  | .module e => e.message
  | .missing path => "Missing file model for “" ++ path.text ++ "”"
  | .unlocated path reason => "cannot locate " ++ path.text ++ ": " ++ reason
  | .unbounded path => "too many modules behind " ++ path.text

/-- A compiled file. -/
structure OutputFile where
  name : String
  text : String
deriving DecidableEq, Repr

namespace Program

/-- The diagnostics of a file by groups: of its text, of its meaning, and suggestions. -/
def diagnosticGroups (g : Program) (r : ModuleRecord) : Analyzing (List DiagnosticGroup) := do
  let a ← analysisOf r
  let semantic ← g.semanticDiagnostics r a
  return [⟨.syntactic, r.syntaxDiagnostics⟩, ⟨.semantic, semantic⟩,
    ⟨.suggestion, r.suggestions g.options a⟩]

/-- The compiled form of a file; none for libraries and declarations, and for text with errors. -/
def output (g : Program) (r : ModuleRecord) :
    Analyzing (Except ModuleError (Option OutputFile)) := do
  if r.isLibrary || r.path.isDeclarationFile || r.tree.hasError then return .ok none
  else
    let a ← analysisOf r
    match r.emit a g.options with
    | .ok text => return .ok (some ⟨r.path.outputName, text⟩)
    | .error e => return .error (.badEdit e)

end Program

end CompilingProxy
