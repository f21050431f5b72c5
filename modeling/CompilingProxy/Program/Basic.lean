import CompilingProxy.Analysis.Basic
import CompilingProxy.Config.Options

/-!
# Programs

All files that are known in a pass, with its options. The analysis of a file is made when it is
first asked for and remembered by path and version, so a file whose text changes has to change its
version too.
-/

namespace CompilingProxy

structure Program where
  options : CompilerOptions
  /-- The known files; where a path stands twice the first counts. -/
  files : List ModuleRecord

namespace Program

def file? (g : Program) (path : ModulePath) : Option ModuleRecord :=
  g.files.find? (·.path == path)

def hasFile (g : Program) (path : ModulePath) : Bool := (g.file? path).isSome

end Program

/-- The analyses that were made so far. -/
structure AnalysisMemo where
  entries : List (ModulePath × Nat × ModuleAnalysis) := []

namespace AnalysisMemo

def find? (m : AnalysisMemo) (path : ModulePath) (version : Nat) : Option ModuleAnalysis :=
  (m.entries.find? fun (p, v, _) => p == path && v == version).map (·.2.2)

/-- Remembers an analysis in the place of those of other versions. -/
def add (m : AnalysisMemo) (path : ModulePath) (version : Nat) (a : ModuleAnalysis) :
    AnalysisMemo :=
  ⟨(path, version, a) :: m.entries.filter fun (p, v, _) => p != path || v == version⟩

end AnalysisMemo

/-- What may have to analyse files. -/
abbrev Analyzing := StateM AnalysisMemo

namespace Program

/-- The analysis of a record that is a known file. -/
def analysisOf (r : ModuleRecord) : Analyzing ModuleAnalysis := do
  match (← get).find? r.path r.version with
  | some a => return a
  | none =>
    let a := r.analysis
    modify fun m => m.add r.path r.version a
    return a

/-- The analysis of a known file. -/
def analysis? (g : Program) (path : ModulePath) : Analyzing (Option ModuleAnalysis) := do
  match g.file? path with
  | none => return none
  | some r => return some (← analysisOf r)

end Program

end CompilingProxy
