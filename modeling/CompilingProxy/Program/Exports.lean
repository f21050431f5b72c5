import CompilingProxy.Program.Basic

/-!
# What a specifier leads to

A canonical specifier names a file; any other one is known if some file declares a module of that
name. The names that a module exports are followed through everything that it exports again.
-/

namespace CompilingProxy

/-- Where a specifier leads. -/
inductive Target where
  | file (path : ModulePath)
  /-- A module that some file declares by its name. -/
  | ambient
  | unresolved
deriving DecidableEq, Repr

/-- The names that a module exports. -/
structure ExportSet where
  names : List String := []
  hasDefault : Bool := false
  /-- Whether there are exports whose names cannot be known. -/
  isOpen : Bool := false
deriving Repr, Inhabited

namespace Program

/-- The names of all modules that files declare. -/
def ambientModules (g : Program) : Analyzing (List String) := do
  let analyses ← g.files.mapM fun r => g.analysis? r.path
  return analyses.flatMap fun a => (a.map (·.ambientModules)).getD []

def resolve (g : Program) (specifier : String) : Analyzing Target := do
  if ModulePath.isRootAbsolute specifier.toList then
    match ModulePath.parse? specifier with
    | some path => return if g.hasFile path then .file path else .unresolved
    | none => return .unresolved
  else
    return if (← g.ambientModules).contains specifier then .ambient else .unresolved

/-- Adds what a module exports again from everywhere, one `export *` after another. -/
def addStars (g : Program)
    (exportsOf : List ModulePath → ModulePath → Analyzing (ExportSet × List ModulePath)) :
    ExportSet → List ModulePath → List ReExport → Analyzing (ExportSet × List ModulePath)
  | set, visited, [] => pure (set, visited)
  | set, visited, r :: rs => do
    let set := { set with names := set.names ++ r.names.map (·.2) ++ r.namespaceName.toList }
    if !r.star then g.addStars exportsOf set visited rs
    else
      match ← g.resolve r.specifier with
      | .file target =>
        let (inner, visited) ← exportsOf visited target
        let set := { set with
          names := set.names ++ inner.names, isOpen := set.isOpen || inner.isOpen }
        g.addStars exportsOf set visited rs
      | _ => g.addStars exportsOf { set with isOpen := true } visited rs

/-- What a module exports; a module that was visited before adds nothing. The fuel bounds the
modules on the way. -/
def exportsFrom (g : Program) :
    (fuel : Nat) → List ModulePath → ModulePath → Analyzing (ExportSet × List ModulePath)
  | 0, visited, _ => pure ({}, visited)
  | fuel + 1, visited, path => do
    if visited.contains path then return ({}, visited)
    else
      let visited := path :: visited
      match ← g.analysis? path with
      | none => return ({ isOpen := true }, visited)
      | some a =>
        let own : ExportSet := ⟨a.localExports, a.hasDefaultExport, a.hasExportAssignment⟩
        g.addStars (g.exportsFrom fuel) own visited a.reExports

/-- What a module exports. On every way each known file is visited once. -/
def exports (g : Program) (path : ModulePath) : Analyzing ExportSet := do
  return (← g.exportsFrom (g.files.length + 2) [] path).1

/-- Whether a file imports or exports anything, as far as is known. -/
def isModule (g : Program) (path : ModulePath) : Analyzing Bool := do
  return ((← g.analysis? path).map (·.isModule)).getD true

end Program

end CompilingProxy
