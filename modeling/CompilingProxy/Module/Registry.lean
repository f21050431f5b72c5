import CompilingProxy.Module.Record

/-!
# The registry of a compilation

One record for each path, in the order of registration. A path that is registered keeps its record
until it is replaced, which counts its version up.
-/

namespace CompilingProxy

structure Registry where
  records : List ModuleRecord := []
deriving Inhabited

namespace Registry

def empty : Registry := {}

def get? (g : Registry) (path : ModulePath) : Option ModuleRecord :=
  g.records.find? (·.path == path)

def contains (g : Registry) (path : ModulePath) : Bool := (g.get? path).isSome

/-- The paths in the order of registration. -/
def list (g : Registry) : List ModulePath := g.records.map (·.path)

def size (g : Registry) : Nat := g.records.length

/-- Registers a record unless its path has one; the record that the path has then. -/
def register (g : Registry) (r : ModuleRecord) : ModuleRecord × Registry :=
  match g.get? r.path with
  | some known => (known, g)
  | none => (r, { records := g.records ++ [r] })

/-- Puts a record in the place of the one that its path has. -/
def replace (g : Registry) (r : ModuleRecord) : Except ModuleError (ModuleRecord × Registry) :=
  match g.get? r.path with
  | none => .error (.notRegistered r.path)
  | some known =>
    let r := { r with version := known.version + 1 }
    .ok (r, { records := g.records.map fun old => if old.path == r.path then r else old })

end Registry

end CompilingProxy
