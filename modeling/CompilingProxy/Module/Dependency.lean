import CompilingProxy.Module.Record

/-!
# Dependencies of a module

A module depends on what it imports and exports again from elsewhere, and on what the directives at
its head refer to. Specifiers that name a path are replaced by the canonical path of their target,
so that all modules call a module by one name; bare names and addresses are left to the run time.
-/

namespace CompilingProxy

open Text

/-- How a module names what it depends on. -/
inductive DependencyKind where
  | module
  | library
  | reference
deriving DecidableEq, Repr

structure Dependency where
  path : ModulePath
  kind : DependencyKind
deriving DecidableEq, Repr

/-- What a module's specifiers come to: every dependency as it is met, and the edits that make the
specifiers canonical. -/
structure Discovery where
  met : List Dependency
  edits : List TextEdit
deriving Repr

namespace Discovery

/-- The dependencies, each path once, where it is met first. -/
def dependencies (d : Discovery) : List Dependency :=
  d.met.foldl (fun known x => if known.any (·.path == x.path) then known else known ++ [x]) []

def paths (d : Discovery) : List ModulePath := d.dependencies.map (·.path)

end Discovery

/-- What a comment refers to, when it is a directive: which kind, and the name as written. -/
def referenceDirective? (comment : List Char) : Option (DependencyKind × List Char) := do
  let blanks := List.dropWhile isBlank
  let rest ← dropFront? "///".toList comment
  let rest ← dropFront? "<reference".toList (blanks rest)
  if !(rest.head?.any isBlank) then none
  let rest := blanks rest
  let (kind, rest) ←
    match dropFront? "lib".toList rest with
    | some rest => some (DependencyKind.library, rest)
    | none => (dropFront? "path".toList rest).map fun rest => (DependencyKind.reference, rest)
  let rest ← dropFront? ['='] (blanks rest)
  let isQuote (c : Char) : Bool := c == '"' || c == '\''
  match blanks rest with
  | [] => none
  | q :: rest =>
    let name := rest.takeWhile fun c => !isQuote c
    match rest.drop name.length with
    | [] => none
    | _ :: tail =>
      if isQuote q && !name.isEmpty && beginsWith "/>".toList (blanks tail) then some (kind, name)
      else none

/-- The dependency that a directive names; a library refers to libraries only. -/
def directiveDependency? (path : ModulePath) (comment : List Char) : Option Dependency := do
  let (kind, name) ← referenceDirective? comment
  match kind with
  | .library => some ⟨ModulePath.library (String.ofList name), .library⟩
  | _ =>
    let written := beginsWith ['/'] name || beginsWith ['.'] name
    let target ← path.resolve? (String.ofList (if written then name else '.' :: '/' :: name))
    if path.isLibrary then none else some ⟨target, .reference⟩

/-- The dependencies that the comments at the head of a module name. -/
def directives (path : ModulePath) (source : List Char) : List Node → List Dependency
  | [] => []
  | n :: ns =>
    if n.isA .comment then
      (directiveDependency? path (slice source n.start n.stop)).toList ++
        directives path source ns
    else if n.isA .hashBangLine then directives path source ns
    else []

/-- The dependency that a quoted specifier names, and the edit that makes it canonical. -/
def specifierDependency? (path : ModulePath) (source : List Char) (literal : Node) :
    Option (Dependency × List TextEdit) :=
  match slice source literal.start literal.stop with
  | quote :: rest@(_ :: _) =>
    (path.resolve? (String.ofList rest.dropLast)).map fun target =>
      let target := target.withDefaultExtension
      let replacement := quote :: target.text.toList ++ [quote]
      let edits :=
        if replacement == quote :: rest then []
        else [.replace literal.start literal.stop (String.ofList replacement)]
      (⟨target, .module⟩, edits)
  | _ => none

mutual

/-- What the specifiers in the tree name, in the order of the text. -/
def specifiersIn (path : ModulePath) (source : List Char) (n : Node) :
    List (Dependency × List TextEdit) :=
  match n with
  | ⟨label, role, start, stop, missing, children⟩ =>
    let n : Node := ⟨label, role, start, stop, missing, children⟩
    let own :=
      if n.isA .importStatement || n.isA .exportStatement then
        ((n.child? .source).bind (specifierDependency? path source)).toList
      else []
    if n.isA .importStatement then own
    else own ++ specifiersInAll path source children

/-- What the specifiers in the trees name. -/
def specifiersInAll (path : ModulePath) (source : List Char) :
    List Node → List (Dependency × List TextEdit)
  | [] => []
  | n :: ns => specifiersIn path source n ++ specifiersInAll path source ns

end

/-- What a record's served text depends on. -/
def ModuleRecord.discover (r : ModuleRecord) : Discovery :=
  let source := r.text.toList
  let specifiers := specifiersIn r.path source r.tree
  ⟨directives r.path source r.tree.children ++ specifiers.map (·.1), specifiers.flatMap (·.2)⟩

end CompilingProxy
