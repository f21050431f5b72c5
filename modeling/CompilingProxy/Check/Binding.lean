import CompilingProxy.Analysis.Instantiation
import CompilingProxy.Diagnostic.Basic
import CompilingProxy.Program.Exports

/-!
# Errors of meaning

Imports have to lead to modules that export what is imported, names may be declared again only where
declarations merge, and a literal has to be of the primitive type that its variable is said to have.
Under certain options names that are imported for nothing are errors, and so is whatever cannot be
compiled by leaving types out.
-/

namespace CompilingProxy.BindingCheck

/-- Something to report, with the offset that it is about. -/
structure Finding where
  offset : Nat
  code : Nat
  text : String
deriving DecidableEq, Repr

/-! ### Imports -/

def noModule (offset : Nat) (specifier : String) : Finding :=
  ⟨offset, 2307,
    "Cannot find module '" ++ specifier ++ "' or its corresponding type declarations."⟩

def notModule (offset : Nat) (target : ModulePath) : Finding :=
  ⟨offset, 2306, "File '" ++ target.text ++ "' is not a module."⟩

def noMember (offset : Nat) (specifier name : String) : Finding :=
  ⟨offset, 2305, "Module '\"" ++ specifier ++ "\"' has no exported member '" ++ name ++ "'."⟩

def noDefault (offset : Nat) (specifier : String) : Finding :=
  ⟨offset, 1192, "Module '\"" ++ specifier ++ "\"' has no default export."⟩

/-- What is wrong with the names that are taken from a module, given what it exports. -/
def namesFindings (specifier : String) (exported : ExportSet)
    (names : List (Nat × ImportedName)) : List Finding :=
  names.filterMap fun (offset, name) =>
    match name with
    | .named name =>
      if exported.names.contains name then none else some (noMember offset specifier name)
    | .default => if exported.hasDefault then none else some (noDefault offset specifier)
    | .wholeModule => none

/-- What is wrong with taking names from the module that a specifier leads to. -/
def specifierFindings (g : Program) (offset : Nat) (specifier : String)
    (names : List (Nat × ImportedName)) : Analyzing (List Finding) := do
  match ← g.resolve specifier with
  | .ambient => return []
  | .unresolved => return [noModule offset specifier]
  | .file target =>
    if !(← g.isModule target) then return [notModule offset target]
    else
      let exported ← g.exports target
      return if exported.isOpen then [] else namesFindings specifier exported names

def importFindings (g : Program) (i : ImportDecl) : Analyzing (List Finding) := do
  if i.bindings.isEmpty then return []
  else
    specifierFindings g i.specifierRange.start i.specifier
      (i.bindings.map fun b => (b.range.start, b.imported))

def reExportFindings (g : Program) (r : ReExport) : Analyzing (List Finding) :=
  let offset := r.specifierRange.start
  specifierFindings g offset r.specifier
    (r.names.map fun (name, _) =>
      (offset, if name == "default" then .default else .named name))

/-! ### Declarations -/

/-- Whether the declaration is one of a value that merges with no other kind. -/
def standsAsValue (d : Declaration) : Bool :=
  !(d.kind == .nameSpace || d.kind == .enum || d.kind == .interface || d.kind == .typeAlias)

/-- Whether the declaration is one of a type that does not merge. -/
def standsAsType (d : Declaration) : Bool :=
  d.kind == .typeAlias || d.kind == .interface || d.kind == .classType

def isImplementation (d : Declaration) : Bool := d.kind == .function && !d.ambient

/-- What is wrong with declaring a value, given all declarations of values by its name. -/
def valueFinding? (group : List Declaration) (d : Declaration) : Option Finding :=
  let again := group.length > 1
  if again && group.any (·.kind.isBlockScoped) then
    if d.kind.isBlockScoped then
      some ⟨d.nameRange.start, 2451, "Cannot redeclare block-scoped variable '" ++ d.name ++ "'."⟩
    else none
  else if again && group.any (·.kind == .classType) then
    some ⟨d.nameRange.start, 2300, "Duplicate identifier '" ++ d.name ++ "'."⟩
  else if isImplementation d && (group.filter isImplementation).length > 1 then
    some ⟨d.nameRange.start, 2393, "Duplicate function implementation."⟩
  else none

/-- What is wrong with declaring a type, given all declarations of types by its name. -/
def typeFinding? (group : List Declaration) (d : Declaration) : Option Finding :=
  if group.length > 1 && group.any (·.kind == .typeAlias) then
    some ⟨d.nameRange.start, 2300, "Duplicate identifier '" ++ d.name ++ "'."⟩
  else none

/-- What is wrong with a declaration beside the others; one complaint is enough. -/
def declarationFinding? (all : List Declaration) (d : Declaration) : Option Finding :=
  let named := all.filter (·.name == d.name)
  let asValue :=
    if standsAsValue d then valueFinding? (named.filter standsAsValue) d else none
  let asType := if standsAsType d then typeFinding? (named.filter standsAsType) d else none
  asValue.or asType

/-! ### The text -/

def erasable (o : CompilerOptions) (offset : Nat) : List Finding :=
  if o.erasableSyntaxOnly then
    [⟨offset, 1294, "This syntax is not allowed when 'erasableSyntaxOnly' is enabled."⟩]
  else []

/-- Where the name of a node stands, or the node if it has none. -/
def nameOffset (n : Node) : Nat := ((n.child? .name).getD n).start

/-- The primitive type of a literal. -/
def literalType? (source : List Char) (n : Node) : Option String :=
  match n.kind? with
  | some .number =>
    some (if Text.endsWith ['n'] (Text.slice source n.start n.stop) then "bigint" else "number")
  | some .string => some "string"
  | some .templateString =>
    if (n.childOf? .templateSubstitution).isSome then none else some "string"
  | some .true | some .false => some "boolean"
  | _ => none

/-- What is wrong with the literal that a variable is initialised with. -/
def initializerFinding? (source : List Char) (n : Node) : Option Finding := do
  let name ← n.child? .name
  let said ← (← n.child? .type).namedChildren.head?
  let value ← n.child? .value
  if !said.isA .predefinedType then none
  let target := said.text source
  if !(["number", "string", "boolean", "bigint"].contains target) then none
  let found ← literalType? source value
  if found == target then none
  return ⟨name.start, 2322,
    "Type '" ++ found ++ "' is not assignable to type '" ++ target ++ "'."⟩

/-- The members of an enum that have no value to count on from. -/
def memberFindings : (needsValue : Bool) → List Node → List Finding
  | _, [] => []
  | needsValue, n :: ns =>
    if n.isA .enumAssignment then
      let value := n.child? .value
      memberFindings (value.any (·.isOneOf [.string, .templateString, .callExpression])) ns
    else if n.isA .comment then memberFindings needsValue ns
    else
      (if needsValue then [⟨n.start, 1061, "Enum member must have initializer."⟩] else []) ++
        memberFindings false ns

def enumFindings (o : CompilerOptions) (n : Node) : List Finding :=
  memberFindings false (((n.child? .body).map Node.namedChildren).getD []) ++
    erasable o (nameOffset n)

/-- What is wrong with the node itself. -/
def nodeFindings (o : CompilerOptions) (source : List Char) (parent : Option Label) (n : Node) :
    List Finding :=
  match n.kind? with
  | some .variableDeclarator => (initializerFinding? source n).toList
  | some .enumDeclaration => enumFindings o n
  | some .internalModule | some .module =>
    if parent != some (.kind .ambientDeclaration) && n.isInstantiated then
      erasable o (nameOffset n)
    else []
  | some .requiredParameter | some .optionalParameter =>
    if n.isParameterProperty then erasable o n.start else []
  | some .importAlias | some .typeAssertion => erasable o n.start
  | some .importStatement =>
    if (n.childOf? .importRequireClause).isSome then erasable o n.start else []
  | some .exportStatement => if n.hasWord "=" then erasable o n.start else []
  | _ => []

mutual

/-- What is wrong in a tree, but for what it says of code that stands elsewhere. -/
def treeFindings (o : CompilerOptions) (source : List Char) (parent : Option Label) (n : Node) :
    List Finding :=
  match n with
  | ⟨label, role, start, stop, missing, children⟩ =>
    let n : Node := ⟨label, role, start, stop, missing, children⟩
    if n.isA .ambientDeclaration then []
    else
      nodeFindings o source parent n ++
        (if n.isA .importStatement then [] else treesFindings o source (some label) children)

def treesFindings (o : CompilerOptions) (source : List Char) (parent : Option Label) :
    List Node → List Finding
  | [] => []
  | n :: ns => treeFindings o source parent n ++ treesFindings o source parent ns

end

/-- The bindings of imports that nothing uses. -/
def unusedBindings (a : ModuleAnalysis) : List ImportBinding :=
  (a.imports.flatMap (·.bindings)).filter fun b => !a.isReferenced b.localName

def unusedText (name : String) : String :=
  "'" ++ name ++ "' is declared but its value is never read."

/-- Everything that is wrong with a module, in the order of the checks. -/
def findings (g : Program) (r : ModuleRecord) (a : ModuleAnalysis) : Analyzing (List Finding) := do
  let imports ← a.imports.mapM (importFindings g)
  let reExports ← a.reExports.mapM (reExportFindings g)
  let unused :=
    if g.options.noUnusedLocals then
      (unusedBindings a).map fun b => ⟨b.range.start, 6133, unusedText b.localName⟩
    else []
  return imports.flatten ++ reExports.flatten ++
    a.declarations.filterMap (declarationFinding? a.declarations) ++ unused ++
    treeFindings g.options r.text.toList none r.tree

end CompilingProxy.BindingCheck

namespace CompilingProxy

/-- The errors of meaning of a module, in the order of the text. Libraries are not checked, and
plain scripts only on demand. -/
def Program.semanticDiagnostics (g : Program) (r : ModuleRecord) (a : ModuleAnalysis) :
    Analyzing (List Diagnostic) := do
  if r.isLibrary || (!r.kind.isTypeScript && !g.options.checkJs) then return []
  else
    let findings ← BindingCheck.findings g r a
    return (findings.mergeSort fun x y => x.offset ≤ y.offset).map fun x =>
      .inModule .semantic .error x.code r x.offset x.text

end CompilingProxy
