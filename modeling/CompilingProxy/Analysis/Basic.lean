import CompilingProxy.Module.Record

/-!
# What a module says about itself

The imports, exports and declarations of one module and the names that it uses as values and in
types. Everything here is read off the module's own tree.
-/

namespace CompilingProxy

open Text

/-- What a binding takes from the module that it imports. -/
inductive ImportedName where
  | default
  | wholeModule
  | named (name : String)
deriving DecidableEq, Repr

/-- A local name that an import binds. -/
structure ImportBinding where
  imported : ImportedName
  localName : String
  typeOnly : Bool
  range : Range
deriving DecidableEq, Repr

structure ImportDecl where
  specifier : String
  specifierRange : Range
  /-- Empty for an import that is made for its effects. -/
  bindings : List ImportBinding
  typeOnly : Bool
  range : Range
deriving DecidableEq, Repr

/-- What is exported again from another module. -/
structure ReExport where
  specifier : String
  specifierRange : Range
  /-- The names in the other module with the names here. -/
  names : List (String × String)
  star : Bool
  namespaceName : Option String
  typeOnly : Bool
deriving DecidableEq, Repr

inductive DeclarationKind where
  | var
  | let
  | const
  | function
  | functionSignature
  | classType
  | enum
  | interface
  | typeAlias
  | nameSpace
deriving DecidableEq, Repr

namespace DeclarationKind

def isBlockScoped (k : DeclarationKind) : Bool := k == .let || k == .const

/-- Declares a value, and not only a type. -/
def isValue (k : DeclarationKind) : Bool := !(k == .interface || k == .typeAlias)

end DeclarationKind

/-- A declaration at the top of a module. -/
structure Declaration where
  name : String
  kind : DeclarationKind
  nameRange : Range
  exported : Bool
  ambient : Bool
deriving DecidableEq, Repr

/-- The facts of one module. -/
structure ModuleAnalysis where
  imports : List ImportDecl := []
  reExports : List ReExport := []
  /-- The names that declarations and clauses without a source export, each once. -/
  localExports : List String := []
  hasDefaultExport : Bool := false
  hasExportAssignment : Bool := false
  /-- Whether there is an import or export at all. -/
  isModule : Bool := false
  declarations : List Declaration := []
  valueRefs : List String := []
  typeRefs : List String := []
  ambientModules : List String := []
deriving DecidableEq, Repr

/-- The text between matching quotes; other text as it is. -/
def unquote (text : List Char) : List Char :=
  match text with
  | q :: rest@(_ :: _) =>
    if (q == '"' || q == '\'' || q == '`') && rest.getLast? == some q then rest.dropLast else text
  | _ => text

/-- The node's text without its quotes. -/
def Node.unquoted (n : Node) (source : List Char) : String :=
  String.ofList (unquote (slice source n.start n.stop))

namespace ModuleAnalysis

/-- Whether the name occurs outside of imports. -/
def isReferenced (a : ModuleAnalysis) (name : String) : Bool :=
  a.valueRefs.contains name || a.typeRefs.contains name

/-- The names that are declared as types and not as values. -/
def typeOnlyNames (a : ModuleAnalysis) : List String :=
  let values := (a.declarations.filter (·.kind.isValue)).map (·.name)
  ((a.declarations.filter fun d => !d.kind.isValue && !values.contains d.name).map
    (·.name)).eraseDups

/-- A name is exported once, however often it is declared. -/
def addExport (a : ModuleAnalysis) (name : String) : ModuleAnalysis :=
  if a.localExports.contains name then a
  else { a with localExports := a.localExports ++ [name] }

/-- Whether what stands around a declaration exports it and says that it exists elsewhere. -/
structure Setting where
  exported : Bool := false
  ambient : Bool := false

def declare (a : ModuleAnalysis) (s : Setting) (name : String) (kind : DeclarationKind)
    (node : Node) : ModuleAnalysis :=
  let a := if s.exported then a.addExport name else a
  { a with declarations := a.declarations ++ [⟨name, kind, node.range, s.exported, s.ambient⟩] }

end ModuleAnalysis

/-! ### Imports and exports -/

/-- The binding of one imported name. -/
def importedBinding? (source : List Char) (typeOnly : Bool) (spec : Node) :
    Option ImportBinding := do
  let name ← spec.child? .name
  let imported := name.unquoted source
  let localName := ((spec.child? .alias).map (·.text source)).getD imported
  return ⟨if imported == "default" then .default else .named imported, localName,
    typeOnly || spec.hasWord "type", spec.range⟩

/-- The bindings of one part of an import's clause. -/
def clauseBindings (source : List Char) (typeOnly : Bool) (part : Node) : List ImportBinding :=
  match part.kind? with
  | some .identifier => [⟨.default, part.text source, typeOnly, part.range⟩]
  | some .namespaceImport =>
    ((part.childOf? .identifier).map fun name =>
      ⟨.wholeModule, name.text source, typeOnly, part.range⟩).toList
  | some .namedImports =>
    (part.children.filter (·.isA .importSpecifier)).filterMap (importedBinding? source typeOnly)
  | _ => []

def importDecl? (source : List Char) (n : Node) : Option ImportDecl := do
  let specifier ← n.child? .source
  let typeOnly := n.hasWord "type"
  let bindings := match n.childOf? .importClause with
    | some clause => clause.children.flatMap (clauseBindings source typeOnly)
    | none => []
  return ⟨specifier.unquoted source, specifier.range, bindings, typeOnly, n.range⟩

/-- The names of an export clause with the names that they are exported by. -/
def exportedNames (source : List Char) (clause : Node) : List (String × String) :=
  (clause.children.filter (·.isA .exportSpecifier)).filterMap fun spec => do
    let name ← spec.child? .name
    let localName := name.unquoted source
    return (localName, ((spec.child? .alias).map (·.unquoted source)).getD localName)

/-- What an export statement without a declaration says. -/
def ModuleAnalysis.exportClause (a : ModuleAnalysis) (source : List Char) (n : Node) :
    ModuleAnalysis :=
  let clause := n.childOf? .exportClause
  let names := (clause.map (exportedNames source)).getD []
  let exportsDefault := names.any fun (_, exported) => exported == "default"
  let a := { a with hasDefaultExport := a.hasDefaultExport || exportsDefault }
  match n.child? .source with
  | some specifier =>
    let namespaceName := do
      let named ← n.childOf? .namespaceExport
      let name ← named.namedChildren.head?
      return name.unquoted source
    { a with reExports := a.reExports ++ [⟨specifier.unquoted source, specifier.range, names,
        clause.isNone && namespaceName.isNone, namespaceName, n.hasWord "type"⟩] }
  | none =>
    (names.filter fun (_, exported) => exported != "default").foldl
      (fun a (_, exported) => a.addExport exported) a

/-! ### Declarations -/

/-- The kind of declaration that a node of the kind makes by its name. -/
def declarationKind? : Kind → Option DeclarationKind
  | .functionDeclaration | .generatorFunctionDeclaration => some .function
  | .functionSignature => some .functionSignature
  | .classDeclaration | .abstractClassDeclaration | .classExpression => some .classType
  | .enumDeclaration => some .enum
  | .interfaceDeclaration => some .interface
  | .typeAliasDeclaration => some .typeAlias
  | _ => none

/-- The first of the names that dots divide. -/
def firstName (text : String) : String :=
  String.ofList (trim ((splitOnChar '.' text.toList).headD []))

/-- The declarations of names by `var`, `let` or `const`; those in patterns are left out. -/
def ModuleAnalysis.declareVariables (a : ModuleAnalysis) (s : Setting) (source : List Char)
    (n : Node) : ModuleAnalysis :=
  let kind : DeclarationKind :=
    match n.children.head?.map (·.text source) with
    | some "let" => .let
    | some "const" => .const
    | _ => .var
  let names := (n.children.filter (·.isA .variableDeclarator)).filterMap (·.child? .name)
  (names.filter (·.isA .identifier)).foldl
    (fun a name => a.declare s (name.text source) kind name) a

mutual

/-- What a statement at the top of a module adds to what is known. -/
def ModuleAnalysis.statement (source : List Char) (s : ModuleAnalysis.Setting)
    (a : ModuleAnalysis) (n : Node) : ModuleAnalysis :=
  match n with
  | ⟨label, role, start, stop, missing, children⟩ =>
    let n : Node := ⟨label, role, start, stop, missing, children⟩
    match n.kind? with
    | some .importStatement =>
      { a with isModule := true, imports := a.imports ++ (importDecl? source n).toList }
    | some .importAlias => { a with isModule := true }
    | some .exportStatement =>
      let a := { a with isModule := true }
      if n.hasWord "=" then { a with hasExportAssignment := true }
      else
        let isDefault := n.hasWord "default"
        if (n.child? .declaration).isSome then
          let a := { a with hasDefaultExport := a.hasDefaultExport || isDefault }
          ModuleAnalysis.declarationIn source { s with exported := !isDefault } a children
        else if isDefault then { a with hasDefaultExport := true }
        else a.exportClause source n
    | some .ambientDeclaration =>
      ModuleAnalysis.statements source { s with ambient := true } a children
    | some .expressionStatement => ModuleAnalysis.firstModule source s a children
    | some .module | some .internalModule =>
      match n.child? .name with
      | none => a
      | some name =>
        if name.isA .string then
          { a with ambientModules := a.ambientModules ++ [name.unquoted source] }
        else a.declare s (firstName (name.text source)) .nameSpace name
    | some .lexicalDeclaration | some .variableDeclaration => a.declareVariables s source n
    | some kind =>
      match declarationKind? kind, n.child? .name with
      | some declared, some name => a.declare s (name.text source) declared name
      | _, _ => a
    | none => a

/-- What statements add, one after another. -/
def ModuleAnalysis.statements (source : List Char) (s : ModuleAnalysis.Setting)
    (a : ModuleAnalysis) : List Node → ModuleAnalysis
  | [] => a
  | n :: ns =>
    ModuleAnalysis.statements source s (ModuleAnalysis.statement source s a n) ns

/-- What the declaration among the parts of an export adds. -/
def ModuleAnalysis.declarationIn (source : List Char) (s : ModuleAnalysis.Setting)
    (a : ModuleAnalysis) : List Node → ModuleAnalysis
  | [] => a
  | n :: ns =>
    if n.role == some .declaration then ModuleAnalysis.statement source s a n
    else ModuleAnalysis.declarationIn source s a ns

/-- What a module adds that is the first part of an expression statement. -/
def ModuleAnalysis.firstModule (source : List Char) (s : ModuleAnalysis.Setting)
    (a : ModuleAnalysis) : List Node → ModuleAnalysis
  | [] => a
  | n :: ns =>
    if n.isA .internalModule then ModuleAnalysis.statement source s a n
    else if n.isNamed then a
    else ModuleAnalysis.firstModule source s a ns

end

/-! ### References -/

/-- Names that occur as values and names that occur in types. -/
structure References where
  values : List String := []
  types : List String := []
deriving DecidableEq, Repr, Inhabited

def References.append (a b : References) : References :=
  ⟨a.values ++ b.values, a.types ++ b.types⟩

mutual

/-- The names that occur in a tree, outside of imports and of what is exported from elsewhere. -/
def references (source : List Char) (inType : Bool) (n : Node) : References :=
  match n with
  | ⟨label, role, start, stop, missing, children⟩ =>
    let n : Node := ⟨label, role, start, stop, missing, children⟩
    match n.kind? with
    | some .importStatement | some .importAlias => {}
    | some .identifier | some .shorthandPropertyIdentifier =>
      if inType then { types := [n.text source] } else { values := [n.text source] }
    | some .typeIdentifier => { types := [n.text source] }
    | some .asExpression | some .satisfiesExpression =>
      typedReferences source inType children
    | some kind =>
      if kind == .exportStatement && (n.child? .source).isSome then {}
      else referencesInAll source (inType || kind.isTypeContext) children
    | none => {}

/-- The names that occur in the trees. -/
def referencesInAll (source : List Char) (inType : Bool) : List Node → References
  | [] => {}
  | n :: ns => (references source inType n).append (referencesInAll source inType ns)

/-- The names that occur in a value and, behind the word, in its type. -/
def typedReferences (source : List Char) (inType : Bool) : List Node → References
  | [] => {}
  | n :: ns =>
    if n.isWord "as" || n.isWord "satisfies" then typedReferences source true ns
    else (references source inType n).append (typedReferences source inType ns)

end

/-- The facts of a record's compiled text. -/
def ModuleRecord.analysis (r : ModuleRecord) : ModuleAnalysis :=
  let source := r.text.toList
  let a := ModuleAnalysis.statements source {} {} r.tree.children
  let refs := references source false r.tree
  { a with valueRefs := refs.values.eraseDups, typeRefs := refs.types.eraseDups }

end CompilingProxy
