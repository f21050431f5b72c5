import CompilingProxy.Analysis.Instantiation
import CompilingProxy.Config.Options
import CompilingProxy.Emit.Constant
import CompilingProxy.Emit.Layout

/-!
# Compiling a module

What stands in type space is deleted from the text. Enums and namespaces become functions that are
called on the spot, properties among the parameters of a constructor become assignments, and
imports that are used only as types go. Everything else stays as it is written.

Compiling one node is a `Visit`; the functions here that go into a node's parts take the visit of
the parts as an argument, and `visit` ties the knot.
-/

namespace CompilingProxy.Emit

open Text

/-- What is the same for all of a module. -/
structure Setting where
  source : List Char
  analysis : ModuleAnalysis
  verbatim : Bool
  /-- The local names that stand for types alone. -/
  typeOnly : List String

/-- Where a node stands: inside of which namespaces, the innermost first, and within which bounds
its edits have to stay. -/
structure Frame where
  namespaces : List String
  bounds : Range

/-- What is around a node in the tree. -/
structure Place where
  /-- The nodes around it, the innermost first. -/
  around : List Node := []
  before : Option Node := none
  behind : Option Node := none

/-- What comes of a node: its edits, whether nothing of it stays, and the names that are declared in
the scope then. -/
structure Emission where
  edits : List TextEdit
  removed : Bool := false
  scope : List String

abbrev Visit := Frame → Place → (scope : List String) → Node → Except EditError Emission

namespace Place

def parent? (p : Place) : Option Node := p.around.head?

/-- The places of nodes that stand in a row; `before` stands in front of them. -/
def row (around : List Node) (before : Option Node) : List Node → List (Place × Node)
  | [] => []
  | n :: ns => (⟨around, before, ns.head?⟩, n) :: row around (some n) ns

/-- The places of a node's children. -/
def children (p : Place) (n : Node) : List (Place × Node) := row (n :: p.around) none n.children

/-- Where what stands in front of the node ends. -/
def start (p : Place) (n : Node) : Nat := (p.before.map (·.stop)).getD n.start

end Place

/-- Whether a binding goes: it is of a type, or nothing uses it as a value. -/
def isElided (a : ModuleAnalysis) (verbatim : Bool) (b : ImportBinding) : Bool :=
  b.typeOnly || (!verbatim && !a.valueRefs.contains b.localName)

/-! ### Deleting -/

/-- Deletes a statement or member; a semicolon behind a member goes with it. -/
def remove (t : Setting) (f : Frame) (p : Place) (scope : List String) (n : Node) : Emission :=
  let stop := match p.behind with
    | some next =>
      if next.isWord ";" && p.parent?.any (·.isA .classBody) then next.stop else n.stop
    | none => n.stop
  let r := Layout.removalRange t.source f.bounds ⟨n.start, stop⟩
  ⟨[.delete r.start r.stop], true, scope⟩

/-! ### Imports and exports -/

/-- The kinds of declarations of which nothing stays. -/
def erasedDeclarations : List Kind :=
  [.interfaceDeclaration, .typeAliasDeclaration, .ambientDeclaration, .functionSignature]

/-- The import that remains of one that loses some of its bindings. -/
def importText (t : Setting) (n : Node) (i : ImportDecl) (kept : List ImportBinding) : String :=
  let specifier := String.ofList (slice t.source i.specifierRange.start i.specifierRange.stop)
  let text (b : ImportBinding) := String.ofList (slice t.source b.range.start b.range.stop)
  let braces := do
    let clause ← n.childOf? .importClause
    clause.childOf? .namedImports
  let inBraces (b : ImportBinding) : Bool :=
    braces.any fun names => names.start ≤ b.range.start && b.range.start < names.stop
  let named := (kept.filter inBraces).map text
  let parts := (kept.filter fun b => !inBraces b).map text ++
    (if named.isEmpty then [] else ["\x7b " ++ ", ".intercalate named ++ " \x7d"])
  let names := if parts.isEmpty then "\x7b\x7d" else ", ".intercalate parts
  let ending := if endsWith [';'] (trim (slice t.source n.start n.stop)) then ";" else ""
  "import " ++ names ++ " from " ++ specifier ++ ending

def importStatement (t : Setting) (f : Frame) (p : Place) (scope : List String) (n : Node) :
    Emission :=
  match t.analysis.imports.find? (·.range.start == n.start) with
  | none => ⟨[], false, scope⟩
  | some i =>
    let kept := i.bindings.filter fun b => !isElided t.analysis t.verbatim b
    if i.typeOnly then remove t f p scope n
    else if kept.length == i.bindings.length then ⟨[], false, scope⟩
    else if kept.isEmpty && !t.verbatim then remove t f p scope n
    else ⟨[.replace n.start n.stop (importText t n i kept)], false, scope⟩

/-- What stays of an export that lists names. -/
def exportClause (t : Setting) (f : Frame) (p : Place) (scope : List String) (n clause : Node) :
    Emission :=
  let specifiers := clause.children.filter (·.isA .exportSpecifier)
  let isType (spec : Node) : Bool :=
    spec.hasWord "type" || ((n.child? .source).isNone &&
      (spec.child? .name).any fun name => t.typeOnly.contains (name.text t.source))
  let kept := (specifiers.filter fun spec => !isType spec).map (·.text t.source)
  if kept.length == specifiers.length then ⟨[], false, scope⟩
  else if kept.isEmpty then remove t f p scope n
  else
    let text := "\x7b " ++ ", ".intercalate kept ++ " \x7d"
    ⟨[.replace clause.start clause.stop text], false, scope⟩

/-- The names that a declaration inside of a namespace binds; those in patterns are left out. -/
def boundNames (source : List Char) (d : Node) : List String :=
  if d.isOneOf [.lexicalDeclaration, .variableDeclaration] then
    let names := (d.children.filter (·.isA .variableDeclarator)).filterMap (·.child? .name)
    (names.filter (·.isA .identifier)).map (·.text source)
  else ((d.child? .name).map (·.text source)).toList

/-- An export of a namespace: the declaration, and its names as members of the namespace. -/
def namespaceExport (t : Setting) (v : Visit) (f : Frame) (p : Place) (scope : List String)
    (n declaration : Node) (container : String) : Except EditError Emission := do
  let inner ← v f { around := n :: p.around } scope declaration
  let indent := String.ofList (Layout.indentAt t.source n.start)
  let assignments := String.join ((boundNames t.source declaration).map fun name =>
    "\n" ++ indent ++ container ++ "." ++ name ++ " = " ++ name ++ ";")
  let added := if assignments.isEmpty then [] else [TextEdit.insert n.stop assignments]
  return ⟨TextEdit.delete n.start declaration.start :: inner.edits ++ added, false, inner.scope⟩

/-! ### Rendering -/

/-- The compiled text of one node. -/
def render (t : Setting) (v : Visit) (f : Frame) (p : Place) (scope : List String) (n : Node) :
    Except EditError (List Char × List String) := do
  let out ← v { f with bounds := n.range } p scope n
  return (← Layout.edited t.source n.range out.edits, out.scope)

/-- Compiles nodes one after another; each sees the names that those before it declare. -/
def visitAll (v : Visit) (f : Frame) (scope : List String) :
    List (Place × Node) → Except EditError (List TextEdit × List String)
  | [] => .ok ([], scope)
  | (p, n) :: rest => do
    let out ← v f p scope n
    let (edits, scope) ← visitAll v f out.scope rest
    return (out.edits ++ edits, scope)

/-- The lines of one-line statements, each one level deeper than the indentation. -/
def statementLines (t : Setting) (v : Visit) (f : Frame) (indent : List Char)
    (scope : List String) : List (Place × Node) → Except EditError (List String)
  | [] => .ok []
  | (p, n) :: rest => do
    let (text, scope) ← render t v f p scope n
    let own := ((lines text).filter fun line => !(trim line).isEmpty).map fun line =>
      String.ofList indent ++ Layout.unit ++ String.ofList ((dropFront? indent line).getD line)
    return own ++ (← statementLines t v f indent scope rest)

/-- Lines between braces that stand at the indentation. -/
def bracedLines (indent : String) (lines : List String) : String :=
  if lines.isEmpty then "" else "\n" ++ "\n".intercalate lines ++ "\n" ++ indent

/-- The text between a namespace's braces. A body on one line is laid out with a line for each
statement, any other keeps its layout. -/
def bodyText (t : Setting) (v : Visit) (f : Frame) (p : Place) (indent : List Char) (body : Node) :
    Except EditError String := do
  let children := p.children body
  if (slice t.source body.start body.stop).contains '\n' then
    let span : Range := ⟨body.start + 1, max (body.stop - 1) (body.start + 1)⟩
    let inside := children.filter fun (_, n) => span.start ≤ n.start && n.stop ≤ span.stop
    let (edits, _) ← visitAll v { f with bounds := span } [] inside
    return String.ofList (← Layout.edited t.source span edits)
  else
    return bracedLines (String.ofList indent)
      (← statementLines t v f indent [] (children.filter fun (_, n) => n.isNamed))

/-! ### Enums and namespaces -/

/-- The declaration of an object on a line in front of the indentation. -/
def declarationText (keyword name indent : String) : String :=
  keyword ++ " " ++ name ++ ";\n" ++ indent

/-- What the call begins with that fills an object. -/
def opening (name : String) : String := "(function (" ++ name ++ ") \x7b"

/-- The call that fills an object, with what the object is bound to. -/
def callText (name body binding : String) : String :=
  opening name ++ body ++ "\x7d)(" ++ binding ++ ");"

/-- An object, which is made unless it is there. -/
def objectText (object : String) : String := object ++ " || (" ++ object ++ " = \x7b\x7d)"

/-- An object that is a member of another one, too. -/
def memberText (parent name : String) : String :=
  name ++ " = " ++ objectText (parent ++ "." ++ name)

/-- The call that fills an enum or namespace, with a declaration in front unless its scope has one
of that name. -/
def wrap (f : Frame) (scope : List String) (name : String) (exported : Bool)
    (body indent : String) : String × List String :=
  let (keyword, binding) :=
    match f.namespaces, exported with
    | parent :: _, true => ("let", memberText parent name)
    | _ :: _, false => ("let", objectText name)
    | [], true => ("export var", objectText name)
    | [], false => ("var", objectText name)
  let declared := scope.contains name
  let head := if declared then "" else declarationText keyword name indent
  (head ++ callText name body binding, if declared then scope else name :: scope)

/-- What a member without an initialiser counts on from. -/
inductive Successor where
  | number (x : Float)
  | member (name : String)
  | nothing

/-- What is known behind some members of an enum. -/
structure EnumState where
  values : EnumScope
  next : Successor := .number 0
  scope : List String
  lines : List String := []

/-- The value of a member, or the expression that it is computed by. -/
def memberValue (t : Setting) (v : Visit) (f : Frame) (around : List Node) (s : EnumState)
    (value : Option Node) : Except EditError ((EnumValue ⊕ String) × List String) :=
  match value with
  | some value =>
    match EnumValue.ofNode? t.source s.values value with
    | some known => .ok (.inl known, s.scope)
    | none => do
      let (text, scope) ← render t v f { around } s.scope value
      return (.inr (String.ofList text), scope)
  | none =>
    match s.next with
    | .number x => .ok (.inl (.number x), s.scope)
    | .member previous =>
      .ok (.inr (s.values.enumName ++ "[" ++ quoted previous ++ "] + 1"), s.scope)
    | .nothing => .ok (.inr "void 0", s.scope)

/-- Adds the line of one member. -/
def enumMember (t : Setting) (v : Visit) (f : Frame) (around : List Node) (indent : String)
    (s : EnumState) (n : Node) : Except EditError EnumState := do
  let (key, value) :=
    if n.isA .enumAssignment then (n.child? .name, n.child? .value) else (some n, none)
  match key with
  | none => return s
  | some key =>
    let key := key.unquoted t.source
    let name := s.values.enumName
    let slot := name ++ "[" ++ quoted key ++ "]"
    let both (value : String) :=
      name ++ "[" ++ slot ++ " = " ++ value ++ "] = " ++ quoted key ++ ";"
    let line (text : String) := s.lines ++ [indent ++ Layout.unit ++ text]
    let (computed, scope) ← memberValue t v f (n :: around) s value
    match computed with
    | .inl (.number x) =>
      return ⟨s.values.add key (.number x), .number (x + 1), scope, line (both (Number.code x))⟩
    | .inl (.string literal) =>
      return ⟨s.values.add key (.string literal), .nothing, scope,
        line (slot ++ " = " ++ literal ++ ";")⟩
    | .inr expression => return ⟨s.values, .member key, scope, line (both expression)⟩

/-- An enum; `statement` is the statement that it stands in. -/
def enumDeclaration (t : Setting) (v : Visit) (f : Frame) (p : Place) (scope : List String)
    (n statement : Node) (exported : Bool) : Except EditError Emission := do
  match n.child? .name with
  | none => return ⟨[], false, scope⟩
  | some name =>
    let name := name.text t.source
    let indent := String.ofList (Layout.indentAt t.source statement.start)
    let body := n.child? .body
    let members := ((body.map Node.namedChildren).getD []).filter fun m => !m.isA .comment
    let state ← members.foldlM (enumMember t v f (body.toList ++ n :: p.around) indent)
      { values := ⟨name, []⟩, scope }
    let (text, scope) := wrap f state.scope name exported (bracedLines indent state.lines) indent
    return ⟨[.replace statement.start statement.stop text], false, scope⟩

/-- A namespace in another one, declared and filled on lines of its own. -/
def innerText (indent parent name body : String) : String :=
  "\n" ++ indent ++ declarationText "let" name indent ++
    callText name body (memberText parent name) ++ "\n"

/-- Puts the inner names of a dotted namespace around the text of its body, each one level deeper
than the name before it. -/
def wrapInner (text : String) : (indent : String) → (names : List String) → String
  | indent, parent :: name :: names =>
    let inner := indent ++ Layout.unit
    innerText inner parent name (wrapInner text inner (name :: names)) ++ indent
  | _, _ => text

/-- A namespace; `statement` is the statement that it stands in. -/
def namespaceDeclaration (t : Setting) (v : Visit) (f : Frame) (p : Place) (scope : List String)
    (n statement : Node) (exported : Bool) : Except EditError Emission := do
  match n.child? .name, n.child? .body with
  | none, _ => return ⟨[], false, scope⟩
  | some name, body =>
    if name.isA .string || !n.isInstantiated then return remove t f p scope statement
    else
      match body with
      | none => return remove t f p scope statement
      | some body =>
        let parts := (splitOnChar '.' (slice t.source name.start name.stop)).map fun part =>
          String.ofList (trim part)
        let indent := Layout.indentAt t.source statement.start
        let inner : Frame := { f with namespaces := (parts.getLastD "") :: f.namespaces }
        let text ← bodyText t v inner { around := n :: p.around } indent body
        let indent := String.ofList indent
        let (text, scope) :=
          wrap f scope (parts.headD "") exported (wrapInner text indent parts) indent
        return ⟨[.replace statement.start statement.stop text], false, scope⟩

/-! ### Classes and functions -/

/-- Whether a statement calls the constructor of what the class extends. -/
def isSuperCall (n : Node) : Bool :=
  n.isA .expressionStatement && (n.namedChildren.head?.any fun call =>
    call.isA .callExpression && (call.child? .function).any (·.isA .super))

/-- The parameters of a constructor that are properties of the instance. -/
def parameterProperties (source : List Char) (method : Node) : List String :=
  if (method.child? .name).any fun n => n.text source == "constructor" then
    let parameters := ((method.child? .parameters).map Node.namedChildren).getD []
    (((parameters.filter Node.isParameterProperty).filterMap (·.child? .pattern)).filter
      (·.isA .identifier)).map (·.text source)
  else []

/-- The assignments of a constructor's parameters to properties: at the head of its body, or behind
the call of the constructor that is extended. -/
def propertyAssignments (t : Setting) (p : Place) (method : Node) : List TextEdit :=
  let properties := parameterProperties t.source method
  match method.child? .body with
  | none => []
  | some body =>
    if properties.isEmpty then []
    else
      let statements := body.namedChildren
      let own := Layout.indentAt t.source method.start
      let outer := match p.around with
        | _ :: holder :: _ => Layout.indentAt t.source holder.start
        | _ => []
      let level := match dropFront? outer own with
        | some (c :: cs) => c :: cs
        | _ => Layout.unit.toList
      let indent := match statements.head? with
        | some s => Layout.indentAt t.source s.start
        | none => own ++ level
      let assignments := properties.map fun name =>
        "\n" ++ String.ofList indent ++ "this." ++ name ++ " = " ++ name ++ ";"
      let closing := if statements.isEmpty then "\n" ++ String.ofList own else ""
      let offset := match statements.find? isSuperCall with
        | some s => s.stop
        | none => body.start + 1
      [.insert offset (String.join assignments ++ closing)]

/-- The words that go with what they say about types. -/
def wordEdits (t : Setting) (f : Frame) (n child : Node) : List TextEdit :=
  match child.label with
  | .word "readonly" =>
    if n.isOneOf [.publicFieldDefinition, .requiredParameter, .optionalParameter] then
      [Layout.deleteWithBlanks t.source f.bounds child.range]
    else []
  | .word "abstract" =>
    if n.isA .abstractClassDeclaration then
      [Layout.deleteWithBlanks t.source f.bounds child.range]
    else []
  | .word "?" =>
    if n.isOneOf [.optionalParameter, .publicFieldDefinition, .methodDefinition] then
      [.delete child.start child.stop]
    else []
  | .word "!" =>
    if n.isOneOf [.publicFieldDefinition, .variableDeclarator] then
      [.delete child.start child.stop]
    else []
  | _ => []

/-- Compiles the children of a node, one after another. -/
def visitChildren (t : Setting) (v : Visit) (f : Frame) (n : Node) (scope : List String) :
    List (Place × Node) → Except EditError Emission
  | [] => .ok ⟨[], false, scope⟩
  | (p, child) :: rest => do
    let own ←
      if child.isNamed then v f p scope child
      else .ok ⟨wordEdits t f n child, false, scope⟩
    let more ← visitChildren t v f n own.scope rest
    return ⟨own.edits ++ more.edits, false, more.scope⟩

/-- Keeps the value of an assertion and deletes what is said of it. -/
def keepValue (v : Visit) (f : Frame) (p : Place) (scope : List String) (n : Node) :
    Except EditError Emission := do
  match n.namedChildren.head? with
  | none => return ⟨[], false, scope⟩
  | some value =>
    let inner ← v f { around := n :: p.around } scope value
    return ⟨.delete value.stop n.stop :: inner.edits, false, inner.scope⟩

def exportStatement (t : Setting) (v : Visit) (f : Frame) (p : Place) (scope : List String)
    (n : Node) : Except EditError Emission := do
  let inside : Place := { around := n :: p.around }
  if n.hasWord "type" then return remove t f p scope n
  else
    match n.child? .declaration, n.child? .value with
    | some d, _ =>
      if d.isOneOf erasedDeclarations then return remove t f p scope n
      else if d.isA .enumDeclaration then enumDeclaration t v f inside scope d n true
      else if d.isA .internalModule || d.isA .module then
        namespaceDeclaration t v f p scope d n true
      else
        match f.namespaces.head? with
        | some container => namespaceExport t v f p scope n d container
        | none => return { ← v f inside scope d with removed := false }
    | none, some value =>
      if value.isA .identifier && t.typeOnly.contains (value.text t.source) then
        return remove t f p scope n
      else return { ← v f inside scope value with removed := false }
    | none, none =>
      match n.childOf? .exportClause with
      | some clause => return exportClause t f p scope n clause
      | none => return ⟨[], false, scope⟩

/-- What comes of a node that does not stay as it is; none for one of which only the parts may have
to be compiled. -/
def lowered? (t : Setting) (v : Visit) (f : Frame) (p : Place) (scope : List String) (n : Node) :
    Option (Except EditError Emission) :=
  let delete (start stop : Nat) : Option (Except EditError Emission) :=
    some (.ok ⟨[.delete start stop], false, scope⟩)
  match n.kind? with
  | some .interfaceDeclaration | some .typeAliasDeclaration | some .ambientDeclaration
  | some .functionSignature | some .methodSignature | some .abstractMethodSignature
  | some .indexSignature => some (.ok (remove t f p scope n))
  | some .publicFieldDefinition =>
    if n.hasWord "declare" || n.hasWord "abstract" then some (.ok (remove t f p scope n)) else none
  | some .importStatement => some (.ok (importStatement t f p scope n))
  | some .exportStatement => some (exportStatement t v f p scope n)
  | some .expressionStatement =>
    (n.namedChildren.head?.filter (·.isA .internalModule)).map fun inner =>
      namespaceDeclaration t v f p scope inner n false
  | some .internalModule | some .module => some (namespaceDeclaration t v f p scope n n false)
  | some .enumDeclaration => some (enumDeclaration t v f p scope n n false)
  | some .importAlias =>
    let keyword := n.children.head?.filter (·.isWord "import")
    some (.ok ⟨(keyword.map fun k => .replace k.start k.stop "var").toList, false, scope⟩)
  | some .typeClause | some .typeParameters | some .typeArguments | some .assertsClause
  | some .typePredicateClause | some .optingTypeClause | some .omittingTypeClause
  | some .addingTypeClause => delete n.start n.stop
  | some .implementsClause => delete (p.start n) n.stop
  | some .classHeritage =>
    match n.namedChildren with
    | [only] => if only.isA .implementsClause then delete (p.start n) n.stop else none
    | _ => none
  | some .accessibilityModifier | some .overrideModifier =>
    some (.ok ⟨[Layout.deleteWithBlanks t.source f.bounds n.range], false, scope⟩)
  | some .asExpression | some .satisfiesExpression | some .nonNullExpression =>
    some (keepValue v f p scope n)
  | some .requiredParameter =>
    if (n.child? .pattern).any (·.isA .this) then
      match p.behind.filter (·.isWord ",") with
      | some comma => delete n.start (Layout.skipBlanks t.source f.bounds comma.stop)
      | none => delete n.start n.stop
    else none
  | _ => none

/-- Compiles one node by the visit of its parts. -/
def visitNode (t : Setting) (v : Visit) : Visit := fun f p scope n =>
  match lowered? t v f p scope n with
  | some out => out
  | none => do
    let out ← visitChildren t v f n scope (p.children n)
    let added := if n.isA .methodDefinition then propertyAssignments t p n else []
    return { out with edits := added ++ out.edits }

/-- Compiles a node; the fuel bounds the levels below it. -/
def visit (t : Setting) : (fuel : Nat) → Visit
  | 0 => fun _ _ scope _ => .ok ⟨[], false, scope⟩
  | fuel + 1 => visitNode t (visit t fuel)

/-- The names of a module's own values, but for those of enums and namespaces. -/
def topScope (a : ModuleAnalysis) : List String :=
  (a.declarations.filter fun d => d.kind.isValue && !d.ambient &&
    !(d.kind == .enum || d.kind == .nameSpace)).map (·.name)

def Setting.ofModule (r : ModuleRecord) (a : ModuleAnalysis) (verbatim : Bool) : Setting :=
  let elided := (a.imports.flatMap (·.bindings)).filter (isElided a verbatim)
  ⟨r.text.toList, a, verbatim, a.typeOnlyNames ++ elided.map (·.localName)⟩

/-- Compiles the statements of a module: the edits, and whether each statement goes. -/
def visitStatements (v : Visit) (f : Frame) (scope : List String) :
    List (Place × Node) → Except EditError (List TextEdit × List (Node × Bool))
  | [] => .ok ([], [])
  | (p, n) :: rest => do
    let out ← v f p scope n
    let (edits, gone) ← visitStatements v f out.scope rest
    return (out.edits ++ edits, (n, out.removed) :: gone)

/-- The text that tells a reader that it is a module, when every import and export of it went. -/
def moduleMark (text : List Char) (gone : List (Node × Bool)) : List Char :=
  let statements := gone.filter fun (n, _) => n.isA .importStatement || n.isA .exportStatement
  if !statements.isEmpty && statements.all (·.2) then
    (if text.isEmpty || endsWith ['\n'] text then [] else ['\n']) ++ "export \x7b\x7d;\n".toList
  else []

end CompilingProxy.Emit

namespace CompilingProxy

/-- The compiled text of a module; plain scripts are left as they are. -/
def ModuleRecord.emit (r : ModuleRecord) (a : ModuleAnalysis) (o : CompilerOptions) :
    Except EditError String := do
  if !r.kind.isTypeScript then return r.text
  else
    let t := Emit.Setting.ofModule r a o.verbatimModuleSyntax
    let frame : Emit.Frame := ⟨[], ⟨0, Text.width t.source⟩⟩
    let (edits, gone) ← Emit.visitStatements (Emit.visit t r.tree.depth) frame (Emit.topScope a)
      (Emit.Place.children {} r.tree)
    let (text, _) ← applyEdits t.source edits
    return String.ofList (text ++ Emit.moduleMark text gone)

end CompilingProxy
