import CompilingProxy.Diagnostic.Basic

/-!
# Errors of the text

Where the text could not be read, the tree has an error node or a missing one, and the outermost of
them are reported. In a plain script, so is whatever only TypeScript has.
-/

namespace CompilingProxy.SyntaxCheck

/-- A code with its message. -/
abbrev Complaint := Nat × String

def declarationOnly (what : String) : Complaint :=
  (8006, "'" ++ what ++ "' declarations can only be used in TypeScript files.")

/-- What a node says that a plain script may not. -/
def scriptComplaint? (n : Node) : Option Complaint :=
  match n.kind? with
  | some .typeClause =>
    some (8010, "Type annotations can only be used in TypeScript files.")
  | some .typeAliasDeclaration =>
    some (8008, "Type aliases can only be used in TypeScript files.")
  | some .interfaceDeclaration => some (declarationOnly "interface")
  | some .enumDeclaration => some (declarationOnly "enum")
  | some .internalModule | some .module => some (declarationOnly "namespace")
  | some .importStatement =>
    if n.hasWord "type" then some (declarationOnly "import type") else none
  | some .importAlias => some (declarationOnly "import ... =")
  | _ => none

/-- The complaint about a node that was put in where the text lacks it. -/
def missingComplaint (n : Node) : Complaint :=
  match n.label with
  | .kind _ => (1003, "Identifier expected.")
  | .word text => (1005, "'" ++ text ++ "' expected.")

/-- The complaint about text that could not be read. -/
def errorComplaint (parent : Option Label) : Complaint :=
  match parent with
  | none | some (.kind .program) | some (.kind .statementBlock) | some (.kind .classBody) =>
    (1128, "Declaration or statement expected.")
  | _ => (1109, "Expression expected.")

/-- The complaint about the node itself. -/
def complaint? (typeScript : Bool) (parent : Option Label) (n : Node) : Option Complaint :=
  if n.missing then some (missingComplaint n)
  else if n.isA .error then some (errorComplaint parent)
  else if typeScript then none
  else scriptComplaint? n

mutual

/-- The outermost complaints in a tree with the offsets that they are about. Of a text in TypeScript
only trees with an error are gone through. -/
def complaints (typeScript : Bool) (parent : Option Label) (n : Node) : List (Nat × Complaint) :=
  match n with
  | ⟨label, role, start, stop, missing, children⟩ =>
    let n : Node := ⟨label, role, start, stop, missing, children⟩
    match complaint? typeScript parent n with
    | some c => [(start, c)]
    | none =>
      if n.hasError || !typeScript then complaintsInAll typeScript (some label) children else []

def complaintsInAll (typeScript : Bool) (parent : Option Label) :
    List Node → List (Nat × Complaint)
  | [] => []
  | n :: ns => complaints typeScript parent n ++ complaintsInAll typeScript parent ns

end

/-- Leaves out what repeats the diagnostic before it: the same code at the same place. -/
def dropRepeated : List Diagnostic → List Diagnostic
  | a :: b :: rest =>
    if a.start == b.start && a.code == b.code then dropRepeated (a :: rest)
    else a :: dropRepeated (b :: rest)
  | ds => ds
termination_by ds => ds.length

mutual

/-- The first node that stands for text that could not be read. -/
def firstError? (n : Node) : Option Node :=
  match n with
  | ⟨label, role, start, stop, missing, children⟩ =>
    let n : Node := ⟨label, role, start, stop, missing, children⟩
    if n.missing || n.isA .error then some n
    else if n.hasError then firstErrorIn? children
    else none

def firstErrorIn? : List Node → Option Node
  | [] => none
  | n :: ns => (firstError? n).or (firstErrorIn? ns)

end

end CompilingProxy.SyntaxCheck

namespace CompilingProxy

/-- The errors of a module's text in the order of the text. -/
def ModuleRecord.syntaxDiagnostics (r : ModuleRecord) : List Diagnostic :=
  SyntaxCheck.dropRepeated
    ((SyntaxCheck.complaints r.kind.isTypeScript none r.tree).map fun (offset, code, text) =>
      .inModule .syntactic .error code r offset text)

/-- The text of the first place that could not be read. -/
def ModuleRecord.firstErrorText (r : ModuleRecord) : Option String :=
  (SyntaxCheck.firstError? r.tree).map (·.text r.text.toList)

end CompilingProxy
