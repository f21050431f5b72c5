import CompilingProxy.Text.Blank
import CompilingProxy.Text.Split

/-!
# Module paths

Every module of a pass is known by one path. The path of a source module is rooted and canonical:
no segment of it is empty, `.` or `..`, and a `..` that would climb over the root is dropped.
Ambient libraries live beside the root in a flat space of names `lib.<name>.d.ts`.
-/

namespace CompilingProxy

open Text

/-- The path that a module is known by. -/
structure ModulePath where
  text : String
deriving DecidableEq, Repr, Inhabited, Hashable

namespace ModulePath

/-- Adds one written segment to the segments already walked, last one first. -/
def walk (walked : List (List Char)) (segment : List Char) : List (List Char) :=
  if segment = [] ∨ segment = ['.'] then walked
  else if segment = ['.', '.'] then walked.tail
  else segment :: walked

/-- The segments that the written path leads to, in order. -/
def segments (path : List Char) : List (List Char) :=
  ((splitOnChar '/' path).foldl walk []).reverse

/-- Segments as a rooted path. -/
def renderSegments : List (List Char) → List Char
  | [] => ['/']
  | segments => segments.flatMap ('/' :: ·)

/-- The canonical form of a written path. -/
def normalize (path : List Char) : List Char := renderSegments (segments path)

/-- Written `./x` or `../x`, or one of the two without a rest. -/
def isRelative (specifier : List Char) : Bool :=
  beginsWith ['.', '/'] specifier || beginsWith ['.', '.', '/'] specifier ||
    specifier == ['.'] || specifier == ['.', '.']

/-- Written `/x`, but not `//host/x`. -/
def isRootAbsolute (specifier : List Char) : Bool :=
  beginsWith ['/'] specifier && !beginsWith ['/', '/'] specifier

/-- The suffixes that mark a script, without their dot. -/
def scriptExtensions : List String := ["ts", "tsx", "js", "jsx"]

/-- Whether the last segment ends in the suffix of a script, with something before its dot. -/
def hasScriptExtension (path : List Char) : Bool :=
  match cutLast? '.' (afterLast '/' path) with
  | some (stem, ext) => !stem.isEmpty && scriptExtensions.contains (String.ofList ext)
  | none => false

/-- The file name of a library, from its bare name or from a name already in that form. -/
def libraryFileName (name : List Char) : List Char :=
  let lower := lowerAscii (trim name)
  let bare := (dropFront? "lib.".toList lower).getD lower
  let bare := (dropBack? ".d.ts".toList bare).getD bare
  if bare.isEmpty || bare == "d.ts".toList then "lib.d.ts".toList
  else "lib.".toList ++ bare ++ ".d.ts".toList

/-- The library that all others are read through. -/
def defaultLibrary : ModulePath := ⟨"lib.d.ts"⟩

/-- The canonical path of a rooted one; none for text that is not rooted. -/
def parse? (path : String) : Option ModulePath :=
  let cs := path.toList
  if beginsWith ['/'] cs then some ⟨String.ofList (normalize cs)⟩ else none

/-- The path of the library with that name. -/
def library (name : String) : ModulePath := ⟨String.ofList (libraryFileName name.toList)⟩

def isLibrary (p : ModulePath) : Bool := !beginsWith ['/'] p.text.toList

/-- The path up to and including its last slash. -/
def dir (p : ModulePath) : List Char :=
  match cutLast? '/' p.text.toList with
  | some (front, _) => front ++ ['/']
  | none => ['/']

def fileName (p : ModulePath) : List Char := afterLast '/' p.text.toList

/-- The module that a specifier names when it stands in this one; none for a bare specifier or
one that names a host, which are left to the run time. -/
def resolve? (p : ModulePath) (specifier : String) : Option ModulePath :=
  let s := specifier.toList
  if isRelative s then some ⟨String.ofList (normalize (p.dir ++ s))⟩
  else if isRootAbsolute s then some ⟨String.ofList (normalize s)⟩
  else none

/-- The path with `.ts` after it unless it already has the suffix of a script. -/
def withDefaultExtension (p : ModulePath) : ModulePath :=
  if hasScriptExtension p.text.toList then p else ⟨p.text ++ ".ts"⟩

/-- The suffix of the file name, if it is one of a script. -/
def extension? (p : ModulePath) : Option String := do
  let (_, ext) ← cutLast? '.' p.fileName
  let ext := String.ofList ext
  if scriptExtensions.contains ext then some ext else none

def isDeclarationFile (p : ModulePath) : Bool := endsWith ".d.ts".toList p.text.toList

/-- The name of the file that a module compiles to; elements in angle brackets stay in it. -/
def outputName (p : ModulePath) : String :=
  let cs := p.text.toList
  match dropBack? ".tsx".toList cs with
  | some stem => String.ofList (stem ++ ".jsx".toList)
  | none =>
    match dropBack? ".ts".toList cs with
    | some stem => String.ofList (stem ++ ".js".toList)
    | none => p.text

end ModulePath

/-- What a module is written in; it selects the grammar and the checks that apply. -/
inductive ScriptKind where
  | ts
  | tsx
  | js
  | jsx
deriving DecidableEq, Repr, Inhabited

namespace ScriptKind

/-- The kind that the suffix tells; other suffixes are TypeScript unless scripts are allowed. -/
def ofPath (path : String) (allowJs : Bool) : ScriptKind :=
  match (cutLast? '.' path.toList).map fun (_, suffix) => String.ofList suffix with
  | some "ts" => .ts
  | some "tsx" => .tsx
  | some "js" => .js
  | some "jsx" => .jsx
  | _ => if allowJs then .js else .ts

def isTypeScript : ScriptKind → Bool
  | .ts | .tsx => true
  | .js | .jsx => false

/-- Elements in angle brackets are read everywhere but in plain TypeScript. -/
def readsElements : ScriptKind → Bool
  | .ts => false
  | _ => true

def name : ScriptKind → String
  | .ts => "TS"
  | .tsx => "TSX"
  | .js => "JS"
  | .jsx => "JSX"

end ScriptKind

end CompilingProxy
