import CompilingProxy.Proofs.Module.Placement

/-!
# Trees and addresses written by hand

Short forms for the trees of texts that are small enough to be written out, and for the addresses
that such texts are served from.
-/

namespace CompilingProxy

namespace Node

/-- A word that stands at the offset. -/
def word (start : Nat) (text : String) : Node :=
  { label := .word text, start, stop := start + text.utf8ByteSize }

/-- A named node without parts. -/
def leaf (kind : Kind) (start stop : Nat) : Node := { label := .kind kind, start, stop }

/-- A node that reaches from the first of its parts to the last one. -/
def branch (kind : Kind) (children : List Node) : Node :=
  { label := .kind kind, start := (children.head?.map start).getD 0,
    stop := (children.getLast?.map stop).getD 0, children }

def playing (role : Role) (n : Node) : Node := { n with role := some role }

/-- A module of that many bytes. -/
def script (size : Nat) (statements : List Node) : Node :=
  { label := .kind .program, start := 0, stop := size, children := statements }

/-- A text of that many bytes between single quotes. -/
def literal (start size : Nat) : Node :=
  branch .string [word start "'", leaf .stringFragment (start + 1) (start + 1 + size),
    word (start + 1 + size) "'"]

/-- A member of an enum by a name of one letter, with its initialiser. -/
def member (start : Nat) (value : Node) : Node :=
  branch .enumAssignment
    [playing .name (leaf .propertyIdentifier start (start + 1)), word (start + 2) "=",
      playing .value value]

/-- An enum by a name of one letter, with what stands between its braces. -/
def enumOf (start stop : Nat) (members : List Node) : Node :=
  branch .enumDeclaration
    [word start "enum", playing .name (leaf .identifier (start + 5) (start + 6)),
      playing .body <| branch .enumBody <|
        word (start + 7) "\x7b" :: members ++ [word (stop - 1) "\x7d"]]

/-- A call of a function of one letter, without arguments. -/
def call (start : Nat) : Node :=
  branch .callExpression
    [playing .function (leaf .identifier start (start + 1)),
      playing .arguments (branch .arguments [word (start + 1) "(", word (start + 2) ")"])]

end Node

/-- The address of what stands at the root of a site. -/
def Url.ofName (name : String) : Url :=
  ⟨"http".toList, some ⟨none, "app.test".toList, none⟩, .segments [name.toList], none, none⟩

/-- The address of what lies under a path of a host. -/
def Url.ofHost (host : String) (port : Option Nat) (path : List String) : Url :=
  ⟨"http".toList, some ⟨none, host.toList, port⟩, .segments (path.map String.toList), none, none⟩

/-- A record of a text with the tree that is given for it. -/
def ModuleRecord.ofTree (name text : String) (tree : Node) : ModuleRecord :=
  .ofText ⟨"/" ++ name⟩ (.ofName name) .ts text ⟨.ofName name, 200, none, none⟩ fun _ _ => tree

/-- What stands on a line that begins at the offset: a comment, `export * from '…';`, or
`import '…';`. -/
def Node.ofLine (start : Nat) (line : List Char) : Node :=
  if line.head? = some '/' then leaf .comment start (start + Text.width line)
  else if line.head? = some 'e' then
    branch .exportStatement
      [word start "export", word (start + 7) "*", word (start + 9) "from",
        playing .source (literal (start + 14) (Text.width line - 17)),
        word (start + Text.width line - 1) ";"]
  else
    branch .importStatement
      [word start "import", playing .source (literal (start + 7) (Text.width line - 10)),
        word (start + Text.width line - 1) ";"]

def Node.ofLines : (start : Nat) → List (List Char) → List Node
  | _, [] => []
  | start, line :: lines =>
    Node.ofLine start line :: Node.ofLines (start + Text.width line + 1) lines

/-- Reads texts of which every line is a comment or names one module. -/
def TreeReader.ofLines : TreeReader := fun _ text =>
  .script text.utf8ByteSize (Node.ofLines 0 (Text.lines text.toList))

/-- The trees of a reader where they lie in their texts, and childless ones elsewhere. -/
def TreeReader.placed (read : TreeReader) : TreeReader := fun kind text =>
  let tree := read kind text
  if !tree.isA .importStatement && tree.isOrdered && tree.isPlaced text.toList then tree
  else .leaf .program 0 0

theorem TreeReader.placed_isFaithful (read : TreeReader) : read.placed.IsFaithful where
  isWhole kind text := by
    rw [placed]
    split
    case isTrue h =>
      rw [Bool.and_eq_true, Bool.and_eq_true, Bool.not_eq_true'] at h
      exact h.1.1
    case isFalse => rfl
  isOrdered kind text := by
    rw [placed]
    split
    case isTrue h =>
      rw [Bool.and_eq_true, Bool.and_eq_true] at h
      exact h.1.2
    case isFalse => rfl
  isPlaced kind text := by
    rw [placed]
    split
    case isTrue h =>
      rw [Bool.and_eq_true] at h
      exact h.2
    case isFalse =>
      have hboundary : Text.isBoundary text.toList 0 := by cases text.toList <;> rfl
      exact Node.isPlaced_iff.mpr
        ⟨hboundary, hboundary, (fun _ hsource => by cases hsource), fun _ hc => by cases hc⟩

/-- The bytes of a text of ASCII characters. -/
def asciiBytes (text : String) : List UInt8 := text.toList.map fun c => UInt8.ofNat c.toNat

/-- A network that has the files at their paths. -/
def Network.ofFiles (files : List (String × String)) : Network := fun request =>
  match files.lookup (String.ofList request.url.pathText) with
  | some text => .ok (.ok request.url (asciiBytes text))
  | none => .ok (.withStatus request.url 404 "Not Found")

/-- A network that has the files at their paths, all of them changed last at the same time. -/
def Network.ofDatedFiles (files : List (String × String)) : Network := fun request =>
  match files.lookup (String.ofList request.url.source.pathText) with
  | some text => .ok ((Response.ok request.url (asciiBytes text)).withHeader "last-modified"
      "Wed, 21 Oct 2015 07:28:00 GMT")
  | none => .ok (.withStatus request.url 404 "Not Found")

end CompilingProxy
