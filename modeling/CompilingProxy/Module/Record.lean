import CompilingProxy.Grammar.Parse
import CompilingProxy.Module.Error
import CompilingProxy.Text.Position
import CompilingProxy.Http.Response

/-!
# Module records

A record holds a module as it was served and as it is compiled, once the specifiers of its imports
are canonical paths. Whatever is reported about the compiled text is placed in the served one.
-/

namespace CompilingProxy

/-- What makes a tree of a module's text. -/
abbrev TreeReader := ScriptKind → String → Node

structure ModuleRecord where
  path : ModulePath
  url : Url
  kind : ScriptKind
  /-- The text as it was served. -/
  rawText : String
  /-- The text with canonical specifiers, and its tree. -/
  text : String
  tree : Node
  /-- Where the offsets of `text` stand in `rawText`. -/
  offsets : OffsetMap
  /-- One when the path is registered, and one more with every replacement. -/
  version : Nat
  /-- What the module depends on, in the order in which it names them. -/
  dependencies : List ModulePath
  response : ResponseHead

namespace ModuleRecord

/-- A record of a text as it was served. -/
def ofText (path : ModulePath) (url : Url) (kind : ScriptKind) (text : String)
    (response : ResponseHead) (read : TreeReader := Grammar.parse) : ModuleRecord :=
  { path, url, kind, rawText := text, text, tree := read kind text,
    offsets := .identity, version := 1, dependencies := [], response }

/-- The record with its served text edited and its dependencies known. -/
def edited (r : ModuleRecord) (edits : List TextEdit) (dependencies : List ModulePath)
    (read : TreeReader := Grammar.parse) : Except EditError ModuleRecord :=
  if edits.isEmpty then .ok { r with dependencies }
  else do
    let (text, offsets) ← applyEdits r.rawText.toList edits
    let text := String.ofList text
    return { r with text, tree := read r.kind text, offsets, dependencies }

/-- Where an offset of the compiled text stands in the served one. -/
def servedPosition (r : ModuleRecord) (offset : Nat) : Position :=
  Text.position r.rawText.toList (r.offsets.sourceOffset offset)

def isLibrary (r : ModuleRecord) : Bool := r.path.isLibrary

end ModuleRecord

end CompilingProxy
