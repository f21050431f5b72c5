import CompilingProxy.Json.Shape
import CompilingProxy.Store.Blake3
import CompilingProxy.Store.FileTree

/-!
# The store

Bytes under keys, with the keys in partitions that know nothing of each other. A store lives in
memory or in a directory, where every key is a file that is named for the hash of the key.
-/

namespace CompilingProxy

/-- A group of keys. -/
structure Partition where
  name : String
deriving DecidableEq, Repr

namespace Partition

def storeName : String := "tsgate"

/-- Entries of other layouts are never found. -/
def layoutVersion : Nat := 1

def compiled : Partition := ⟨"compiled"⟩

def config : Partition := ⟨"config"⟩

def label (p : Partition) : String := s!"{storeName}/v{layoutVersion}/{p.name}"

/-- The key with all that it belongs to. -/
def qualify (p : Partition) (key : String) : String := p.label ++ "/" ++ key

end Partition

inductive StoreError where
  /-- What stands in the directory does not let the entry be read or written. -/
  | inaccessible
  /-- The bytes under a key, named in full, are no value of the kind that was asked for. -/
  | undecodable (key : String)
deriving DecidableEq, Repr

inductive Store where
  /-- Bytes by qualified key. -/
  | memory (values : List (String × List UInt8))
  | directory (root : String) (files : FileTree)
deriving Repr

namespace Store

def inMemory : Store := .memory []

def inDirectory (root : String) : Store := .directory root {}

/-- A path with another one after it; a rooted path stands alone. -/
def joinPath (front back : String) : String :=
  if back.startsWith "/" then back
  else if front.isEmpty || front.endsWith "/" then front ++ back
  else front ++ "/" ++ back

/-- The directory of a partition's entries. -/
def partitionPath (root : String) (p : Partition) : String :=
  joinPath (joinPath (joinPath root Partition.storeName) s!"v{Partition.layoutVersion}") p.name

def entryName (key : String) : String := Text.lowerHex (Blake3.hash (Text.bytes key))

/-- The file of a key. -/
def entryPath (root : String) (p : Partition) (key : String) : String :=
  joinPath (partitionPath root p) (entryName key)

def partitionNames (root : String) (p : Partition) : List String :=
  FileTree.names (partitionPath root p)

/-- The bytes under a key, if there are any. -/
def get (s : Store) (p : Partition) (key : String) : Except StoreError (Option (List UInt8)) :=
  match s with
  | .memory values => .ok (values.lookup (p.qualify key))
  | .directory root files =>
    match files.read (partitionNames root p) (entryName key) with
    | .ok content => .ok (some content)
    | .error .missing => .ok none
    | .error .blocked => .error .inaccessible

/-- Puts bytes under a key in the place of those that were there. -/
def set (s : Store) (p : Partition) (key : String) (value : List UInt8) : Except StoreError Store :=
  match s with
  | .memory values =>
    let name := p.qualify key
    .ok (.memory ((name, value) :: values.filter (·.1 ≠ name)))
  | .directory root files =>
    match files.write (partitionNames root p) (entryName key) value with
    | .ok files => .ok (.directory root files)
    | .error _ => .error .inaccessible

/-- Takes the bytes under a key away, if there are any. -/
def delete (s : Store) (p : Partition) (key : String) : Except StoreError Store :=
  match s with
  | .memory values => .ok (.memory (values.filter (·.1 ≠ p.qualify key)))
  | .directory root files =>
    match files.remove (partitionNames root p) (entryName key) with
    | .ok files => .ok (.directory root files)
    | .error .missing => .ok s
    | .error .blocked => .error .inaccessible

/-- Makes a directory where the file of a key belongs. -/
def obstruct (s : Store) (p : Partition) (key : String) : Store :=
  match s with
  | .memory _ => s
  | .directory root files =>
    match files.makeDirectories [] (partitionNames root p ++ [entryName key]) with
    | .ok (files, _) => .directory root files
    | .error _ => s

/-- The value under a key, read from its document. -/
def getDocument (s : Store) (p : Partition) (key : String)
    (shape : JsonDocument → Except JsonFault α) : Except StoreError (Option α) := do
  match ← s.get p key with
  | none => return none
  | some bytes =>
    match Json.read shape bytes with
    | .ok a => return some a
    | .error _ => throw (.undecodable (p.qualify key))

/-- Puts a value's document under a key. -/
def setDocument (s : Store) (p : Partition) (key : String) (value : Json) :
    Except StoreError Store :=
  s.set p key (Text.bytes value.render)

end Store

end CompilingProxy
