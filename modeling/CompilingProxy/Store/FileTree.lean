import CompilingProxy.Text.Split

/-!
# Trees of directories and files

What a path leads to is found one name after another. A name that is not there is another matter
than one that cannot be passed through because a file stands in the way.
-/

namespace CompilingProxy

open Text

inductive FileTreeEntry where
  | directory
  | file (content : List UInt8)
deriving DecidableEq, Repr

/-- Directories and files by the names that lead to them. The root is always a directory. -/
structure FileTree where
  entries : List (List String × FileTreeEntry) := []
deriving Repr

/-- Why a path leads nowhere. -/
inductive FileTreeFault where
  | missing
  | blocked
deriving DecidableEq, Repr

namespace FileTree

/-- The names in a written path, with those left out that lead nowhere else. -/
def names (path : String) : List String :=
  ((splitOnChar '/' path.toList).map String.ofList).filter fun n => n ≠ "" ∧ n ≠ "."

def entry? (t : FileTree) (path : List String) : Option FileTreeEntry :=
  if path.isEmpty then some .directory else t.entries.lookup path

def insert (t : FileTree) (path : List String) (e : FileTreeEntry) : FileTree :=
  ⟨(path, e) :: t.entries.filter fun (p, _) => p ≠ path⟩

def erase (t : FileTree) (path : List String) : FileTree :=
  ⟨t.entries.filter fun (p, _) => p ≠ path⟩

/-- Names of more bytes than this cannot be. -/
def nameLimit : Nat := 255

def isName (name : String) : Bool := name.utf8ByteSize ≤ nameLimit && !name.contains '\x00'

/-- The directory that names lead to from another one. -/
def walk (t : FileTree) : (place : List String) → List String → Except FileTreeFault (List String)
  | place, [] => .ok place
  | place, n :: ns =>
    if n = ".." then t.walk place.dropLast ns
    else if !isName n then .error .blocked
    else
      match t.entry? (place ++ [n]) with
      | some .directory => t.walk (place ++ [n]) ns
      | some (.file _) => .error .blocked
      | none => .error .missing

/-- The directory that names lead to, with all directories on the way made. -/
def makeDirectories (t : FileTree) :
    (place : List String) → List String → Except FileTreeFault (FileTree × List String)
  | place, [] => .ok (t, place)
  | place, n :: ns =>
    if n = ".." then t.makeDirectories place.dropLast ns
    else if !isName n then .error .blocked
    else
      match t.entry? (place ++ [n]) with
      | some .directory => t.makeDirectories (place ++ [n]) ns
      | some (.file _) => .error .blocked
      | none => (t.insert (place ++ [n]) .directory).makeDirectories (place ++ [n]) ns

/-- The content of a file in a directory. -/
def read (t : FileTree) (directory : List String) (name : String) :
    Except FileTreeFault (List UInt8) := do
  let place ← t.walk [] directory
  match t.entry? (place ++ [name]) with
  | some (.file content) => return content
  | some .directory => throw .blocked
  | none => throw .missing

/-- Puts a file into a directory, which is made if it is not there. -/
def write (t : FileTree) (directory : List String) (name : String) (content : List UInt8) :
    Except FileTreeFault FileTree := do
  let (t, place) ← t.makeDirectories [] directory
  match t.entry? (place ++ [name]) with
  | some .directory => throw .blocked
  | _ => return t.insert (place ++ [name]) (.file content)

/-- Takes a file out of a directory. -/
def remove (t : FileTree) (directory : List String) (name : String) :
    Except FileTreeFault FileTree := do
  let place ← t.walk [] directory
  match t.entry? (place ++ [name]) with
  | some (.file _) => return t.erase (place ++ [name])
  | some .directory => throw .blocked
  | none => throw .missing

end FileTree

end CompilingProxy
