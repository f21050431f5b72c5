import CompilingProxy.Text.Split

/-!
# TOML values and tables

How a table came to be decides what may still be added to it: a table that only stands on the way to
another one may get a header of its own later, and only the dotted keys that made a table may go on
adding to it.
-/

namespace CompilingProxy

/-- How a table came to be. -/
inductive TomlOrigin where
  /-- By a header or by braces. -/
  | written
  /-- On the way of a header to a table further inside. -/
  | implied
  /-- On the way of a dotted key. -/
  | dotted
deriving DecidableEq, Repr

inductive TomlValue where
  | string (s : String)
  | integer (n : Int)
  | real
  | boolean (b : Bool)
  | moment
  | array (items : List TomlValue)
  /-- A table between braces, to which nothing can be added from outside. -/
  | inlineTable (origin : TomlOrigin) (members : List (String × TomlValue))
  | table (origin : TomlOrigin) (members : List (String × TomlValue))
  /-- The tables of one name that each have a header in double brackets. -/
  | tables (items : List TomlValue)
deriving Repr

/-- The members of a table and how it came to be. -/
structure TomlTable where
  origin : TomlOrigin := .written
  members : List (String × TomlValue) := []
deriving Repr

namespace TomlTable

def get? (t : TomlTable) (key : String) : Option TomlValue := t.members.lookup key

/-- The table with a value in the place of the one that the key had. -/
def put (t : TomlTable) (key : String) (value : TomlValue) : TomlTable :=
  if t.members.any (·.1 == key) then
    { t with members := t.members.map fun (k, v) => if k == key then (k, value) else (k, v) }
  else { t with members := t.members ++ [(key, value)] }

/-- A table of the same sort as the values around it. -/
def toValue (braces : Bool) (t : TomlTable) : TomlValue :=
  if braces then .inlineTable t.origin t.members else .table t.origin t.members

/-- Changes the table that a path leads to. Tables that are missing on the way are made; of tables
of one name the last is meant. A dotted key does not pass through a table that was written. -/
def change (braces dotted : Bool) (f : TomlTable → Option TomlTable) :
    List String → TomlTable → Option TomlTable
  | [], t => f t
  | key :: path, t => do
    let step (inner : TomlTable) : Option TomlTable :=
      if dotted && inner.origin == .written then none else inner.change braces dotted f path
    match t.get? key with
    | none =>
      let fresh : TomlTable := ⟨if dotted then .dotted else .implied, []⟩
      return t.put key ((← fresh.change braces dotted f path).toValue braces)
    | some (.table origin members) =>
      if braces then none
      else return t.put key ((← step ⟨origin, members⟩).toValue false)
    | some (.inlineTable origin members) =>
      if braces then return t.put key ((← step ⟨origin, members⟩).toValue true)
      else none
    | some (.tables items) =>
      match items.getLast? with
      | some (.table origin members) =>
        if braces then none
        else
          let last ← change braces dotted f path ⟨origin, members⟩
          return t.put key (.tables (items.dropLast ++ [last.toValue false]))
      | _ => none
    | some _ => none

/-- Adds a value under a dotted key, whose last part must be new. -/
def define (braces : Bool) (t : TomlTable) (path : List String) (value : TomlValue) :
    Option TomlTable :=
  match path.getLast? with
  | none => none
  | some key =>
    let front := path.dropLast
    t.change braces true
      (fun inner =>
        if inner.origin == .dotted && front.isEmpty then none
        else if inner.origin != .dotted && !front.isEmpty then none
        else if (inner.get? key).isSome then none
        else some (inner.put key value))
      front

end TomlTable

/-- What the lines of a document say, one after another. -/
inductive TomlStatement where
  | header (path : List String)
  | itemHeader (path : List String)
  | entry (path : List String) (value : TomlValue)
deriving Repr

namespace TomlTable

/-- Opens the table of a header, which was not opened before. -/
def openTable (t : TomlTable) (path : List String) : Option TomlTable :=
  match path.getLast? with
  | none => none
  | some key =>
    t.change false false
      (fun inner =>
        match inner.get? key with
        | none => some (inner.put key (.table .written []))
        | some (.table .implied members) => some (inner.put key (.table .written members))
        | some _ => none)
      path.dropLast

/-- Opens one more table of the tables of a name. -/
def openItem (t : TomlTable) (path : List String) : Option TomlTable :=
  match path.getLast? with
  | none => none
  | some key =>
    t.change false false
      (fun inner =>
        match inner.get? key with
        | none => some (inner.put key (.tables [.table .written []]))
        | some (.tables items) => some (inner.put key (.tables (items ++ [.table .written []])))
        | some _ => none)
      path.dropLast

/-- The document that statements make, with the table that was opened last. -/
def state (t : TomlTable) (current : List String) : List TomlStatement → Option TomlTable
  | [] => some t
  | .header path :: rest => do (← t.openTable path).state path rest
  | .itemHeader path :: rest => do (← t.openItem path).state path rest
  | .entry path value :: rest => do
    let t ← t.change false false (fun inner => inner.define false path value) current
    t.state current rest

end TomlTable

end CompilingProxy
