import CompilingProxy.Number.Shortest
import CompilingProxy.Text.Quoted

/-!
# JSON values and their text

A number keeps the way it was written apart: a count, a negative integer, or a real. The members of
an object stand in the order of their keys and no key stands twice.
-/

namespace CompilingProxy

inductive JsonNumber where
  | natural (n : Nat)
  /-- The negative of a positive number. -/
  | negative (n : Nat)
  | real (x : Float)
deriving Repr, Inhabited

inductive Json where
  | null
  | bool (b : Bool)
  | number (n : JsonNumber)
  | string (s : String)
  | array (items : List Json)
  | object (members : List (String × Json))
deriving Repr, Inhabited

def JsonNumber.render : JsonNumber → String
  | .natural n => toString n
  | .negative n => "-" ++ toString n
  | .real x => Number.document x

namespace Json

/-- Puts a member in its place among members in the order of their keys; an equal key gives way. -/
def insert (key : String) (value : Json) : List (String × Json) → List (String × Json)
  | [] => [(key, value)]
  | (k, v) :: rest =>
    if key < k then (key, value) :: (k, v) :: rest
    else if key = k then (key, value) :: rest
    else (k, v) :: insert key value rest

/-- An object with these members; of two with one key the later stays. -/
def ofMembers (members : List (String × Json)) : List (String × Json) :=
  members.foldl (fun acc (k, v) => insert k v acc) []

def text (s : String) : Json := .string s

def nat (n : Nat) : Json := .number (.natural n)

def int (n : Int) : Json :=
  if 0 ≤ n then .number (.natural n.toNat) else .number (.negative (-n).toNat)

def optional {α : Type} (f : α → Json) : Option α → Json
  | none => .null
  | some a => f a

def list {α : Type} (f : α → Json) (items : List α) : Json := .array (items.map f)

def get? (key : String) : Json → Option Json
  | .object members => members.lookup key
  | _ => none

mutual

/-- The compact text of a value, with the members as they stand. -/
def render : Json → String
  | .null => "null"
  | .bool true => "true"
  | .bool false => "false"
  | .number n => n.render
  | .string s => Text.quoted s
  | .array items => "[" ++ renderItems items ++ "]"
  | .object members => "\x7b" ++ renderMembers members ++ "\x7d"

def renderItems : List Json → String
  | [] => ""
  | [item] => render item
  | item :: items => render item ++ "," ++ renderItems items

def renderMembers : List (String × Json) → String
  | [] => ""
  | [(key, value)] => Text.quoted key ++ ":" ++ render value
  | (key, value) :: members =>
    Text.quoted key ++ ":" ++ render value ++ "," ++ renderMembers members

end

end Json

end CompilingProxy
