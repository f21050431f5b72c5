import CompilingProxy.Json.Document

/-!
# Reading values of a shape

Readers take what comes first in a document: a value of the wrong shape, or a fault of the text.
-/

namespace CompilingProxy.JsonDocument

/-- Reads the members of an object in the order in which they are written. -/
def foldMembers (step : σ → String → JsonDocument → Except JsonFault σ) (start : σ) :
    JsonDocument → Except JsonFault σ
  | .object members closing => do
    let state ← members.foldlM (fun state (key, value) => step state key value) start
    match closing with
    | some f => throw f
    | none => return state
  | .fault f => .error f
  | _ => .error .mismatched

def asBool : JsonDocument → Except JsonFault Bool
  | .bool b => .ok b
  | .fault f => .error f
  | _ => .error .mismatched

def asString : JsonDocument → Except JsonFault String
  | .string s => .ok s
  | .fault f => .error f
  | _ => .error .mismatched

/-- A count of at most 32 bits. -/
def asCount : JsonDocument → Except JsonFault Nat
  | .number (.natural n) => if n < UInt32.size then .ok n else .error .mismatched
  | .fault f => .error f
  | _ => .error .mismatched

def asList (item : JsonDocument → Except JsonFault α) : JsonDocument → Except JsonFault (List α)
  | .array items closing => do
    let values ← items.mapM item
    match closing with
    | some f => throw f
    | none => return values
  | .fault f => .error f
  | _ => .error .mismatched

/-- Null stands for no value. -/
def asOptional (value : JsonDocument → Except JsonFault α) :
    JsonDocument → Except JsonFault (Option α)
  | .null => .ok none
  | d => (value d).map some

/-- Reads the value of a member that may stand in an object once. -/
def once (known : Option α) (value : JsonDocument → Except JsonFault α) (d : JsonDocument) :
    Except JsonFault (Option α) :=
  if known.isSome then .error .mismatched else (value d).map some

/-- The fields of a record, which is written as an object or as an array of its fields in order.
Members of other names are passed over. -/
structure Fields where
  byPlace : Bool
  values : List (String × JsonDocument)

namespace Fields

def ofDocument (names : List String) : JsonDocument → Except JsonFault Fields
  | .array items closing =>
    match closing with
    | some f => .error f
    | none =>
      if names.length < items.length then .error .mismatched
      else .ok ⟨true, names.zip items⟩
  | d => do
    let values ← d.foldMembers
      (fun (values : List (String × JsonDocument)) key value => do
        if !names.contains key then return values
        else if (values.lookup key).isSome then throw .mismatched
        else return (key, value) :: values)
      []
    return ⟨false, values⟩

/-- A field that has to be there. -/
def required (fs : Fields) (name : String) (value : JsonDocument → Except JsonFault α) :
    Except JsonFault α :=
  match fs.values.lookup name with
  | some d => value d
  | none => .error .mismatched

/-- A field that may be null, or be left out of an object. -/
def nullable (fs : Fields) (name : String) (value : JsonDocument → Except JsonFault α) :
    Except JsonFault (Option α) :=
  match fs.values.lookup name with
  | some d => asOptional value d
  | none => if fs.byPlace then .error .mismatched else .ok none

/-- A field that has a default. -/
def defaulted (fs : Fields) (name : String) (fallback : α)
    (value : JsonDocument → Except JsonFault α) : Except JsonFault α :=
  match fs.values.lookup name with
  | some d => value d
  | none => .ok fallback

end Fields

/-- One of the words, written alone or as the only key of an object with null. -/
def asOneOf (words : List (String × α)) : JsonDocument → Except JsonFault α
  | .string s =>
    match words.lookup s with
    | some a => .ok a
    | none => .error .mismatched
  | .object [(key, .null)] none =>
    match words.lookup key with
    | some a => .ok a
    | none => .error .mismatched
  | .fault f => .error f
  | _ => .error .mismatched

end CompilingProxy.JsonDocument
