import CompilingProxy.Json.Value

/-!
# Reading JSON documents

A document is read from bytes as far as it can be. What was read stays, and where reading stopped
the fault stands in the place of the value that could not be read. A reader that wants a certain
shape therefore meets whatever comes first in the document, a value of the wrong shape or a fault.
Behind the value of a member reading goes on if the value can at least be passed over.
-/

namespace CompilingProxy

/-- Why a document is refused: it ends too early, it is malformed, or it is well formed but has a
value of the wrong shape. -/
inductive JsonFault where
  | ended
  | malformed
  | mismatched
deriving DecidableEq, Repr

/-- A document as far as it could be read. The members of an object stand as written. -/
inductive JsonDocument where
  | null
  | bool (b : Bool)
  | number (n : JsonNumber)
  | string (s : String)
  | array (items : List JsonDocument) (closing : Option JsonFault)
  | object (members : List (String × JsonDocument)) (closing : Option JsonFault)
  | fault (f : JsonFault)
deriving Repr, Inhabited

namespace JsonDocument

abbrev Bytes := List UInt8

def isSpace (b : UInt8) : Bool := b == 0x20 || b == 0x0a || b == 0x09 || b == 0x0d

def skipSpace (bytes : Bytes) : Bytes := bytes.dropWhile isSpace

def isDigit (b : UInt8) : Bool := 0x30 ≤ b && b ≤ 0x39

def digit (b : UInt8) : Nat := b.toNat - 0x30

def hexValue? (b : UInt8) : Option Nat :=
  if isDigit b then some (digit b)
  else if 0x61 ≤ b && b ≤ 0x66 then some (b.toNat - 0x61 + 10)
  else if 0x41 ≤ b && b ≤ 0x46 then some (b.toNat - 0x41 + 10)
  else none

/-- Reads the four hexadecimal digits of an escape. -/
def hexEscape : Bytes → Except JsonFault (Nat × Bytes)
  | a :: b :: c :: d :: rest =>
    match hexValue? a, hexValue? b, hexValue? c, hexValue? d with
    | some a, some b, some c, some d => .ok (((a * 16 + b) * 16 + c) * 16 + d, rest)
    | _, _, _, _ => .error .malformed
  | _ => .error .ended

/-- The bytes of a scalar value in UTF-8. -/
def encodeScalar (n : Nat) : Bytes := (String.singleton (Char.ofNat n)).toUTF8.toList

/-- Reads what follows a backslash: the bytes it stands for and the rest. -/
def escape : Bytes → Except JsonFault (Bytes × Bytes)
  | [] => .error .ended
  | 0x22 :: rest => .ok ([0x22], rest)
  | 0x5c :: rest => .ok ([0x5c], rest)
  | 0x2f :: rest => .ok ([0x2f], rest)
  | 0x62 :: rest => .ok ([8], rest)
  | 0x66 :: rest => .ok ([12], rest)
  | 0x6e :: rest => .ok ([10], rest)
  | 0x72 :: rest => .ok ([13], rest)
  | 0x74 :: rest => .ok ([9], rest)
  | 0x75 :: rest => do
    let (n, rest) ← hexEscape rest
    if 0xdc00 ≤ n && n ≤ 0xdfff then throw .malformed
    else if 0xd800 ≤ n && n ≤ 0xdbff then
      match rest with
      | [] => throw .ended
      | 0x5c :: rest =>
        match rest with
        | [] => throw .ended
        | 0x75 :: rest =>
          let (low, rest) ← hexEscape rest
          if 0xdc00 ≤ low && low ≤ 0xdfff then
            return (encodeScalar (0x10000 + (n - 0xd800) * 0x400 + (low - 0xdc00)), rest)
          else throw .malformed
        | _ => throw .malformed
      | _ => throw .malformed
    else return (encodeScalar n, rest)
  | _ => .error .malformed

/-- Reads a string after its opening mark; `read` holds its bytes so far, last one first. -/
def stringBytes : (fuel : Nat) → (read : Bytes) → Bytes → Except JsonFault (Bytes × Bytes)
  | 0, _, _ => .error .ended
  | _ + 1, _, [] => .error .ended
  | fuel + 1, read, b :: rest =>
    if b == 0x22 then .ok (read.reverse, rest)
    else if b == 0x5c then do
      let (bytes, rest) ← escape rest
      stringBytes fuel (bytes.reverse ++ read) rest
    else if b < 0x20 then .error .malformed
    else stringBytes fuel (b :: read) rest

/-- Reads a string after its opening mark; its bytes have to be UTF-8. -/
def stringText (bytes : Bytes) : Except JsonFault (String × Bytes) := do
  let (read, rest) ← stringBytes (bytes.length + 1) [] bytes
  match String.fromUTF8? ⟨read.toArray⟩ with
  | some s => return (s, rest)
  | none => throw .malformed

/-- Digits that still fit into 64 bits beside those already read; the count of the digits taken. -/
def fittingDigits (significand : Nat) : Bytes → Nat × Nat × Bytes
  | [] => (significand, 0, [])
  | b :: rest =>
    if isDigit b ∧ significand * 10 + digit b < UInt64.size then
      let (s, n, rest) := fittingDigits (significand * 10 + digit b) rest
      (s, n + 1, rest)
    else (significand, 0, b :: rest)

/-- A power of ten as a double, within the range of doubles. -/
def powerOfTen (n : Nat) : Float := Float.ofScientific 1 false n

/-- Scales a significand by a power of ten with one multiplication or division where the power is a
double, after divisions by the greatest one. None where the result is out of range. -/
def scale : (fuel : Nat) → Float → Int → Option Float
  | 0, f, _ => some f
  | fuel + 1, f, exponent =>
    if exponent.natAbs ≤ 308 then
      if 0 ≤ exponent then
        let x := f * powerOfTen exponent.natAbs
        if x.isInf then none else some x
      else some (f / powerOfTen exponent.natAbs)
    else if f == 0 then some f
    else if 0 ≤ exponent then none
    else scale fuel (f / powerOfTen 308) (exponent + 308)

def real (positive : Bool) (significand : Nat) (exponent : Int) : Except JsonFault JsonNumber :=
  match scale 64 (Float.ofNat significand) exponent with
  | some x => .ok (.real (if positive then x else -x))
  | none => .error .malformed

/-- Reads the exponent after its letter and closes the number. -/
def exponentPart (positive : Bool) (significand : Nat) (start : Int) (bytes : Bytes) :
    Except JsonFault (JsonNumber × Bytes) := do
  let (up, bytes) := match bytes with
    | 0x2b :: rest => (true, rest)
    | 0x2d :: rest => (false, rest)
    | _ => (true, bytes)
  match bytes with
  | [] => throw .ended
  | b :: _ =>
    if !isDigit b then throw .malformed
    let digits := bytes.takeWhile isDigit
    let rest := bytes.dropWhile isDigit
    let exponent := digits.foldl (fun e b => e * 10 + digit b) 0
    if exponent ≥ Nat.pow 2 31 then
      if significand ≠ 0 ∧ up then throw .malformed
      else return (.real (if positive then 0.0 else -0.0), rest)
    let n ← real positive significand (if up then start + exponent else start - exponent)
    return (n, rest)

/-- Reads what follows the digits before the point. -/
def afterDigits (positive : Bool) (significand : Nat) (exponent : Int) (bytes : Bytes) :
    Except JsonFault (JsonNumber × Bytes) := do
  match bytes with
  | 0x65 :: rest | 0x45 :: rest => exponentPart positive significand exponent rest
  | _ => return (← real positive significand exponent, bytes)

/-- Reads the digits after the point. -/
def fractionPart (positive : Bool) (significand : Nat) (exponent : Int) (bytes : Bytes) :
    Except JsonFault (JsonNumber × Bytes) := do
  let (significand, taken, rest) := fittingDigits significand bytes
  match rest with
  | [] => if taken = 0 then throw .ended
  | b :: _ => if taken = 0 ∧ !isDigit b then throw .malformed
  afterDigits positive significand (exponent - taken) (rest.dropWhile isDigit)

/-- Reads a number whose sign has been read. -/
def numberText (positive : Bool) (bytes : Bytes) : Except JsonFault (JsonNumber × Bytes) := do
  match bytes with
  | [] => throw .ended
  | b :: rest =>
    if !isDigit b then throw .malformed
    if b == 0x30 then
      match rest with
      | c :: _ => if isDigit c then throw .malformed
      | [] => pure ()
    let (significand, _, rest) := fittingDigits 0 bytes
    let dropped := (rest.takeWhile isDigit).length
    match rest.dropWhile isDigit with
    | 0x2e :: rest => fractionPart positive significand dropped rest
    | rest =>
      let more := dropped ≠ 0 || rest.head? == some 0x65 || rest.head? == some 0x45
      if more then afterDigits positive significand dropped rest
      else if positive then return (.natural significand, rest)
      else if significand = 0 then return (.real (-0.0), rest)
      else if significand ≤ Nat.pow 2 63 then return (.negative significand, rest)
      else return (.real (-(Float.ofNat significand)), rest)

/-- Reads the rest of a word; the input may end inside it. -/
def word : (expected : Bytes) → Bytes → Except JsonFault Bytes
  | [], rest => .ok rest
  | _ :: _, [] => .error .ended
  | e :: es, b :: rest => if e == b then word es rest else .error .malformed

/-! ### Passing over

A value that nobody wants is passed over. Then it only has to be written as a value: how deep it is,
how great its numbers are and what its escapes stand for does not matter. -/

/-- Passes over a string after its opening mark. -/
def passString : (fuel : Nat) → Bytes → Except JsonFault Bytes
  | 0, _ => .error .ended
  | _ + 1, [] => .error .ended
  | fuel + 1, b :: rest =>
    if b == 0x22 then .ok rest
    else if b == 0x5c then
      match rest with
      | [] => .error .ended
      | 0x75 :: rest => do
        let (_, rest) ← hexEscape rest
        passString fuel rest
      | e :: rest =>
        if [0x22, 0x5c, 0x2f, 0x62, 0x66, 0x6e, 0x72, 0x74].contains e then passString fuel rest
        else .error .malformed
    else if b < 0x20 then .error .malformed
    else passString fuel rest

/-- Passes over one digit or more. -/
def passDigits : Bytes → Except JsonFault Bytes
  | [] => .error .ended
  | b :: rest => if isDigit b then .ok (rest.dropWhile isDigit) else .error .malformed

/-- Passes over an exponent, if there is one. -/
def passExponent : Bytes → Except JsonFault Bytes
  | 0x65 :: rest | 0x45 :: rest =>
    match rest with
    | 0x2b :: rest | 0x2d :: rest => passDigits rest
    | rest => passDigits rest
  | rest => .ok rest

/-- Passes over a number whose sign has been read. -/
def passNumber (bytes : Bytes) : Except JsonFault Bytes := do
  let rest ← match bytes with
    | 0x30 :: c :: rest => if isDigit c then throw .malformed else pure (c :: rest)
    | _ => passDigits bytes
  match rest with
  | 0x2e :: rest => passExponent (← passDigits rest)
  | rest => passExponent rest

/-- Passes over a value without parts; none if there is none. -/
def passScalar? (bytes : Bytes) : Option (Except JsonFault Bytes) :=
  match bytes with
  | [] => none
  | b :: rest =>
    if b == 0x22 then some (passString bytes.length rest)
    else if b == 0x2d then some (passNumber rest)
    else if isDigit b then some (passNumber bytes)
    else if b == 0x6e then some (word [0x75, 0x6c, 0x6c] rest)
    else if b == 0x74 then some (word [0x72, 0x75, 0x65] rest)
    else if b == 0x66 then some (word [0x61, 0x6c, 0x73, 0x65] rest)
    else none

/-- The brackets that close an array and an object. -/
def arrayEnd : UInt8 := 0x5d
def objectEnd : UInt8 := 0x7d

/-- Passes over the key of a member and its colon. -/
def passKey (bytes : Bytes) : Except JsonFault Bytes := do
  match skipSpace bytes with
  | 0x22 :: rest =>
    match skipSpace (← passString bytes.length rest) with
    | 0x3a :: rest => return rest
    | [] => throw .ended
    | _ => throw .malformed
  | [] => throw .ended
  | _ => throw .malformed

/-- Where passing over goes on. -/
inductive Passing where
  /-- A value has to follow. -/
  | value
  /-- A value or the end of what has just been opened. -/
  | opened
  /-- A comma or the end of what is open. -/
  | behind

/-- Passes over values until all that has been opened is closed; `closers` are the brackets that
have to come, the innermost first. -/
def passOver : (fuel : Nat) → (closers : List UInt8) → Passing → Bytes → Except JsonFault Bytes
  | 0, _, _, _ => .error .ended
  | _ + 1, [], .behind, bytes => .ok bytes
  | fuel + 1, closer :: closers, .behind, bytes =>
    match skipSpace bytes with
    | [] => .error .ended
    | b :: rest =>
      if b == closer then passOver fuel closers .behind rest
      else if b == 0x2c then
        if closer == objectEnd then do passOver fuel (closer :: closers) .value (← passKey rest)
        else passOver fuel (closer :: closers) .value rest
      else .error .malformed
  | fuel + 1, closers, .opened, bytes =>
    match skipSpace bytes with
    | [] => .error .ended
    | b :: rest =>
      if closers.head? == some b then passOver fuel closers.tail .behind rest
      else if closers.head? == some objectEnd then do
        passOver fuel closers .value (← passKey (b :: rest))
      else passOver fuel closers .value (b :: rest)
  | fuel + 1, closers, .value, bytes =>
    match skipSpace bytes with
    | [] => .error .ended
    | 0x5b :: rest => passOver fuel (arrayEnd :: closers) .opened rest
    | 0x7b :: rest => passOver fuel (objectEnd :: closers) .opened rest
    | bytes =>
      match passScalar? bytes with
      | some result => do passOver fuel closers .behind (← result)
      | none => .error .malformed

/-- Passes over one value. -/
def passValue (bytes : Bytes) : Except JsonFault Bytes :=
  passOver (2 * bytes.length + 2) [] .value bytes

/-! ### Values -/

/-- Nesting is refused from this depth on. -/
def depthLimit : Nat := 128

/-- Where an object or an array goes on: another entry, its end, or a fault. -/
inductive Step where
  | entry (rest : Bytes)
  | close (rest : Bytes)
  | stop (f : JsonFault)

/-- Looks for the next entry; `close` is the bracket that ends the collection. -/
def nextEntry (close : UInt8) (first : Bool) (bytes : Bytes) : Step :=
  match skipSpace bytes with
  | [] => .stop .ended
  | b :: rest =>
    if b == close then .close rest
    else if first then .entry (b :: rest)
    else if b == 0x2c then
      match skipSpace rest with
      | [] => .stop .ended
      | c :: rest => if c == close then .stop .malformed else .entry (c :: rest)
    else .stop .malformed

/-- A value that was read, and the rest unless reading stopped in it. -/
abbrev Reading := JsonDocument × Option Bytes

def scalar (make : α → JsonDocument) : Except JsonFault (α × Bytes) → Reading
  | .ok (a, rest) => (make a, some rest)
  | .error f => (.fault f, none)

mutual

/-- Reads one value; `depth` levels of nesting are still open to it. -/
def value : (fuel depth : Nat) → Bytes → Reading
  | 0, _, _ => (.fault .ended, none)
  | fuel + 1, depth, bytes =>
    match skipSpace bytes with
    | [] => (.fault .ended, none)
    | b :: rest =>
      if b == 0x22 then scalar .string (stringText rest)
      else if b == 0x2d then scalar .number (numberText false rest)
      else if isDigit b then scalar .number (numberText true (b :: rest))
      else if b == 0x6e then
        scalar (fun _ => .null) ((word [0x75, 0x6c, 0x6c] rest).map ((), ·))
      else if b == 0x74 then
        scalar (fun _ => .bool true) ((word [0x72, 0x75, 0x65] rest).map ((), ·))
      else if b == 0x66 then
        scalar (fun _ => .bool false) ((word [0x61, 0x6c, 0x73, 0x65] rest).map ((), ·))
      else if b == 0x5b then
        if depth ≤ 1 then (.fault .malformed, none)
        else items fuel (depth - 1) true [] rest
      else if b == 0x7b then
        if depth ≤ 1 then (.fault .malformed, none)
        else members fuel (depth - 1) true [] rest
      else (.fault .malformed, none)

def items : (fuel depth : Nat) → (first : Bool) → List JsonDocument → Bytes → Reading
  | 0, _, _, read, _ => (.array read.reverse (some .ended), none)
  | fuel + 1, depth, first, read, bytes =>
    match nextEntry 0x5d first bytes with
    | .stop f => (.array read.reverse (some f), none)
    | .close rest => (.array read.reverse none, some rest)
    | .entry bytes =>
      match value fuel depth bytes with
      | (v, none) => (.array (v :: read).reverse none, none)
      | (v, some rest) => items fuel depth false (v :: read) rest

def members : (fuel depth : Nat) → (first : Bool) → List (String × JsonDocument) → Bytes → Reading
  | 0, _, _, read, _ => (.object read.reverse (some .ended), none)
  | fuel + 1, depth, first, read, bytes =>
    match nextEntry 0x7d first bytes with
    | .stop f => (.object read.reverse (some f), none)
    | .close rest => (.object read.reverse none, some rest)
    | .entry (0x22 :: bytes) =>
      match stringText bytes with
      | .error f => (.object read.reverse (some f), none)
      | .ok (key, rest) =>
        match skipSpace rest with
        | [] => (.object ((key, .fault .ended) :: read).reverse none, none)
        | 0x3a :: rest =>
          match value fuel depth rest with
          | (v, some rest) => members fuel depth false ((key, v) :: read) rest
          | (v, none) =>
            match passValue rest with
            | .ok rest => members fuel depth false ((key, v) :: read) rest
            | .error f => (.object ((key, v) :: read).reverse (some f), none)
        | _ => (.object ((key, .fault .malformed) :: read).reverse none, none)
    | .entry _ => (.object read.reverse (some .malformed), none)

end

/-- A document, and the fault that stands after its value if something does. -/
def ofBytes (bytes : Bytes) : JsonDocument × Option JsonFault :=
  match value (2 * bytes.length + 2) depthLimit bytes with
  | (v, none) => (v, none)
  | (v, some rest) => (v, if (skipSpace rest).isEmpty then none else some .malformed)

mutual

/-- The value of a document that was read whole. -/
def toJson : JsonDocument → Except JsonFault Json
  | .null => .ok .null
  | .bool b => .ok (.bool b)
  | .number n => .ok (.number n)
  | .string s => .ok (.string s)
  | .array items closing => do
    let items ← toJsonItems items
    match closing with
    | some f => throw f
    | none => return .array items
  | .object members closing => do
    let members ← toJsonMembers members
    match closing with
    | some f => throw f
    | none => return .object (Json.ofMembers members)
  | .fault f => .error f

def toJsonItems : List JsonDocument → Except JsonFault (List Json)
  | [] => .ok []
  | d :: ds => do return (← toJson d) :: (← toJsonItems ds)

def toJsonMembers : List (String × JsonDocument) → Except JsonFault (List (String × Json))
  | [] => .ok []
  | (key, d) :: ds => do return (key, ← toJson d) :: (← toJsonMembers ds)

end

mutual

/-- A value as the document that it would be read from. -/
def ofJson : Json → JsonDocument
  | .null => .null
  | .bool b => .bool b
  | .number n => .number n
  | .string s => .string s
  | .array items => .array (ofJsonItems items) none
  | .object members => .object (ofJsonMembers members) none

def ofJsonItems : List Json → List JsonDocument
  | [] => []
  | j :: js => ofJson j :: ofJsonItems js

def ofJsonMembers : List (String × Json) → List (String × JsonDocument)
  | [] => []
  | (key, j) :: js => (key, ofJson j) :: ofJsonMembers js

end

end JsonDocument

/-- Reads a whole document with the reader of a shape. -/
def Json.read (shape : JsonDocument → Except JsonFault α) (bytes : List UInt8) :
    Except JsonFault α := do
  let (d, trailing) := JsonDocument.ofBytes bytes
  let a ← shape d
  match trailing with
  | some f => throw f
  | none => return a

def Json.parse (bytes : List UInt8) : Except JsonFault Json := Json.read JsonDocument.toJson bytes

end CompilingProxy
