import CompilingProxy.Time.Instant
import CompilingProxy.Text.Blank
import CompilingProxy.Toml.Value

/-!
# TOML numbers, dates and words

Whatever is not quoted and holds no brackets stands in one run of characters. The run as a whole is
a word, a number or a date, or it is nothing.
-/

namespace CompilingProxy.Toml

open Text

/-- Digits in groups with a single underscore between each two. -/
def isGrouped (isDigit : Char → Bool) : List Char → Bool
  | [] => false
  | [c] => isDigit c
  | c :: '_' :: cs => isDigit c && isGrouped isDigit cs
  | c :: cs => isDigit c && isGrouped isDigit cs

/-- The value of digits, with the underscores passed over. -/
def digitsValue (base : Nat) (cs : List Char) : Nat :=
  cs.foldl (fun n c => if c = '_' then n else n * base + (hexDigit c)) 0
where
  hexDigit (c : Char) : Nat := if c.isDigit then c.toNat - 48 else c.toLower.toNat - 87

def isHex (c : Char) : Bool := c.isDigit || ('a' ≤ c.toLower && c.toLower ≤ 'f')

def withinWord (n : Int) : Option Int :=
  if Int64.minValue.toInt ≤ n ∧ n ≤ Int64.maxValue.toInt then some n else none

/-- The sign of a number and what follows it. -/
def signed : List Char → Int × List Char
  | '+' :: cs => (1, cs)
  | '-' :: cs => (-1, cs)
  | cs => (1, cs)

/-- Digits of a number in base ten; only zero begins with a zero. -/
def isDecimal (cs : List Char) : Bool :=
  isGrouped Char.isDigit cs && (cs.head? != some '0' || cs.length == 1)

def integer? (cs : List Char) : Option Int :=
  let based (base : Nat) (isDigit : Char → Bool) (cs : List Char) : Option Int :=
    if isGrouped isDigit cs then withinWord (digitsValue base cs) else none
  match cs with
  | '0' :: 'x' :: cs => based 16 isHex cs
  | '0' :: 'o' :: cs => based 8 (fun c => '0' ≤ c && c ≤ '7') cs
  | '0' :: 'b' :: cs => based 2 (fun c => c == '0' || c == '1') cs
  | cs =>
    let (sign, cs) := signed cs
    if isDecimal cs then withinWord (sign * digitsValue 10 cs) else none

/-- Whether a run is a number with a fraction or an exponent, or one of the special ones. A positive
number has to be in the range of doubles. -/
def isReal (cs : List Char) : Bool :=
  let (sign, cs) := signed cs
  if cs = "inf".toList || cs = "nan".toList then true
  else
    let isMark := fun c : Char => c == 'e' || c == 'E'
    let front := cs.takeWhile (!isMark ·)
    let exponent := cs.dropWhile (!isMark ·)
    let (whole, fraction) := match cutFirst? '.' front with
      | some (whole, fraction) => (whole, some fraction)
      | none => (front, none)
    let (exponentSign, exponentDigits) := signed (exponent.drop 1)
    let wellFormed := isDecimal whole && fraction.all (isGrouped Char.isDigit) &&
      (exponent.isEmpty || isGrouped Char.isDigit exponentDigits) &&
      (fraction.isSome || !exponent.isEmpty)
    let places := ((fraction.getD []).filter (· ≠ '_')).length
    let power := exponentSign * min (digitsValue 10 exponentDigits) 100000 - places
    let significand := digitsValue 10 (whole ++ fraction.getD [])
    let size := Float.ofScientific significand (power < 0) power.natAbs
    wellFormed && (sign < 0 || !size.isInf)

/-- Exactly that many digits, and the rest. -/
def digits? (count : Nat) (cs : List Char) : Option (Nat × List Char) :=
  let read := cs.take count
  if read.length = count ∧ read.all Char.isDigit then
    some (digitsValue 10 read, cs.drop count)
  else none

/-- A date `1979-05-27` at the front. -/
def date? (cs : List Char) : Option (List Char) := do
  let (year, cs) ← digits? 4 cs
  let cs ← dropFront? ['-'] cs
  let (month, cs) ← digits? 2 cs
  let cs ← dropFront? ['-'] cs
  let (day, cs) ← digits? 2 cs
  if 1 ≤ month && month ≤ 12 && 1 ≤ day && day ≤ Calendar.daysInMonth year month then some cs
  else none

/-- A time `07:32:00.5` at the front. -/
def time? (cs : List Char) : Option (List Char) := do
  let (hour, cs) ← digits? 2 cs
  let cs ← dropFront? [':'] cs
  let (minute, cs) ← digits? 2 cs
  let cs ← dropFront? [':'] cs
  let (second, cs) ← digits? 2 cs
  if hour < 24 && minute < 60 && second ≤ 60 then
    match cs with
    | '.' :: rest =>
      if rest.head?.any Char.isDigit then some (rest.dropWhile Char.isDigit) else none
    | _ => some cs
  else none

/-- An offset `Z` or `-07:00` that is all there is, or nothing. -/
def isOffset (cs : List Char) : Bool :=
  match cs with
  | [] | ['Z'] | ['z'] => true
  | sign :: cs =>
    (sign == '+' || sign == '-') && (Option.isSome do
      let (hour, cs) ← digits? 2 cs
      let cs ← dropFront? [':'] cs
      let (minute, cs) ← digits? 2 cs
      if hour < 24 && minute < 60 && cs.isEmpty then some () else none)

def isTime (cs : List Char) : Bool :=
  match time? cs with
  | some rest => rest.isEmpty
  | none => false

/-- Whether a run is a date, a time, or both with an offset or without. -/
def isMoment (cs : List Char) : Bool :=
  isTime cs ||
    match date? cs with
    | some [] => true
    | some (mark :: rest) =>
      (mark == 'T' || mark == 't' || mark == ' ') && (time? rest).any isOffset
    | none => false

/-- What a run of characters is. -/
def plain? (cs : List Char) : Option TomlValue :=
  if cs = "true".toList then some (.boolean true)
  else if cs = "false".toList then some (.boolean false)
  else if isMoment cs then some .moment
  else if isReal cs then some .real
  else (integer? cs).map .integer

end CompilingProxy.Toml
