import CompilingProxy.Number.Shortest
import CompilingProxy.Text.Split

/-!
# Reading numbers

Numbers as programs write them, and the arithmetic on doubles that goes through whole numbers.
-/

namespace CompilingProxy.Number

open Text

/-- The value of a digit in bases up to sixteen. -/
def digitValue? (base : Nat) (c : Char) : Option Nat :=
  let n :=
    if c.isDigit then some (c.toNat - '0'.toNat)
    else if 'a' ≤ c && c ≤ 'f' then some (c.toNat - 'a'.toNat + 10)
    else none
  n.filter (· < base)

/-- A whole number in a base; none without digits. -/
def natural? (base : Nat) (digits : List Char) : Option Nat :=
  if digits.isEmpty then none
  else digits.foldlM (fun n c => (digitValue? base c).map (n * base + ·)) 0

/-- `significand · 10 ^ exponent`, rounded to the nearest double. -/
def ofDecimal (significand : Nat) (exponent : Int) : Float :=
  let places : Int := (Nat.toDigits 10 significand).length + exponent
  if significand = 0 || places < -400 then 0
  else if places > 400 then 1 / 0
  else Float.ofScientific significand (exponent < 0) exponent.natAbs

/-- The exponent behind its letter. -/
def exponent? : List Char → Option Int
  | '-' :: digits => (natural? 10 digits).map fun n => -(n : Int)
  | '+' :: digits => (natural? 10 digits).map fun n => (n : Int)
  | digits => (natural? 10 digits).map fun n => (n : Int)

/-- A decimal number, perhaps with a point and an exponent. -/
def decimal? (text : List Char) : Option Float := do
  let (mantissa, exponent) ←
    match cutFirst? 'e' text with
    | some (mantissa, e) => (exponent? e).map fun e => (mantissa, e)
    | none => some (text, 0)
  let (whole, fraction) := (cutFirst? '.' mantissa).getD (mantissa, [])
  let significand ← natural? 10 (whole ++ fraction)
  return ofDecimal significand (exponent - fraction.length)

/-- The bases that a mark in front names. -/
def bases : List (List Char × Nat) := [(['0', 'x'], 16), (['0', 'o'], 8), (['0', 'b'], 2)]

/-- A number literal: underscores count for nothing, and whole numbers in other bases have at most
63 bits. -/
def literal? (text : List Char) : Option Float :=
  let text := (text.filter (· ≠ '_')).map Char.toLower
  let whole := bases.findSome? fun (mark, base) => do
    let n ← natural? base (← dropFront? mark text)
    if n < Nat.pow 2 63 then some (ofDecimal n 0) else none
  whole.or (decimal? text)

/-- The sign and magnitude of a finite double as a whole number over a power of two. -/
def scaled (x : Float) (exponent : Int) : Nat :=
  let b := Binary.ofFloat x
  b.mantissa * Nat.pow 2 (b.exponent - exponent).toNat

/-- What is left of `x` when `y` is taken away as often as it goes, with the sign of `x`. -/
def remainder (x y : Float) : Float :=
  if x.isNaN || y.isNaN || x.isInf || y == 0 then 0 / 0
  else if y.isInf then x
  else
    let e := min (Binary.ofFloat x).exponent (Binary.ofFloat y).exponent
    let rest := scaled x e % scaled y e
    let magnitude := (Float.ofScientific rest false 0).scaleB e
    if isNegative x then -magnitude else magnitude

/-- Whole doubles below `10 ^ 15` without a point, all others with their shortest digits. -/
def code (x : Float) : String :=
  if x.isFinite && x.floor == x && x.abs < 1e15 then toString x.toInt64.toInt else plain x

/-- The low 32 bits of the whole part of a double, which is kept within 64 bits. -/
def toInt32 (x : Float) : Int32 := x.toInt64.toInt32

def ofInt32 (n : Int32) : Float := Float.ofInt n.toInt

end CompilingProxy.Number
