/-!
# The shortest decimal that reads back

A positive finite double is `mantissa · 2 ^ exponent`, and every real nearer to it than to its two
neighbours reads back as it. Of the decimals in that interval the ones with the fewest digits are
wanted, and of those the nearest. The search runs over grids of one digit, two digits and so on;
if any point of a grid lies in the interval then one of the value's two neighbours on that grid
does, so two tests settle a grid.
-/

namespace CompilingProxy

/-- `digits · 10 ^ exponent`. -/
structure Decimal where
  digits : Nat
  exponent : Int
deriving DecidableEq, Repr

/-- A positive double taken apart: `mantissa · 2 ^ exponent`. -/
structure Binary where
  mantissa : Nat
  exponent : Int
deriving DecidableEq, Repr

namespace Binary

/-- The parts of a double's magnitude, read off its bits. -/
def ofFloat (x : Float) : Binary :=
  let bits : Nat := x.toBits.toNat % Nat.pow 2 63
  let field : Nat := bits / Nat.pow 2 52
  let fraction : Nat := bits % Nat.pow 2 52
  if field = 0 then ⟨fraction, -1074⟩ else ⟨fraction + Nat.pow 2 52, (field : Int) - 1075⟩

/-- The value, the lower and the upper end of the interval that reads back as it, over one
denominator, in quarters of the last binary place. Below a power of two the spacing is halved. -/
def interval (b : Binary) : Nat × Nat × Nat × Nat :=
  let lower := if b.mantissa = Nat.pow 2 52 ∧ b.exponent > -1074 then 1 else 2
  let e := b.exponent - 2
  let scale := Nat.pow 2 e.toNat
  (4 * b.mantissa * scale, (4 * b.mantissa - lower) * scale, (4 * b.mantissa + 2) * scale,
    Nat.pow 2 (-e).toNat)

/-- The least `p` with value below `10 ^ p`, searched from a start that is not above it. -/
def magnitude (value den : Nat) : (fuel : Nat) → Int → Int
  | 0, p => p
  | fuel + 1, p =>
    if value * Nat.pow 10 (-p).toNat < den * Nat.pow 10 p.toNat then p
    else magnitude value den fuel (p + 1)

/-- The point of the grid `10 ^ exponent` in the interval that is nearest to the value. An exact
tie goes to the even one. -/
def onGrid? (b : Binary) (exponent : Int) : Option Nat :=
  let (value, low, high, den) := b.interval
  let up := Nat.pow 10 (-exponent).toNat
  let unit := den * Nat.pow 10 exponent.toNat
  let value := value * up
  let low := low * up
  let high := high * up
  let closed := b.mantissa % 2 = 0
  let inside := fun point : Nat =>
    if closed then decide (low ≤ point ∧ point ≤ high) else decide (low < point ∧ point < high)
  let below := value / unit
  let down := inside (below * unit) && below != 0
  let above := inside ((below + 1) * unit)
  let twice := 2 * (value - below * unit)
  if down && above then
    if twice < unit ∨ (twice = unit ∧ below % 2 = 0) then some below else some (below + 1)
  else if down then some below
  else if above then some (below + 1)
  else none

/-- Tries grids with more and more digits; seventeen are always enough. -/
def search (b : Binary) (p : Int) : (fuel digits : Nat) → Decimal
  | 0, _ => ⟨0, 0⟩
  | fuel + 1, digits =>
    match b.onGrid? (p - digits) with
    | some d => ⟨d, p - digits⟩
    | none => search b p fuel (digits + 1)

end Binary

namespace Decimal

/-- The decimal with no zero at the end of its digits. -/
def strip : (fuel : Nat) → Decimal → Decimal
  | 0, d => d
  | fuel + 1, d =>
    if d.digits ≠ 0 ∧ d.digits % 10 = 0 then strip fuel ⟨d.digits / 10, d.exponent + 1⟩ else d

/-- The shortest decimal that reads back as the magnitude of a finite double. -/
def ofFloat (x : Float) : Decimal :=
  let b := Binary.ofFloat x
  if b.mantissa = 0 then ⟨0, 0⟩
  else
    let (value, _, _, den) := b.interval
    strip 20 (b.search (Binary.magnitude value den 700 (-330)) 18 1)

/-- The digits alone. -/
def digitText (d : Decimal) : List Char := Nat.toDigits 10 d.digits

/-- The places before the point, negative where zeros follow it. -/
def point (d : Decimal) : Int := d.digitText.length + d.exponent

/-- All digits written out around the point, without an exponent and without a point where there is
no fraction. -/
def positional (d : Decimal) : List Char :=
  let digits := d.digitText
  if 0 ≤ d.exponent then digits ++ List.replicate d.exponent.toNat '0'
  else if 0 < d.point then
    digits.take d.point.toNat ++ ['.'] ++ digits.drop d.point.toNat
  else ['0', '.'] ++ List.replicate (-d.point).toNat '0' ++ digits

end Decimal

namespace Number

/-- Whether the sign bit is set, on a zero too. -/
def isNegative (x : Float) : Bool := Nat.pow 2 63 ≤ x.toBits.toNat

/-- A double with all its digits written out; without a fraction it has no point. -/
def plain (x : Float) : String :=
  if x.isNaN then "NaN"
  else
    let magnitude := if x.isInf then "inf".toList else (Decimal.ofFloat x).positional
    String.ofList (if isNegative x then '-' :: magnitude else magnitude)

/-- A finite double as JSON documents have it: always with a point or an exponent, and positional
from `1e-5` up to, but not including, `1e16`. -/
def document (x : Float) : String :=
  let d := Decimal.ofFloat x
  let digits := d.digitText
  let body :=
    if d.digits = 0 then "0.0".toList
    else if 0 ≤ d.exponent ∧ d.point ≤ 16 then d.positional ++ ['.', '0']
    else if -5 < d.point ∧ d.point ≤ 16 then d.positional
    else
      let exponent := (toString (d.point - 1)).toList
      match digits with
      | [digit] => digit :: 'e' :: exponent
      | first :: rest => first :: '.' :: (rest ++ 'e' :: exponent)
      | [] => []
  String.ofList (if isNegative x then '-' :: body else body)

end Number

end CompilingProxy
