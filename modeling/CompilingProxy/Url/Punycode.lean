import CompilingProxy.Text.Split

/-!
# Punycode

A label of a name written in letters and digits of ASCII alone: first its own characters of ASCII,
then where the others stand, as the distances from one to the next in the order of code points. A
distance is written in digits whose places weigh more or less as the distances before it were.
-/

namespace CompilingProxy.Punycode

open Text

/-- The digits of a place: small letters, then digits. -/
def digitChar (d : Nat) : Char := Char.ofNat (if d < 26 then d + 97 else d - 26 + 48)

def digitValue? (c : Char) : Option Nat :=
  if c.isLower then some (c.toNat - 97)
  else if c.isUpper then some (c.toNat - 65)
  else if c.isDigit then some (c.toNat - 48 + 26)
  else none

/-- A digit below the threshold of its place is the last one. -/
def threshold (place bias : Nat) : Nat :=
  if place ≤ bias then 1 else if bias + 26 ≤ place then 26 else place - bias

theorem one_le_threshold (place bias : Nat) : 1 ≤ threshold place bias := by
  unfold threshold
  split
  · omega
  · split <;> omega

/-- How often a distance can be divided before it is small, and what is left of it. -/
def shrink (delta places : Nat) : Nat × Nat :=
  if 455 < delta then shrink (delta / 35) (places + 36) else (delta, places)
termination_by delta
decreasing_by omega

/-- The bias after a distance, given how many characters there are with the new one. -/
def adapt (delta count : Nat) (isFirst : Bool) : Nat :=
  let delta := if isFirst then delta / 700 else delta / 2
  let (delta, places) := shrink (delta + delta / count) 0
  places + 36 * delta / (delta + 38)

/-! ### Writing -/

/-- A distance in digits. -/
def distance (bias place q : Nat) : List Char :=
  let t := threshold place bias
  if q < t then [digitChar q]
  else digitChar (t + (q - t) % (36 - t)) :: distance bias (place + 36) ((q - t) / (36 - t))
termination_by q
decreasing_by
  have := one_le_threshold place bias
  have := Nat.div_le_self (q - threshold place bias) (36 - threshold place bias)
  omega

structure Progress where
  delta : Nat
  bias : Nat
  /-- How many characters have been written. -/
  count : Nat
  out : List Char

/-- Passes a character on the way to the next place of the code point. -/
def pass (basic point : Nat) (p : Progress) (n : Nat) : Progress :=
  if n < point then { p with delta := p.delta + 1 }
  else if n = point then
    { delta := 0, bias := adapt p.delta (p.count + 1) (p.count = basic), count := p.count + 1
      out := p.out ++ distance p.bias 36 p.delta }
  else p

/-- Writes the places of all code points, the smallest first; `from_` is the one before, and one
more. -/
def writePlaces (basic : Nat) (label : List Nat) : (from_ : Nat) → List Nat → Progress → List Char
  | _, [], p => p.out
  | from_, point :: points, p =>
    let p := { p with delta := p.delta + (point - from_) * (p.count + 1) }
    let p := label.foldl (pass basic point) p
    writePlaces basic label (point + 1) points { p with delta := p.delta + 1 }

def isBasic (c : Char) : Bool := c.val < 0x80

/-- The label in ASCII, without a mark that says so. -/
def encode (label : List Char) : List Char :=
  let basic := label.filter isBasic
  let points := ((label.filter (!isBasic ·)).map Char.toNat).mergeSort.eraseDups
  let start := if basic.isEmpty then [] else basic ++ ['-']
  start ++ writePlaces basic.length (label.map Char.toNat) 128 points
    { delta := 0, bias := 72, count := basic.length, out := [] }

/-! ### Reading -/

/-- A distance that is added to a sum, and what stands behind it. -/
def readDistance? (bias : Nat) :
    (place weight sum : Nat) → List Char → Option (Nat × List Char)
  | _, _, _, [] => none
  | place, weight, sum, c :: cs => do
    let d ← digitValue? c
    let t := threshold place bias
    let sum := sum + d * weight
    if d < t then some (sum, cs)
    else readDistance? bias (place + 36) (weight * (36 - t)) sum cs

/-- Puts characters in their places as long as there are distances. -/
def readPlaces? : (fuel bias point place : Nat) → List Char → List Char → Option (List Char)
  | 0, _, _, _, _, _ => none
  | _, _, _, _, label, [] => some label
  | fuel + 1, bias, point, place, label, cs => do
    let (sum, cs) ← readDistance? bias 36 1 place cs
    let count := label.length + 1
    let point := point + sum / count
    let c := Char.ofNat point
    if c.toNat != point then none
    else
      readPlaces? fuel (adapt (sum - place) count (place = 0)) point (sum % count + 1)
        (label.insertIdx (sum % count) c) cs

/-- The label that the text stands for. A text without a distance stands for none. -/
def decode? (text : List Char) : Option (List Char) :=
  let (basic, places) := match cutLast? '-' text with
    | some (b :: bs, places) => (b :: bs, places)
    | _ => ([], text)
  if places.isEmpty || !text.all isBasic then none
  else readPlaces? (places.length + 1) 72 128 0 (basic.map Char.toLower) places

end CompilingProxy.Punycode
