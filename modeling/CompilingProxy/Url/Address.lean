import CompilingProxy.Url.Percent
import CompilingProxy.Text.Split

/-!
# Addresses of hosts

An address has four parts of a byte each, or eight pieces of two bytes. Both are read in several
forms and written in one.
-/

namespace CompilingProxy.Host

open Text

/-! ### Four parts -/

/-- A part of an address: decimal, octal after `0`, hexadecimal after `0x`. -/
def part4? (cs : List Char) : Option Nat :=
  let (radix, digits) := match cs with
    | '0' :: 'x' :: rest | '0' :: 'X' :: rest => (16, rest)
    | '0' :: rest => if rest.isEmpty then (10, cs) else (8, rest)
    | _ => (10, cs)
  digits.foldlM (fun acc c => do
    let d ← Percent.hexValue? (UInt8.ofNat c.toNat)
    if c.val < 0x80 ∧ d < radix then some (acc * radix + d) else none) 0

def looksNumeric (part : List Char) : Bool :=
  (!part.isEmpty && part.all Char.isDigit) ||
    ((beginsWith ['0', 'x'] part || beginsWith ['0', 'X'] part) && (part4? part).isSome)

/-- The parts between dots without an empty one at the end. -/
def parts4 (name : List Char) : List (List Char) :=
  let parts := splitOnChar '.' name
  if parts.length > 1 && parts.getLast? == some [] then parts.dropLast else parts

def endsInNumber (name : List Char) : Bool :=
  match (parts4 name).getLast? with
  | some part => looksNumeric part
  | none => false

def address4? (name : List Char) : Option Nat := do
  let parts := parts4 name
  if parts.length > 4 then none
  let numbers ← parts.mapM fun p => if p.isEmpty then none else part4? p
  let last ← numbers.getLast?
  let front := numbers.dropLast
  if front.any (· > 255) || last ≥ Nat.pow 256 (4 - front.length) then none
  return front.zipIdx.foldl (fun acc (n, i) => acc + n * Nat.pow 256 (3 - i)) last

def render4 (n : Nat) : List Char :=
  s!"{n / 16777216 % 256}.{n / 65536 % 256}.{n / 256 % 256}.{n % 256}".toList

/-! ### Eight pieces -/

def piece6? (cs : List Char) : Option Nat :=
  if cs.isEmpty || cs.length > 4 then none
  else cs.foldlM (fun acc c => do
    let d ← Percent.hexValue? (UInt8.ofNat c.toNat)
    if c.val < 0x80 then some (acc * 16 + d) else none) 0

/-- The four decimal bytes that may close an address, as its last two pieces. -/
def tail4? (cs : List Char) : Option (List Nat) := do
  let bytes ← (splitOnChar '.' cs).mapM fun p =>
    if p.isEmpty || p.length > 3 || !p.all Char.isDigit || (p.length > 1 && p.head? == some '0')
    then none
    else
      let n := p.foldl (fun acc c => acc * 10 + (c.toNat - 48)) 0
      if n > 255 then none else some n
  match bytes with
  | [a, b, c, d] => some [a * 256 + b, c * 256 + d]
  | _ => none

/-- The pieces between colons; the last of them may be four decimal bytes. -/
def pieces6? (cs : List Char) : Option (List Nat) :=
  if cs.isEmpty then some []
  else go (splitOnChar ':' cs)
where
  go : List (List Char) → Option (List Nat)
    | [] => some []
    | [p] => if p.contains '.' then tail4? p else (piece6? p).map ([·])
    | p :: ps => do return (← piece6? p) :: (← go ps)

def address6? (cs : List Char) : Option (List Nat) :=
  match cutAt? "::".toList cs with
  | none => do
    let pieces ← pieces6? cs
    if pieces.length = 8 then some pieces else none
  | some (front, back) => do
    if front.contains '.' then none
    let front ← pieces6? front
    let back ← pieces6? back
    if front.length + back.length ≥ 8 then none
    return front ++ List.replicate (8 - front.length - back.length) 0 ++ back

/-- The start and the length of the longest run of two or more zero pieces, the first of equals. -/
def zeroRun (pieces : List Nat) : Nat × Nat :=
  go 0 pieces (0, 0) (0, 0)
where
  go : Nat → List Nat → Nat × Nat → Nat × Nat → Nat × Nat
    | _, [], run, best => keep run best
    | i, p :: ps, run, best =>
      if p = 0 then go (i + 1) ps (if run.2 = 0 then (i, 1) else (run.1, run.2 + 1)) best
      else go (i + 1) ps (0, 0) (keep run best)
  keep (run best : Nat × Nat) : Nat × Nat := if run.2 ≥ 2 ∧ run.2 > best.2 then run else best

def hex (n : Nat) : List Char := Nat.toDigits 16 n

def render6 (pieces : List Nat) : List Char :=
  let (start, length) := zeroRun pieces
  let text := fun ps => join [':'] (ps.map hex)
  if length = 0 then text pieces
  else text (pieces.take start) ++ [':', ':'] ++ text (pieces.drop (start + length))

end CompilingProxy.Host
