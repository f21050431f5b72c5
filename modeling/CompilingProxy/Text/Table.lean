import CompilingProxy.Text.Split
import Std.Data.HashMap

/-!
# Tables of characters

What is known of characters is kept as text: code points in hexadecimal between blanks, and a range
as its ends with a dash between.
-/

namespace CompilingProxy.Text.Table

open Std (HashMap)

/-- The value of a hexadecimal digit. -/
def digitValue (c : Char) : Nat := if c.isDigit then c.toNat - 48 else c.toNat - 87

/-- The number that small hexadecimal digits stand for. -/
def number (digits : List Char) : Nat := digits.foldl (fun n c => n * 16 + digitValue c) 0

/-- The words between blanks and ends of lines. -/
def words (cs : List Char) : List (List Char) :=
  (splitOnChar ' ' (cs.map fun c => if c = '\n' then ' ' else c)).filter (!·.isEmpty)

/-- Code points from the first up to the last. -/
structure Interval where
  first : Nat
  last : Nat
deriving DecidableEq, Repr

namespace Interval

def ofWord (word : List Char) : Interval :=
  match cutFirst? '-' word with
  | some (first, last) => ⟨number first, number last⟩
  | none => ⟨number word, number word⟩

def holds (i : Interval) (n : Nat) : Bool := i.first ≤ n && n ≤ i.last

end Interval

/-- The ranges that a text lists. -/
def intervals (text : String) : List Interval := (words text.toList).map .ofWord

/-- Whether one of the ranges holds the character. -/
def holds (table : List Interval) (c : Char) : Bool := table.any (·.holds c.toNat)

/-- What the characters of an entry stand for. Behind a range, or every so many-th character of it,
stands what the first one stands for, and all others are as far from that; behind a single
character, what it and each one after it stands for. -/
def rows : List (List Char) → List (Nat × List Nat)
  | [] => []
  | source :: targets =>
    match cutFirst? '-' source with
    | some (first, last) =>
      let first := number first
      let (last, step) := match cutFirst? '/' last with
        | some (last, step) => (number last, number step)
        | none => (number last, 1)
      let target := number (targets.headD [])
      (List.range ((last - first) / step + 1)).map fun i =>
        (first + i * step, [target + i * step])
    | none =>
      targets.zipIdx.map fun (target, i) =>
        (number source + i, (splitOnChar '+' target).map number)

/-- What each character stands for; the entries are between semicolons. -/
def mapping (text : String) : HashMap Nat (List Nat) :=
  (splitOnChar ';' text.toList).foldl
    (fun table entry =>
      (rows (words entry)).foldl (fun table (n, ns) => table.insert n ns) table) {}

end CompilingProxy.Text.Table
