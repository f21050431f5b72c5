import CompilingProxy.Text.Offset

/-!
# Lines and columns

Editors count lines from one and columns, also from one, in UTF-16 units. A position is read off
the characters that stand before an offset.
-/

namespace CompilingProxy

/-- A line and a column, both counted from one; the column in UTF-16 units. -/
structure Position where
  line : Nat
  column : Nat
deriving DecidableEq, Repr, Inhabited

/-- A line counted from zero and the distance in bytes from where it starts. -/
structure Point where
  row : Nat
  column : Nat
deriving DecidableEq, Repr

namespace Text

/-- The UTF-16 units of a character. -/
def units16 (c : Char) : Nat := if c.val < 0x10000 then 1 else 2

/-- How many UTF-16 units the characters take. -/
def width16 : List Char → Nat
  | [] => 0
  | c :: cs => units16 c + width16 cs

/-- The characters that lie whole before the offset. -/
def takeWhole : List Char → Nat → List Char
  | [], _ => []
  | c :: cs, n => if c.utf8Size ≤ n then c :: takeWhole cs (n - c.utf8Size) else []

/-- What stands after the last line break. -/
def lastLine (cs : List Char) : List Char :=
  (cs.reverse.takeWhile (· ≠ '\n')).reverse

def lineBreaks (cs : List Char) : Nat := cs.count '\n'

def lineCount (cs : List Char) : Nat := lineBreaks cs + 1

/-- The position of an offset, moved back to the start of a character it falls inside of and to the
end of the text it falls beyond. -/
def position (text : List Char) (offset : Nat) : Position :=
  let front := takeWhole text offset
  ⟨lineBreaks front + 1, width16 (lastLine front) + 1⟩

/-- The point of an offset, moved back to the end of the text it falls beyond. -/
def point (text : List Char) (offset : Nat) : Point :=
  let offset := min offset (width text)
  let front := takeWhole text offset
  ⟨lineBreaks front, offset - width (front.take (front.length - (lastLine front).length))⟩

end Text

end CompilingProxy
