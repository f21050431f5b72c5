import CompilingProxy.Text.Blank
import CompilingProxy.Text.Edit
import CompilingProxy.Text.Position

/-!
# Lines and what is deleted from them

A statement that stands alone on its lines is deleted with them; one that shares a line is deleted
with the blanks behind it. Nothing is deleted outside of given bounds.
-/

namespace CompilingProxy.Layout

open Text

/-- One level of indentation. -/
def unit : String := "    "

def isBlankOfLine (c : Char) : Bool := c == ' ' || c == '\t'

theorem isBlankOfLine_iff {c : Char} : isBlankOfLine c ↔ c = ' ' ∨ c = '\t' := by
  simp [isBlankOfLine]

theorem isBlank_of_isBlankOfLine {c : Char} (hc : isBlankOfLine c) : isBlank c := by
  rcases isBlankOfLine_iff.mp hc with rfl | rfl <;> decide

/-- Where the line of the offset begins. -/
def lineStart (source : List Char) (offset : Nat) : Nat :=
  let front := takeTo source offset
  width (front.take (front.length - (lastLine front).length))

/-- Where the line of the offset ends, behind its break. -/
def lineStop (source : List Char) (offset : Nat) : Nat :=
  let rest := dropTo source offset
  let line := rest.takeWhile (· ≠ '\n')
  offset + width line + (if line.length < rest.length then 1 else 0)

/-- The blanks at the head of the line of the offset. -/
def indentAt (source : List Char) (offset : Nat) : List Char :=
  (lastLine (takeTo source offset)).takeWhile isBlankOfLine

/-- Moves past blanks, but not out of the bounds. -/
def skipBlanks (source : List Char) (bounds : Range) (offset : Nat) : Nat :=
  let rest := slice source offset (max bounds.stop offset)
  offset + (rest.takeWhile isBlankOfLine).length

/-- What is deleted with a range: its lines if it stands alone on them, else the blanks behind. -/
def removalRange (source : List Char) (bounds r : Range) : Range :=
  let start := max (lineStart source r.start) bounds.start
  let stop := min (lineStop source r.stop) bounds.stop
  let blank (a b : Nat) : Bool := (slice source a b).all isBlank
  if blank start r.start && blank r.stop stop then ⟨start, stop⟩
  else ⟨r.start, skipBlanks source bounds r.stop⟩

/-- Deletes a range with the blanks behind it. -/
def deleteWithBlanks (source : List Char) (bounds r : Range) : TextEdit :=
  .delete r.start (skipBlanks source bounds r.stop)

/-- The text of a span after edits of it. It fails if an end of the span stands inside a character,
or if one of the edits begins in front of it. -/
def edited (source : List Char) (span : Range) (edits : List TextEdit) :
    Except EditError (List Char) :=
  let moved (n : Nat) : Nat := n - span.start
  match edits.find? (·.range.start < span.start), slice? source span.start span.stop with
  | some e, _ => .error (.unreadable e.range)
  | none, none => .error (.unreadable span)
  | none, some text =>
    let edits := edits.map fun e =>
      TextEdit.replace (moved e.range.start) (moved e.range.stop) e.replacement
    (applyEdits text edits).map (·.1)

end CompilingProxy.Layout
