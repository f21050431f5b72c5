import CompilingProxy.Text.Offset

/-!
# Text edits and the offsets they move

Editing a module replaces byte ranges of its text. `applyEdits` performs the replacements in
order of their ranges and leaves an `OffsetMap`, through which a position in the new text is
reported against the text that the author wrote.
-/

namespace CompilingProxy

/-- The bytes from `start` up to, but not including, `stop`. -/
structure Range where
  start : Nat
  stop : Nat
deriving DecidableEq, Repr, Inhabited

def Range.length (r : Range) : Nat := r.stop - r.start

/-- Replaces the text of a range. -/
structure TextEdit where
  range : Range
  replacement : String
deriving DecidableEq, Repr

namespace TextEdit

def replace (start stop : Nat) (replacement : String) : TextEdit := ⟨⟨start, stop⟩, replacement⟩

def delete (start stop : Nat) : TextEdit := replace start stop ""

def insert (offset : Nat) (text : String) : TextEdit := replace offset offset text

/-- Edits are performed by where they begin, then by where they end. -/
def precedes (a b : TextEdit) : Bool :=
  a.range.start < b.range.start ||
    (a.range.start == b.range.start && a.range.stop ≤ b.range.stop)

end TextEdit

/-- Why a list of edits cannot be performed. -/
inductive EditError where
  | outOfBounds (range : Range) (size : Nat)
  | splitsCharacter (range : Range)
  | overlaps (range : Range) (previousStop : Nat)
  /-- There is no text of that range to be edited. -/
  | unreadable (range : Range)
deriving DecidableEq, Repr

def EditError.message : EditError → String
  | .outOfBounds r size => s!"range {r.start}..{r.stop} out of bounds for {size} bytes"
  | .splitsCharacter r => s!"range {r.start}..{r.stop} splits a character"
  | .overlaps r previous =>
    s!"range {r.start}..{r.stop} overlaps a previous edit ending at {previous}"
  | .unreadable r => s!"range {r.start}..{r.stop} is no text"

/-- Where a replaced range stood and where its replacement stands. -/
structure Replacement where
  source : Range
  generated : Range
deriving DecidableEq, Repr

/-- The replacements made in a text, in the order of their ranges. -/
structure OffsetMap where
  replacements : List Replacement
deriving DecidableEq, Repr, Inhabited

namespace OffsetMap

def identity : OffsetMap := ⟨[]⟩

def isIdentity (m : OffsetMap) : Bool := m.replacements.isEmpty

def size (m : OffsetMap) : Nat := m.replacements.length

/-- Carries an offset across the last replacement that begins at or before it: inside the range it
keeps its distance from the start, clamped to the other range, and past it the distance from the
end. -/
def carry (source target : Replacement → Range) (m : OffsetMap) (offset : Nat) : Nat :=
  match (m.replacements.takeWhile fun r => (source r).start ≤ offset).getLast? with
  | none => offset
  | some r =>
    if offset < (source r).stop then
      (target r).start + min (offset - (source r).start) (target r).length
    else (target r).stop + (offset - (source r).stop)

/-- Where an offset of the new text stood in the old one. -/
def sourceOffset (m : OffsetMap) (generated : Nat) : Nat :=
  m.carry Replacement.generated Replacement.source generated

/-- Where an offset of the old text stands in the new one. -/
def generatedOffset (m : OffsetMap) (source : Nat) : Nat :=
  m.carry Replacement.source Replacement.generated source

end OffsetMap

/-- Checks edits that are already in order, the first of which may not begin before `floor`. -/
def checkOrdered (text : List Char) : (floor : Nat) → List TextEdit → Except EditError Unit
  | _, [] => .ok ()
  | floor, e :: es =>
    if e.range.stop < e.range.start || Text.width text < e.range.stop then
      .error (.outOfBounds e.range (Text.width text))
    else if !Text.isBoundary text e.range.start || !Text.isBoundary text e.range.stop then
      .error (.splitsCharacter e.range)
    else if e.range.start < floor then .error (.overlaps e.range floor)
    else checkOrdered text e.range.stop es

/-- Puts edits in order and refuses them unless every range lies in the text, between characters,
and clear of the range before it. -/
def orderEdits (text : List Char) (edits : List TextEdit) : Except EditError (List TextEdit) := do
  let ordered := edits.mergeSort TextEdit.precedes
  checkOrdered text 0 ordered
  return ordered

/-- Performs ordered edits on what stands from `cursor` on; `written` bytes are already out. -/
def splice (rest : List Char) (cursor written : Nat) :
    List TextEdit → List Char × List Replacement
  | [] => (rest, [])
  | e :: es =>
    let kept := Text.takeTo rest (e.range.start - cursor)
    let start := written + Text.width kept
    let stop := start + e.replacement.utf8ByteSize
    let (out, replacements) :=
      splice (Text.dropTo rest (e.range.stop - cursor)) e.range.stop stop es
    (kept ++ e.replacement.toList ++ out, ⟨e.range, ⟨start, stop⟩⟩ :: replacements)

/-- The text after the edits, and where everything went. -/
def applyEdits (text : List Char) (edits : List TextEdit) :
    Except EditError (List Char × OffsetMap) := do
  let ordered ← orderEdits text edits
  let (out, replacements) := splice text 0 0 ordered
  return (out, ⟨replacements⟩)

end CompilingProxy
