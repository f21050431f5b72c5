import CompilingProxy.Text.Blank
import CompilingProxy.Text.Split
import CompilingProxy.Time.Instant

/-!
# Reading dates

Headers carry dates in the form of mail, `Wed, 21 Oct 2015 07:28:00 GMT`, where the day of the week
may be left out and a zone may be named; documents carry them as `2015-10-21T07:28:00Z`.
-/

namespace CompilingProxy

open Text Calendar

/-- Reads something off the front of text. -/
abbrev DateReader := StateT (List Char) Option

namespace DateReader

def blanks : DateReader Unit := modify (·.dropWhile isBlank)

/-- At least one blank. -/
def gap : DateReader Unit := do
  let cs ← get
  match cs with
  | c :: _ => if isBlank c then blanks else failure
  | [] => failure

def mark (c : Char) : DateReader Unit := do
  match (← get) with
  | d :: rest => if c = d then set rest else failure
  | [] => failure

/-- Between `least` and `most` digits. -/
def digits (least most : Nat) : DateReader (Nat × Nat) := do
  let cs ← get
  let read := (cs.take most).takeWhile Char.isDigit
  if read.length < least then failure
  set (cs.drop read.length)
  return (read.foldl (fun n c => n * 10 + (c.toNat - 48)) 0, read.length)

def number (least most : Nat) : DateReader Nat := return (← digits least most).1

/-- The place of the name that comes next in a list of names of three letters. -/
def name (names : List String) : DateReader Nat := do
  let cs ← get
  let word := String.ofList (lowerAscii (cs.take 3))
  match names.findIdx? fun n => String.ofList (lowerAscii n.toList) = word with
  | some i => set (cs.drop 3); return i
  | none => failure

/-- Two digits of hours and two of minutes after a sign, as seconds east. -/
def offset (signs : List (Char × Int)) (between : DateReader Unit) : DateReader Int := do
  match (← get) with
  | c :: rest =>
    match signs.lookup c with
    | some sign =>
      set rest
      let hours ← number 2 2
      between
      let minutes ← number 2 2
      if minutes ≥ 60 then failure
      return sign * (hours * 3600 + minutes * 60 : Nat)
    | none => failure
  | [] => failure

/-- The zones of North America by name, in hours east. -/
def zones : List (String × Int) :=
  [("gmt", 0), ("ut", 0), ("edt", -4), ("est", -5), ("cdt", -5), ("cst", -6), ("mdt", -6),
    ("mst", -7), ("pdt", -7), ("pst", -8)]

/-- A zone by its name or its offset; a single letter other than `J` says nothing about it. -/
def zone : DateReader Int := do
  let cs ← get
  let word := lowerAscii (cs.takeWhile Char.isAlpha)
  if word.isEmpty then offset [('+', 1), ('-', -1)] (pure ())
  else
    set (cs.dropWhile Char.isAlpha)
    match zones.lookup (String.ofList word) with
    | some hours => return hours * 3600
    | none => if word.length = 1 ∧ word ≠ ['j'] then return 0 else failure

/-- What stands after a comment whose first bracket is gone; brackets nest, and a backslash takes
the next character's meaning away. -/
def afterComment : (depth : Nat) → List Char → Option (List Char)
  | _, [] => none
  | _, '\\' :: [] => none
  | depth, '\\' :: _ :: cs => afterComment depth cs
  | depth, '(' :: cs => afterComment (depth + 1) cs
  | depth, ')' :: cs => if depth ≤ 1 then some cs else afterComment (depth - 1) cs
  | depth, _ :: cs => afterComment depth cs

/-- Comments at the end. -/
def comments : (fuel : Nat) → DateReader Unit
  | 0 => pure ()
  | fuel + 1 => do
    match (← get).dropWhile isBlank with
    | '(' :: rest =>
      match afterComment 1 rest with
      | some rest => set rest; comments fuel
      | none => pure ()
    | _ => pure ()

/-- The century that a short year belongs to. -/
def fullYear (year length : Nat) : Nat :=
  if length = 2 then if year ≤ 49 then year + 2000 else year + 1900
  else if length = 3 then year + 1900
  else year

/-- A day of the week before a comma, if there is one; a name without its comma is refused. -/
def dayOfWeek : DateReader (Option Nat) := fun cs =>
  match (name weekdayNames).run cs with
  | some (i, ',' :: rest) => some (some i, rest)
  | some _ => none
  | none => some (none, cs)

def seconds : DateReader Nat := do
  match (← get).dropWhile isBlank with
  | ':' :: rest => set rest; number 2 2
  | _ => return 0

/-- A date in the form of mail. -/
def mailDate : DateReader Reading := do
  blanks
  let weekday ← dayOfWeek
  blanks
  let day ← number 1 2
  gap
  let month ← name monthNames
  gap
  let cs ← get
  let (year, length) ← digits 2 cs.length
  gap
  let hour ← number 2 2
  blanks
  mark ':'
  blanks
  let minute ← number 2 2
  let second ← seconds
  gap
  let offset ← zone
  comments (← get).length
  return ⟨fullYear year length, month + 1, day, hour, minute, second, 0, offset, weekday⟩

/-- A year with an optional sign. -/
def signedYear : DateReader Int := do
  blanks
  match (← get) with
  | '-' :: rest => set rest; return -((← number 1 rest.length) : Int)
  | '+' :: rest => set rest; return ((← number 1 rest.length) : Int)
  | _ => return ((← number 1 4) : Int)

/-- Digits after a point as nanoseconds; those beyond the ninth are dropped. -/
def nanoseconds : DateReader Nat := do
  match (← get) with
  | '.' :: rest =>
    set rest
    let (n, length) ← digits 1 9
    modify (·.dropWhile Char.isDigit)
    return n * Nat.pow 10 (9 - length)
  | _ => return 0

def documentZone : DateReader Int := do
  match (← get) with
  | 'Z' :: rest => set rest; return 0
  | 'z' :: rest => set rest; return 0
  | cs =>
    if lowerAscii (cs.take 3) = ['u', 't', 'c'] then
      set (cs.drop 3)
      return 0
    else
      offset [('+', 1), ('-', -1), ('\u2212', -1)]
        (modify fun cs => cs.dropWhile fun c => c = ':' || isBlank c)

/-- A date in the form of documents. -/
def documentDate : DateReader Reading := do
  let year ← signedYear
  blanks
  mark '-'
  blanks
  let month ← number 1 2
  blanks
  mark '-'
  blanks
  let day ← number 1 2
  match (← get) with
  | 'T' :: rest | 't' :: rest | ' ' :: rest => set rest
  | _ => failure
  blanks
  let hour ← number 1 2
  blanks
  mark ':'
  blanks
  let minute ← number 1 2
  blanks
  mark ':'
  blanks
  let second ← number 1 2
  let nanoseconds ← nanoseconds
  blanks
  let offset ← documentZone
  blanks
  return ⟨year, month, day, hour, minute, second, nanoseconds, offset, none⟩

end DateReader

namespace Instant

/-- Reads a date with nothing after it. -/
def readWhole (reader : DateReader Reading) (cs : List Char) : Option Instant :=
  match reader.run cs with
  | some (r, []) => r.instant?
  | _ => none

/-- The instant that the date in a header means; none for text that is no date. -/
def ofHeader? (value : String) : Option Instant :=
  readWhole DateReader.mailDate (trim value.toList)

/-- The instant that the date in a document means. -/
def ofDocument? (value : String) : Option Instant :=
  readWhole DateReader.documentDate value.toList

end Instant

end CompilingProxy
