/-!
# Instants and the calendar

An instant is a count of seconds since the start of 1970 and of nanoseconds beyond them; a second
that a leap second is drawn out of has up to twice as many. The calendar is the Gregorian one in
both directions.
-/

namespace CompilingProxy

structure Instant where
  seconds : Int
  nanoseconds : Nat
deriving DecidableEq, Repr, Inhabited

namespace Instant

/-- Whether the first instant is not after the second. -/
def le (a b : Instant) : Bool :=
  a.seconds < b.seconds || (a.seconds == b.seconds && a.nanoseconds ≤ b.nanoseconds)

def compare (a b : Instant) : Ordering :=
  match Ord.compare a.seconds b.seconds with
  | .eq => Ord.compare a.nanoseconds b.nanoseconds
  | o => o

section

variable {i j : Instant}

theorem le_iff :
    i.le j ↔ i.seconds < j.seconds ∨ i.seconds = j.seconds ∧ i.nanoseconds ≤ j.nanoseconds := by
  simp [le]

theorem le_refl (i : Instant) : i.le i := le_iff.mpr (.inr ⟨rfl, Nat.le_refl _⟩)

theorem le_antisymm (hij : i.le j) (hji : j.le i) : i = j := by
  rw [le_iff] at hij hji
  obtain ⟨seconds, nanoseconds⟩ := i
  obtain ⟨seconds', nanoseconds'⟩ := j
  simp only [mk.injEq]
  dsimp only at hij hji
  omega

end

end Instant

namespace Calendar

def isLeapYear (year : Int) : Bool :=
  (year % 4 == 0 && year % 100 != 0) || year % 400 == 0

def daysInMonth (year : Int) (month : Nat) : Nat :=
  match month with
  | 2 => if isLeapYear year then 29 else 28
  | 4 | 6 | 9 | 11 => 30
  | _ => 31

/-- The days from the start of 1970 to a date, with years that begin in March. -/
def dayNumber (year : Int) (month day : Nat) : Int :=
  let y := if month ≤ 2 then year - 1 else year
  let era := y.fdiv 400
  let yearOfEra := y - era * 400
  let monthFromMarch : Nat := (month + 9) % 12
  let dayOfYear : Int := ((153 * monthFromMarch + 2) / 5 + day - 1 : Nat)
  let dayOfEra := yearOfEra * 365 + yearOfEra / 4 - yearOfEra / 100 + dayOfYear
  era * 146097 + dayOfEra - 719468

/-- The year, month and day of a day number. -/
def date (days : Int) : Int × Nat × Nat :=
  let z := days + 719468
  let era := z.fdiv 146097
  let dayOfEra := z - era * 146097
  let yearOfEra := (dayOfEra - dayOfEra / 1460 + dayOfEra / 36524 - dayOfEra / 146096) / 365
  let dayOfYear := dayOfEra - (365 * yearOfEra + yearOfEra / 4 - yearOfEra / 100)
  let monthFromMarch := (5 * dayOfYear + 2) / 153
  let day := dayOfYear - (153 * monthFromMarch + 2) / 5 + 1
  let month := if monthFromMarch < 10 then monthFromMarch + 3 else monthFromMarch - 9
  let year := yearOfEra + era * 400 + (if month ≤ 2 then 1 else 0)
  (year, month.toNat, day.toNat)

/-- The day of the week of a day number, counted from Monday. -/
def weekday (days : Int) : Nat := ((days + 3) % 7).toNat

def weekdayNames : List String := ["Mon", "Tue", "Wed", "Thu", "Fri", "Sat", "Sun"]

def monthNames : List String :=
  ["Jan", "Feb", "Mar", "Apr", "May", "Jun", "Jul", "Aug", "Sep", "Oct", "Nov", "Dec"]

/-- A date and a time of day as they were read; the offset is in seconds east. -/
structure Reading where
  year : Int
  month : Nat
  day : Nat
  hour : Nat
  minute : Nat
  second : Nat
  nanoseconds : Nat
  offset : Int
  weekday : Option Nat
deriving Repr

/-- The last year that the calendar goes to. The first one is as far back and one year more. -/
def lastYear : Int := 262142

/-- Whether an instant is within the years of the calendar. -/
def covers (seconds : Int) : Bool :=
  dayNumber (-lastYear - 1) 1 1 * 86400 ≤ seconds && seconds < dayNumber (lastYear + 1) 1 1 * 86400

/-- The instant that was read; none if there is no such date, time or offset, if it is not on the
day of the week that was read with it, or if the calendar does not go as far. A sixtieth second is a
leap second. -/
def Reading.instant? (r : Reading) : Option Instant :=
  let days := dayNumber r.year r.month r.day
  let dateExists := 1 ≤ r.month && r.month ≤ 12 && 1 ≤ r.day && r.day ≤ daysInMonth r.year r.month
  let timeExists := r.hour < 24 && r.minute < 60 && r.second ≤ 60
  let rightDay := match r.weekday with
    | some w => w == Calendar.weekday days
    | none => true
  if dateExists && timeExists && rightDay && r.offset.natAbs < 86400 then
    let leap := r.second = 60
    let second := if leap then 59 else r.second
    let nanoseconds := if leap then r.nanoseconds + 1000000000 else r.nanoseconds
    let here := days * 86400 + (r.hour * 3600 + r.minute * 60 + second : Nat)
    if covers here && covers (here - r.offset) then some ⟨here - r.offset, nanoseconds⟩ else none
  else none

def padded (width n : Nat) : String :=
  let digits := toString n
  String.ofList (List.replicate (width - digits.length) '0') ++ digits

def yearText (year : Int) : String :=
  if 0 ≤ year ∧ year ≤ 9999 then padded 4 year.toNat
  else (if year < 0 then "-" else "+") ++ padded 4 year.natAbs

/-- The parts of an instant: day number, hour, minute, second and nanoseconds. -/
def parts (i : Instant) : Int × Nat × Nat × Nat × Nat :=
  let days := i.seconds.fdiv 86400
  let rest := (i.seconds - days * 86400).toNat
  let (second, nanoseconds) :=
    if i.nanoseconds ≥ 1000000000 then (rest % 60 + 1, i.nanoseconds - 1000000000)
    else (rest % 60, i.nanoseconds)
  (days, rest / 3600, rest / 60 % 60, second, nanoseconds)

end Calendar

namespace Instant

open Calendar

/-- The time of day, `07:28:00`. -/
def clockText (hour minute second : Nat) : String :=
  s!"{padded 2 hour}:{padded 2 minute}:{padded 2 second}"

/-- The form of dates in headers, `Wed, 21 Oct 2015 07:28:00 GMT`. -/
def headerText (i : Instant) : String :=
  let (days, hour, minute, second, _) := parts i
  let (year, month, day) := date days
  let name := weekdayNames.getD (weekday days) ""
  let monthName := monthNames.getD (month - 1) ""
  s!"{name}, {padded 2 day} {monthName} {yearText year} {clockText hour minute second} GMT"

/-- The fewest groups of three digits that hold the nanoseconds. -/
def fraction (nanoseconds : Nat) : String :=
  if nanoseconds = 0 then ""
  else if nanoseconds % 1000000 = 0 then "." ++ padded 3 (nanoseconds / 1000000)
  else if nanoseconds % 1000 = 0 then "." ++ padded 6 (nanoseconds / 1000)
  else "." ++ padded 9 nanoseconds

/-- The form of dates in documents, `2015-10-21T07:28:00Z`. -/
def documentText (i : Instant) : String :=
  let (days, hour, minute, second, nanoseconds) := parts i
  let (year, month, day) := date days
  s!"{yearText year}-{padded 2 month}-{padded 2 day}T{clockText hour minute second}" ++
    fraction nanoseconds ++ "Z"

end Instant

end CompilingProxy
