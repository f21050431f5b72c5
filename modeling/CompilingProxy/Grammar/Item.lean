import CompilingProxy.Grammar.Production

/-!
# Items

An item is a production of which some symbols have been read. What has been read matters only for
the node to be made, so that items with different beginnings may be one.
-/

namespace CompilingProxy.Grammar

open Std (HashMap)

/-- How one child stands in the node of its parent. -/
structure Slot where
  relabel : Option Label := none
  role : Option Role := none
deriving DecidableEq, Hashable, Repr, Inhabited

structure Item where
  /-- The phrase that is being read. -/
  phrase : Symbol
  /-- How many symbols have been read. -/
  read : Nat
  /-- The symbol to be read next, and the one behind it. -/
  next : Option Symbol
  second : Option Symbol
  /-- The item once the next symbol has been read. -/
  advanced : Nat
  /-- What the rule says about the last symbol read. -/
  strength : Option Strength
  side : Option Side
  weight : Int
  slots : List Slot
  /-- Whether no child has a part or a label of its own, not even inside of groups. -/
  isPlain : Bool
deriving Repr, Inhabited

/-! ### Numbering items -/

/-- What two items must have in common to be one. -/
structure ItemKey where
  phrase : Symbol
  read : Nat
  length : Nat
  weight : Int
  strength : Option Strength
  side : Option Side
  behind : Nat
  ahead : Nat
deriving DecidableEq, Hashable, Inhabited

/-- The items so far, with the rows of steps and slots that tell them apart. -/
structure ItemTable where
  items : Array Item := #[]
  numbers : HashMap ItemKey Nat := {}
  rows : HashMap (Nat × Option Step × Option Slot) Nat := {}

namespace ItemTable

/-- The number of a row: an earlier row and one more entry. -/
def row (t : ItemTable) (entry : Nat × Option Step × Option Slot) : Nat × ItemTable :=
  match t.rows[entry]? with
  | some n => (n, t)
  | none =>
    let n := t.rows.size + 1
    (n, { t with rows := t.rows.insert entry n })

/-- The number of an item, which is the same for equal keys. -/
def number (t : ItemTable) (key : ItemKey) (item : Item) : Nat × ItemTable :=
  match t.numbers[key]? with
  | some n => (n, t)
  | none =>
    let n := t.items.size
    (n, { t with items := t.items.push item, numbers := t.numbers.insert key n })

end ItemTable

def Step.slot (s : Step) : Slot := ⟨s.relabel, s.role⟩

/-- What is known of the steps that have been read: their number, the row that tells them apart, the
last of them and all slots. -/
structure Beginning where
  read : Nat := 0
  row : Nat := 0
  /-- Whether the row holds the steps themselves, since a group with parts is among them. -/
  isExact : Bool := false
  exactRow : Nat := 0
  last : Option Step := none
  slots : List Slot := []
  isPlain : Bool := true

/-- What is known once one more step has been read. -/
def Beginning.push (b : Beginning) (step : Step) (inParts : Bool) (row exactRow : Nat) :
    Beginning :=
  let slot := step.slot
  { read := b.read + 1, row, exactRow, last := some step, slots := b.slots ++ [slot]
    isExact := b.isExact || inParts
    isPlain := b.isPlain && slot == { relabel := none, role := none } && !inParts }

/-- The item before the steps ahead, which form that row. -/
def ItemTable.item (t : ItemTable) (phrase : Symbol) (p : Production) (b : Beginning)
    (steps : List Step) (advanced ahead : Nat) : Nat × ItemTable :=
  let strength := b.last.bind (·.strength)
  let side := b.last.bind (·.side)
  t.number
    { phrase, read := b.read, length := p.steps.length, weight := p.weight, strength, side
      behind := if b.isExact then b.exactRow else b.row, ahead }
    { phrase, read := b.read, next := steps.head?.map (·.symbol)
      second := steps.tail.head?.map (·.symbol), advanced, strength, side, weight := p.weight
      slots := b.slots, isPlain := b.isPlain }

/-- Numbers the items of a production from what has been read on, the last one first; the number of
the first of them, and the row of the steps ahead. -/
def numberItems (hasParts : Symbol → Bool) (phrase : Symbol) (p : Production) :
    Beginning → List Step → ItemTable → Nat × Nat × ItemTable
  | b, [], t =>
    let (n, t) := t.item phrase p b [] 0 0
    (n, 0, t)
  | b, step :: rest, t =>
    let (row, t) := t.row (b.row, none, some step.slot)
    let (exactRow, t) := t.row (b.exactRow, some step, some step.slot)
    let (advanced, ahead, t) := numberItems hasParts phrase p
      (b.push step (hasParts step.symbol) row exactRow) rest t
    let (ahead, t) := t.row (ahead, some step, none)
    let (n, t) := t.item phrase p b (step :: rest) advanced ahead
    (n, ahead, t)

end CompilingProxy.Grammar
