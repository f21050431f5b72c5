import CompilingProxy.Grammar.Scan
import CompilingProxy.Grammar.Node

/-!
# Derivations

A derivation says how text was made into phrases, groups and repetitions included. It has a cost,
which is zero unless something in it does not fit, and a weight; of two derivations of one text the
cheaper is taken, then the heavier, and then the one whose symbols have the smaller numbers.
-/

namespace CompilingProxy.Grammar

/-- The symbol of text that does not fit. -/
def fault : Symbol := 65535

/-- The symbol of a part of such text. -/
def faultPart : Symbol := 65534

/-- What is known of a derivation as a whole. -/
structure Summary where
  symbol : Symbol
  /-- Where the space before the text begins, and the text itself. -/
  before : Mark
  start : Mark
  stop : Mark
  /-- How each child stands in the node, remarks apart. -/
  slots : List Slot := []
  /-- Whether it may stand between any two others. -/
  isRemark : Bool := false
  /-- Whether it was put in where the text lacks it. -/
  isMissing : Bool := false
  /-- Whether the token is a word that could be a keyword. -/
  isKeyword : Bool := false
  cost : Nat := 0
  weight : Int := 0
  /-- How many nodes it has directly, groups looked into, and how many in all. -/
  children : Nat := 0
  descendants : Nat := 0
deriving Inhabited

inductive Derivation where
  | mk (summary : Summary) (parts : List Derivation)
deriving Inhabited

/-! ### Costs -/

/-- What it costs to lose one's way. -/
def faultCost : Nat := 500

/-- What it costs to put in a token. -/
def missingCost : Nat := 110

/-- What each node costs that does not fit. -/
def nodeCost : Nat := 100

/-- What each line's end costs in text that does not fit; each byte costs one. -/
def lineCost : Nat := 30

namespace Derivation

def summary : Derivation → Summary
  | mk s _ => s

def parts : Derivation → List Derivation
  | mk _ ps => ps

def symbol (d : Derivation) : Symbol := d.summary.symbol
def before (d : Derivation) : Mark := d.summary.before
def start (d : Derivation) : Mark := d.summary.start
def stop (d : Derivation) : Mark := d.summary.stop
def isRemark (d : Derivation) : Bool := d.summary.isRemark
def cost (d : Derivation) : Nat := d.summary.cost
def weight (d : Derivation) : Int := d.summary.weight
def isFault (d : Derivation) : Bool := d.symbol == fault
def isLeaf (d : Derivation) : Bool := d.parts.isEmpty

/-- How many bytes it takes with the space before it. -/
def width (d : Derivation) : Nat := d.stop.offset - d.before.offset

def asRemark (isRemark : Bool) : Derivation → Derivation
  | mk s ps => mk { s with isRemark } ps

def withSymbol (symbol : Symbol) : Derivation → Derivation
  | mk s ps => mk { s with symbol } ps

end Derivation

namespace Symbols

/-- What a node of the symbol is labelled with. -/
def label? (symbols : Symbols) (s : Symbol) : Option Label :=
  if s == fault then some (.kind .error) else symbols.labels.getD s none

end Symbols

namespace Derivation

/-- Whether it has a node of its own, unless it is relabelled. -/
def isVisible (symbols : Symbols) (d : Derivation) : Bool := (symbols.label? d.symbol).isSome

/-- What the parts add up to. -/
structure Sum where
  cost : Nat := 0
  weight : Int := 0
  children : Nat := 0
  descendants : Nat := 0

/-- Adds up the parts of a node; `slots` says how they stand in it. In a fault every node costs. -/
def addUp (symbols : Symbols) (inFault : Bool) : (slots : List Slot) → List Derivation → Sum → Sum
  | _, [], sum => sum
  | slots, d :: ds, sum =>
    let relabelled := !d.isRemark && d.symbol != 0 && (slots.head?.any (·.relabel.isSome))
    let visible := d.isVisible symbols
    let cost := if d.symbol == faultPart then 0 else d.cost
    let extra :=
      if !inFault || d.isRemark || (d.isFault && d.isLeaf) then 0
      else if visible then nodeCost
      else if d.isLeaf then 0
      else nodeCost * d.summary.children
    let counted := relabelled || visible
    addUp symbols inFault (if d.isRemark then slots else slots.tail) ds
      { cost := sum.cost + cost + extra
        weight := sum.weight + d.weight
        children := sum.children +
          (if counted then 1 else if d.isLeaf then 0 else d.summary.children)
        descendants := sum.descendants + d.summary.descendants + (if counted then 1 else 0) }

/-- The derivation of a phrase from its parts; one without parts stands at the place given. -/
def node (symbols : Symbols) (symbol : Symbol) (slots : List Slot) (place : Mark)
    (parts : List Derivation) : Derivation :=
  let inFault := symbol == fault || symbol == faultPart
  let sum := addUp symbols inFault slots parts {}
  let before := (parts.head?.map (·.before)).getD place
  let start := (parts.head?.map (·.start)).getD place
  let stop := (parts.getLast?.map (·.stop)).getD place
  let own :=
    if inFault then faultCost + (stop.offset - start.offset) + lineCost * (stop.row - start.row)
    else 0
  mk
    { symbol, before, start, stop, slots, cost := sum.cost + own, weight := sum.weight
      children := sum.children, descendants := sum.descendants } parts

/-- A fault made of these parts. -/
def faultOf (symbols : Symbols) (isRemark : Bool) (place : Mark) (parts : List Derivation) :
    Derivation :=
  (node symbols fault [] place parts).asRemark isRemark

/-- How far it has been read, counted in nodes. -/
def progress (symbols : Symbols) (d : Derivation) : Nat :=
  d.summary.descendants + (if d.isVisible symbols then 1 else 0) +
    (if d.symbol == faultPart then 1 else 0)

/-- A token that is put in at a place. -/
def missing (symbol : Symbol) (place : Mark) : Derivation :=
  mk
    { symbol, before := place, start := place, stop := place, isMissing := true
      cost := missingCost + faultCost } []

/-! ### Which of two -/

/-- Compares two derivations by their symbols and the numbers of their parts, from the root on. The
pairs left to compare are the last first. -/
def compareAll : (fuel : Nat) → List (Derivation × Derivation) → Ordering
  | 0, _ => .eq
  | _, [] => .eq
  | fuel + 1, (a, b) :: rest =>
    let here := (compare a.symbol b.symbol).then (compare a.parts.length b.parts.length)
    if here != .eq then here else compareAll fuel (a.parts.zip b.parts ++ rest)

/-- Enough steps to compare any two derivations. -/
def compareFuel : Nat := 1000000000

/-- Whether the second of two derivations of one text is to be taken. -/
def isBetter (a b : Derivation) : Bool :=
  if b.cost < a.cost then true
  else if a.cost < b.cost then false
  else if a.weight < b.weight then true
  else if b.weight < a.weight then false
  else if a.cost > 0 then true
  else compareAll compareFuel [(a, b)] == .gt

/-- Whether two derivations can stand for each other on one way to the same state. -/
def isLike (a b : Derivation) : Bool :=
  a.symbol == b.symbol &&
    ((a.cost > 0 && b.cost > 0) ||
      (a.start.offset - a.before.offset == b.start.offset - b.before.offset &&
        a.stop.offset - a.start.offset == b.stop.offset - b.start.offset &&
        a.parts.length == b.parts.length && a.isRemark == b.isRemark))

/-- The parts without the remarks at the end, and those remarks. -/
def splitRemarks (parts : List Derivation) : List Derivation × List Derivation :=
  let last := (parts.reverse.takeWhile isRemark).reverse
  (parts.take (parts.length - last.length), last)

/-! ### Nodes -/

/-- Gives the first of the nodes that play a part it. -/
def assignRole (role : Role) : List Node → List Node
  | [] => []
  | n :: ns => { n with role := some role } :: ns

mutual

/-- The nodes of a derivation, in front of others: one of its own, or those of its parts. -/
def nodes (symbols : Symbols) (slot : Slot) (d : Derivation) (behind : List Node) : List Node :=
  match d with
  | mk s parts =>
    match slot.relabel.or (symbols.label? s.symbol) with
    | some label =>
      { label, role := slot.role, start := s.start.offset, stop := s.stop.offset
        missing := s.isMissing, children := nodesOfAll symbols s.slots parts [] } :: behind
    | none =>
      match slot.role with
      | none => nodesOfAll symbols s.slots parts behind
      | some role => assignRole role (nodesOfAll symbols s.slots parts []) ++ behind

/-- The nodes of derivations one behind the other. -/
def nodesOfAll (symbols : Symbols) (slots : List Slot) (ds : List Derivation)
    (behind : List Node) : List Node :=
  match ds with
  | [] => behind
  | d :: ds =>
    if d.isRemark then
      nodes symbols ⟨none, none⟩ d (nodesOfAll symbols slots ds behind)
    else
      nodes symbols (slots.headD ⟨none, none⟩) d (nodesOfAll symbols slots.tail ds behind)

end

/-- The node of a whole text. -/
def toNode (symbols : Symbols) (d : Derivation) : Node :=
  ((nodes symbols ⟨none, none⟩ d []).head?).getD
    { label := .kind .error, start := d.start.offset, stop := d.stop.offset }

end Derivation

end CompilingProxy.Grammar
