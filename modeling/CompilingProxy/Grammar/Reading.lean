import CompilingProxy.Grammar.Stack

/-!
# Reading

A `Reading` is a text that has been read so far: the branches, the states that they have reached,
and the derivation of the whole, once there is one. Each step takes one branch on by one token, with
all phrases that are made before it.
-/

namespace CompilingProxy.Grammar

open Std (HashMap)

/-- A grammar with what is looked for in its texts. -/
structure Dialect where
  tables : Tables
  automaton : Automaton
  keywords : HashMap String Symbol
  /-- What is looked for in each state. -/
  wanted : Array (Thunk Wanted)
  /-- The tokens that are looked for where none is known to fit. -/
  anything : Wanted
deriving Inhabited

/-- Tokens that are only looked for where they fit, since others look the same. -/
def isContextual (elements : Bool) : Token → Bool
  | .stringPart _ | .attributePart _ | .regexPattern | .regexFlags | .dashedName => true
  | .word "</" => !elements
  | _ => false

def dialect (elements : Bool) : Dialect :=
  let tables := tables elements
  let automaton := Automaton.ofTables tables
  let numbered := tables.symbols.tokens.toList.zipIdx.drop 1
  let keywords := numbered.filterMap fun (t, s) =>
    match t with
    | .word text => if Lexeme.isKeyword text then some (text, s) else none
    | _ => none
  { tables, automaton, keywords := HashMap.ofList keywords
    wanted := automaton.states.map fun s => Thunk.mk fun _ => .ofSet tables.symbols s.valid
    anything := numbered.foldl (fun w (t, s) => if isContextual elements t then w else w.add t s)
      {} }

structure Reading where
  dialect : Dialect
  source : Source
  stack : Stack := .begin
  finished : Option Derivation := none
  /-- How often the whole text has been derived. -/
  accepted : Nat := 0
deriving Inhabited

namespace Reading

def symbols (r : Reading) : Symbols := r.dialect.tables.symbols

def begin (dialect : Dialect) (text : List Char) : Reading :=
  { dialect, source := .ofList text }

/-- The ways to go on in a state at a token. -/
def actionsAt (r : Reading) (state : Nat) (s : Symbol) : List Action :=
  r.dialect.automaton.actionsAt state s

/-- Where a symbol leads to from a state. -/
def goto (r : Reading) (state : Nat) (s : Symbol) : Option Nat :=
  r.dialect.automaton.goto state s

/-! ### Tokens -/

def leaf (symbol : Symbol) (before start stop : Mark) : Derivation :=
  .mk { symbol, before, start, stop } []

/-- What is looked for in the state. -/
def wantedIn (r : Reading) (state : Nat) : Wanted :=
  (r.dialect.wanted.getD state (Thunk.mk fun _ => {})).get

/-- A name as the keyword that it may be in the state. -/
def asKeyword (r : Reading) (state : Nat) (d : Derivation) : Derivation :=
  if d.symbol != 1 then d
  else
    let text := (r.source.behind d.start).take (d.stop.index - d.start.index)
    match r.dialect.keywords[String.ofList text]? with
    | none => d
    | some s =>
      let fits := state == lostState || !(r.actionsAt state s).isEmpty
      match d with
      | .mk summary parts =>
        .mk { summary with isKeyword := true, symbol := if fits then s else d.symbol } parts

/-- A token found behind a place. -/
def leafOf (r : Reading) (place : Mark) (symbol : Symbol) (skipped length : Nat) : Derivation :=
  let start := place.farther r.source skipped
  leaf symbol place start (start.farther r.source length)

/-- The token at the place where none of those that fit stands. -/
def anyToken (r : Reading) (place : Mark) : Derivation :=
  let cs := r.source.behind place
  match findToken? r.dialect.anything cs with
  | some c => r.leafOf place c.symbol c.skipped c.length
  | none =>
    let start := place.farther r.source (Lexeme.run Lexeme.isSpace cs)
    match r.source.behind start with
    | [] => leaf 0 place start start
    | ahead =>
      leaf fault place start
        (start.farther r.source (strays r.dialect.anything ahead.length 0 ahead))

/-- The next token of a branch in its state. A mark that takes no text counts only once the branch
has been read on behind a fault. -/
def token (r : Reading) (b state : Nat) : Derivation :=
  let place := r.stack.place b
  let cs := r.source.behind place
  if state == lostState then r.asKeyword state (r.anyToken place)
  else
    let w := r.wantedIn state
    let mark := match findMark? w cs with
      | some (t, skipped, length) =>
        if skipped + length == 0 && !r.stack.hasAdvanced b then none
        else some (r.leafOf place (r.symbols.tokenNumbers.getD t 0) skipped length)
      | none => none
    match mark with
    | some d => d
    | none =>
      match findToken? w cs with
      | some c => r.asKeyword state (r.leafOf place c.symbol c.skipped c.length)
      | none => r.asKeyword state (r.anyToken place)

/-! ### Steps -/

def push (r : Reading) (b : Nat) (d : Option Derivation) (state : Nat) : Reading :=
  { r with stack := r.stack.push r.dialect.tables.symbols b d state }

def merge (r : Reading) (a b : Nat) : Bool × Reading :=
  let (merged, stack) := r.stack.merge r.dialect.tables.symbols a b
  (merged, { r with stack })

/-- A phrase that is made of the symbols read last. -/
structure Phrasing where
  symbol : Symbol
  count : Nat
  weight : Int
  slots : List Slot
deriving Inhabited

def phrasing (r : Reading) (item : Nat) : Phrasing :=
  let item := r.dialect.tables.item item
  { symbol := item.phrase, count := item.read, weight := item.weight, slots := item.slots }

/-- How many branches there may be, and how many more for a while. -/
def branchLimit : Nat := 6
def branchSlack : Nat := 4

/-- Of the rows of parts for one node the best, with the remarks behind it. -/
def chooseParts (symbols : Symbols) (p : Phrasing) (place : Mark)
    (best : Derivation × List Derivation) : List Stack.Slice → Derivation × List Derivation
  | [] => best
  | slice :: slices =>
    let (parts, remarks) := Derivation.splitRemarks slice.trail
    let other := Derivation.node symbols p.symbol p.slots place parts
    chooseParts symbols p place (if best.1.isBetter other then (other, remarks) else best) slices

/-- Merges the branch into an earlier one, the one given apart, if one is like it. -/
def mergeEarlier (r : Reading) (b except_ : Nat) : (earlier : List Nat) → Bool × Reading
  | [] => (false, r)
  | a :: rest =>
    if a == except_ then mergeEarlier r b except_ rest
    else
      let (merged, r) := r.merge a b
      if merged then (true, r) else mergeEarlier r b except_ rest

/-- Puts the node in the place of each row of parts that was taken off; `removed` is how many of the
new branches have gone already. -/
def reduceSlices (p : Phrasing) (b halted : Nat) :
    (fuel : Nat) → (slices : List Stack.Slice) → (removed : Nat) → Reading → Reading
  | 0, _, _, r => r
  | _, [], _, r => r
  | fuel + 1, slice :: slices, removed, r =>
    let same := slices.takeWhile (·.branch == slice.branch)
    let rest := slices.drop same.length
    let n := slice.branch - removed
    if n > branchLimit + branchSlack + halted then
      reduceSlices p b halted fuel rest (removed + 1) { r with stack := r.stack.remove n }
    else
      let symbols := r.symbols
      let place := r.stack.place n
      let (parts, remarks) := Derivation.splitRemarks slice.trail
      let first := (Derivation.node symbols p.symbol p.slots place parts, remarks)
      let (d, remarks) := chooseParts symbols p place first same
      let d := match d with
        | .mk summary parts => .mk { summary with weight := summary.weight + p.weight } parts
      let target := (r.goto (r.stack.state n) p.symbol).getD lostState
      let r := r.push n (some d) target
      let r := remarks.foldl (fun r d => r.push n (some d) target) r
      let (merged, r) := r.mergeEarlier n b (List.range n)
      reduceSlices p b halted fuel rest (if merged then removed + 1 else removed) r

/-- Makes a phrase on a branch. It comes to stand on new branches; the number of the first of them,
unless all have become parts of others. -/
def reduce (r : Reading) (b : Nat) (p : Phrasing) : Option Nat × Reading :=
  let before := r.stack.count
  let (slices, stack) := r.stack.pop b p.count
  let halted := (List.range stack.count).countP stack.isHalted
  let r := reduceSlices p b halted slices.size slices.toList 0 { r with stack }
  (if r.stack.count > before then some before else none, r)

/-- Takes the whole text as read: of all derivations the best is kept. -/
def accept (r : Reading) (b : Nat) (lookahead : Derivation) : Reading :=
  let r := r.push b (some (lookahead.asRemark true)) startState
  let (slices, stack) := r.stack.popAll b
  let symbols := r.symbols
  let roots := slices.toList.filterMap fun slice =>
    let (front, last) := Derivation.splitRemarks slice.trail
    match front.getLast? with
    | none => none
    | some d =>
      some (Derivation.node symbols d.symbol d.summary.slots d.start
        (front.dropLast ++ d.parts ++ last))
  let finished := roots.foldl (fun known d =>
    match known with
    | none => some d
    | some k => if k.isBetter d then some d else known) r.finished
  let stack := match slices[0]? with
    | some slice => stack.remove slice.branch
    | none => stack
  { r with finished, accepted := r.accepted + roots.length, stack := stack.halt b }

end Reading

end CompilingProxy.Grammar
