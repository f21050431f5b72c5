import CompilingProxy.Grammar.Recovery

/-!
# Rounds

A text is read in rounds. In each, every branch takes a token, or finds that the token does not fit;
then the branches are weighed against each other. Reading ends when no branch is left, or when none
can become better than what has been read already.
-/

namespace CompilingProxy.Grammar.Reading

/-! ### One branch -/

/-- What came of the actions at a token. -/
inductive Outcome where
  /-- The token has been taken, or the text has been read. -/
  | done
  /-- Phrases were made; the last branch that they stand on, unless it has become part of another.
  -/
  | made (branch : Option Nat)
  /-- There was nothing to do. -/
  | stuck
deriving Inhabited

/-- Follows the actions at a token one after another, up to one that ends the branch's turn. -/
def follow (b state : Nat) (lookahead : Derivation) :
    List Action → Outcome → Reading → Outcome × Reading
  | [], outcome, r => (outcome, r)
  | action :: rest, outcome, r =>
    match action with
    | .shift again =>
      if again then follow b state lookahead rest outcome r
      else
        let target := (r.goto state lookahead.symbol).getD lostState
        (.done, r.push b (some lookahead) target)
    | .skip => (.done, r.push b (some (lookahead.asRemark true)) state)
    | .reduce item =>
      let (made, r) := r.reduce b (r.phrasing item)
      let made := match outcome with
        | .made known => made.or known
        | _ => made
      follow b state lookahead rest (.made made) r
    | .accept => (.done, r.accept b lookahead)
    | .recover => (.done, r.recover b lookahead)

/-- Makes phrases on a branch until the token is taken. A keyword that does not fit is taken for a
name where names fit. -/
def take (b : Nat) : (fuel : Nat) → (lookahead : Derivation) → Reading → Reading
  | 0, _, r => { r with stack := r.stack.halt b }
  | fuel + 1, lookahead, r =>
    let state := r.stack.state b
    match follow b state lookahead (r.actionsAt state lookahead.symbol) .stuck r with
    | (.done, r) => r
    | (.made (some branch), r) =>
      take b fuel lookahead { r with stack := r.stack.renumber branch b }
    | (.made none, r) => { r with stack := r.stack.halt b }
    | (.stuck, r) =>
      let asName := lookahead.summary.isKeyword && lookahead.symbol != 1
      if asName && !(r.actionsAt state 1).isEmpty then take b fuel (lookahead.withSymbol 1) r
      else { r with stack := r.stack.pause b lookahead }

/-- Takes the next token of a branch. -/
def advance (r : Reading) (b : Nat) : Reading :=
  take b (16 * (r.stack.points.size + 64)) (r.token b (r.stack.state b)) r

/-- Takes tokens of a branch until it is past the others; how far the farthest branch is. -/
def advancePast (b : Nat) : (fuel farthest : Nat) → Reading → Nat × Reading
  | 0, farthest, r => (farthest, r)
  | fuel + 1, farthest, r =>
    if !r.stack.isActive b then (farthest, r)
    else
      let r := r.advance b
      let offset := (r.stack.place b).offset
      if farthest < offset || (0 < b && offset == farthest) then (offset, r)
      else advancePast b fuel farthest r

/-- Takes every branch on, those that arise meanwhile included. -/
def advanceAll (steps : Nat) : (fuel b farthest : Nat) → Reading → Nat × Reading
  | 0, _, farthest, r => (farthest, r)
  | fuel + 1, b, farthest, r =>
    if r.stack.count ≤ b then (farthest, r)
    else
      let (farthest, r) := advancePast b steps farthest r
      advanceAll steps fuel (b + 1) farthest r

/-! ### Weighing branches -/

/-- Weighs a branch against those before it, from one of them on. A worse branch is removed or comes
to stand behind, and like branches become one. The answer is the branch to be weighed next. -/
def weighFrom (standing : Standing) : (fuel i j : Nat) → Reading → Nat × Reading
  | 0, i, _, r => (i + 1, r)
  | fuel + 1, i, j, r =>
    if i ≤ j then (i + 1, r)
    else
      let r := r.settle j
      match (r.standing j).prefer standing with
      | .onlyFirst => (i, { r with stack := r.stack.remove i })
      | .first | .none =>
        let (merged, r) := r.merge j i
        if merged then (i, r) else weighFrom standing fuel i (j + 1) r
      | .second =>
        let (merged, r) := r.merge j i
        if merged then (i, r)
        else weighFrom standing fuel i (j + 1) { r with stack := r.stack.swap i j }
      | .onlySecond =>
        weighFrom standing fuel (i - 1) j { r with stack := r.stack.remove j }

/-- The smaller of two costs; none is greater than any. -/
def lesserCost (a : Option Nat) (cost : Nat) : Option Nat :=
  match a with
  | some known => some (min known cost)
  | none => some cost

/-- Weighs all branches against each other; the least cost of those that have not lost their way. -/
def weighAll : (fuel i : Nat) → (least : Option Nat) → Reading → Option Nat × Reading
  | 0, _, least, r => (least, r)
  | fuel + 1, i, least, r =>
    if r.stack.count ≤ i then (least, r)
    else if r.stack.isHalted i then
      weighAll fuel i least { r with stack := r.stack.remove i }
    else
      let r := r.settle i
      let standing := r.standing i
      let least := if standing.isLost then least else lesserCost least standing.cost
      let (next, r) := weighFrom standing (r.stack.count + 1) i 0 r
      weighAll fuel next least r

/-- Goes on with the best branch if its token does not fit, and removes all others of which that is
true. -/
def resumeBest : (fuel i limit : Nat) → (hasActive : Bool) → (least : Option Nat) → Reading →
    Option Nat × Reading
  | 0, _, _, _, least, r => (least, r)
  | fuel + 1, i, limit, hasActive, least, r =>
    if limit ≤ i then (least, r)
    else
      match (r.stack.branch i).status with
      | .paused lookahead =>
        if !hasActive && r.accepted < branchLimit then
          let least := some (r.stack.cost i)
          let r := { r with stack := r.stack.resume i }
          resumeBest fuel (i + 1) limit true least (r.handleFault i lookahead)
        else
          resumeBest fuel i (limit - 1) hasActive least { r with stack := r.stack.remove i }
      | _ => resumeBest fuel (i + 1) limit true least r

/-- Weighs the branches and keeps the best; the least cost of those. -/
def condense (r : Reading) : Option Nat × Reading :=
  let (least, r) := weighAll (4 * r.stack.count + 4) 0 none r
  let r := { r with stack := { r.stack with branches := r.stack.branches.take branchLimit } }
  resumeBest (r.stack.count + 1) 0 r.stack.count false least r

/-! ### The whole text -/

/-- Reads in rounds until nothing better can come. -/
def rounds (steps : Nat) : (fuel farthest : Nat) → Reading → Reading
  | 0, _, r => r
  | fuel + 1, farthest, r =>
    let (farthest, r) := advanceAll steps 64 0 farthest r
    let count := r.stack.count
    let (least, r) := r.condense
    let isBest := match r.finished, least with
      | some d, some least => decide (d.cost < least)
      | some _, none => true
      | none, _ => false
    if isBest || count == 0 then r else rounds steps fuel farthest r

/-- The text as it has been read as a whole. -/
def whole (dialect : Dialect) (text : List Char) : Option Derivation :=
  let steps := 16 * (text.length + 16)
  (rounds steps steps 0 (.begin dialect text)).finished

end CompilingProxy.Grammar.Reading
