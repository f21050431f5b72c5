import CompilingProxy.Grammar.Reading

/-!
# Recovery

What happens at a token that does not fit. A token may be missing before it; or what stands on top
of the stack is given up down to a state in which the token fits; or the token itself is given up.
All of these are followed as long as none is clearly worse than another.
-/

namespace CompilingProxy.Grammar

/-! ### Which branch is better -/

/-- How good a branch is. -/
structure Standing where
  cost : Nat
  isLost : Bool
  /-- How far it has been read since something did not fit. -/
  progress : Nat
  weight : Int
deriving Inhabited

/-- Which of two branches is better, and whether so clearly that the other is given up. -/
inductive Preference where
  | onlyFirst
  | first
  | none
  | second
  | onlySecond
deriving DecidableEq, Inhabited

/-- A difference in cost, multiplied by how far the better branch has been read, that is decisive.
-/
def decisiveCost : Nat := 18 * nodeCost

def Standing.prefer (a b : Standing) : Preference :=
  if !a.isLost && b.isLost then if a.cost < b.cost then .onlyFirst else .first
  else if a.isLost && !b.isLost then if b.cost < a.cost then .onlySecond else .second
  else if a.cost < b.cost then
    if (b.cost - a.cost) * (1 + a.progress) > decisiveCost then .onlyFirst else .first
  else if b.cost < a.cost then
    if (a.cost - b.cost) * (1 + b.progress) > decisiveCost then .onlySecond else .second
  else if b.weight < a.weight then .first
  else if a.weight < b.weight then .second
  else .none

namespace Reading

def standing (r : Reading) (b : Nat) : Standing :=
  let isPaused := r.stack.isPaused b
  { cost := r.stack.cost b + if isPaused then nodeCost else 0
    isLost := isPaused || r.stack.state b == lostState
    progress := r.stack.progressSince b
    weight := (r.stack.top b).weight }

def settle (r : Reading) (b : Nat) : Reading := { r with stack := r.stack.settle b }

/-- Whether the branch would be worse than another one at that cost. -/
def isBeaten (r : Reading) (b cost : Nat) : Bool :=
  r.finished.any (·.cost ≤ cost) ||
    (let standing : Standing := { r.standing b with cost, isLost := false }
     let offset := (r.stack.place b).offset
     (List.range r.stack.count).any fun i =>
      i != b && r.stack.isActive i && offset ≤ (r.stack.place i).offset &&
        match standing.prefer (r.standing i) with
        | .onlySecond => true
        | .second => r.stack.canMerge i b
        | _ => false)

/-! ### Phrases in spite of the token -/

/-- What can be done in a state. -/
structure Outlook where
  takes : Bool := false
  phrasings : Array Phrasing := #[]

/-- Adds what can be done at a token. -/
def Outlook.add (r : Reading) (o : Outlook) : Action → Outlook
  | .shift again => { o with takes := o.takes || !again }
  | .recover => { o with takes := true }
  | .reduce item =>
    let p := r.phrasing item
    if p.count == 0 || o.phrasings.any (fun q => q.symbol == p.symbol && q.count == p.count) then o
    else { o with phrasings := o.phrasings.push p }
  | .skip | .accept => o

/-- What can be done in a state at any of the tokens. -/
def outlook (r : Reading) (state : Nat) (tokens : List Symbol) : Outlook :=
  tokens.foldl (fun o t => (r.actionsAt state t).foldl (Outlook.add r) o) {}

/-- Makes the phrases one after another, each on branches of its own; the first branch of the last.
-/
def reduceEach (b : Nat) : List Phrasing → Option Nat → Reading → Option Nat × Reading
  | [], made, r => (made, r)
  | p :: ps, _, r =>
    let (made, r) := r.reduce b p
    reduceEach b ps made r

/-- Looks at branch after branch, from the one with that number on, and makes every phrase that can
be made at any of the tokens, so that new branches arise behind the first ones. Branches on which
no phrase can be made any more are kept only if they take a token or `keeps`. -/
def phraseBranches (start first : Nat) (tokens : List Symbol) (keeps : Bool) :
    (fuel steps b : Nat) → (takes : Bool) → Reading → Bool × Reading
  | 0, _, _, takes, r => (takes, r)
  | fuel + 1, steps, b, takes, r =>
    let count := r.stack.count
    if count ≤ b then (takes, r)
    else
      let (merged, r) := r.mergeEarlier b b ((List.range b).drop first)
      if merged then phraseBranches start first tokens keeps fuel (steps + 1) b takes r
      else
        let o := r.outlook (r.stack.state b) tokens
        let (made, r) := reduceEach b o.phrasings.toList none r
        let next := if b == start then count else b + 1
        if o.takes then phraseBranches start first tokens keeps fuel (steps + 1) next true r
        else
          match made with
          | some m =>
            if steps < branchLimit then
              phraseBranches start first tokens keeps fuel (steps + 1) b takes
                { r with stack := r.stack.renumber m b }
            else
              phraseBranches start first tokens keeps fuel (steps + 1) next takes
                (if keeps then r else { r with stack := r.stack.remove b })
          | none =>
            phraseBranches start first tokens keeps fuel (steps + 1) next takes
              (if keeps then r else { r with stack := r.stack.remove b })

/-- More steps than there can be branches to look at. -/
def phraseFuel : Nat := 1000

/-- Makes all phrases that can be made before the token, or before any token if it is the end of the
text. The answer is whether it can be taken then. -/
def makePhrases (r : Reading) (b : Nat) (t : Symbol) : Bool × Reading :=
  let tokens := if t == 0 then (List.range r.dialect.tables.tokens).drop 1 else [t]
  phraseBranches b r.stack.count tokens (t == 0) phraseFuel 0 b false r

/-! ### Missing tokens -/

/-- Tries to put in one of the tokens, such that a phrase ends at the lookahead. -/
def putIn (b : Nat) (lookahead : Symbol) : List Symbol → Reading → Bool × Reading
  | [], r => (false, r)
  | t :: ts, r =>
    let state := r.stack.state b
    match (r.actionsAt state t).getLast?, r.goto state t with
    | some (.shift _), some target =>
      if target == state then putIn b lookahead ts r
      else
        match r.actionsAt target lookahead with
        | .reduce _ :: _ =>
          let copy := r.stack.count
          let place := r.stack.place b
          let r := { r with stack := r.stack.copy b }
          let r := r.push copy (some (.missing t place)) target
          let (takes, r) := r.makePhrases copy lookahead
          if takes then (true, r) else putIn b lookahead ts r
        | _ => putIn b lookahead ts r
    | _, _ => putIn b lookahead ts r

/-- Tries to put in a missing token on each of the branches until it is done, and loses the way on
all of them. -/
def loseWay (lookahead : Symbol) : List Nat → (done : Bool) → Reading → Reading
  | [], _, r => r
  | b :: bs, done, r =>
    let (done, r) :=
      if done then (true, r)
      else putIn b lookahead ((List.range r.dialect.tables.tokens).drop 1) r
    loseWay lookahead bs done (r.push b none lostState)

/-! ### Giving up text -/

/-- Gives up what stands above a point in that state, on each of the slices. -/
def giveUp (state : Nat) : (last : Option Nat) → List Stack.Slice → Reading → Option Nat × Reading
  | last, [], r => (last, r)
  | last, slice :: slices, r =>
    let b := slice.branch
    if last == some b then giveUp state last slices r
    else if r.stack.state b != state then
      giveUp state last slices { r with stack := r.stack.halt b }
    else
      let (known, stack) := r.stack.popFault b
      let r := { r with stack }
      let trail := ((known.map (·.parts)).getD []) ++ slice.trail
      let (parts, remarks) := Derivation.splitRemarks trail
      let r := if parts.isEmpty then r
        else r.push b (some (.faultOf r.symbols true (r.stack.place b) parts)) state
      let r := remarks.foldl (fun r d => r.push b (some d) state) r
      giveUp state (some b) slices r

/-- Goes back to a state so deep below the top of a branch, on a new branch. -/
def goBack (r : Reading) (b depth state : Nat) : Bool × Reading :=
  let (slices, stack) := r.stack.pop b depth
  let (last, r) := giveUp state none slices.toList { r with stack }
  (last.isSome, r)

/-- Goes back to the first of the landmarks at which the token fits, as long as that is not worse
than what another branch has. -/
def goBackToLandmark (b branches : Nat) (t : Symbol) : List Landmark → Reading → Bool × Reading
  | [], r => (false, r)
  | l :: ls, r =>
    let place := r.stack.place b
    let depth := if r.stack.progressSince b > 0 then l.depth + 1 else l.depth
    let cost := r.stack.cost b + depth * nodeCost + (place.offset - l.place.offset) +
      (place.row - l.place.row) * lineCost
    if l.state == lostState || l.place.offset == place.offset ||
        (List.range branches).any (fun i =>
          r.stack.state i == l.state && (r.stack.place i).offset == place.offset) then
      goBackToLandmark b branches t ls r
    else if r.isBeaten b cost then (false, r)
    else
      if (r.actionsAt l.state t).isEmpty then goBackToLandmark b branches t ls r
      else
        let (done, r) := r.goBack b depth l.state
        if done then (true, r) else goBackToLandmark b branches t ls r

/-- Removes the halted branches from that number on. -/
def removeHalted : (fuel b : Nat) → Reading → Reading
  | 0, _, r => r
  | fuel + 1, b, r =>
    if r.stack.count ≤ b then r
    else if r.stack.isActive b then removeHalted fuel (b + 1) r
    else removeHalted fuel b { r with stack := r.stack.remove b }

/-- Gives up a token, together with those that have been given up before it. -/
def giveUpToken (r : Reading) (b : Nat) (d : Derivation) : Reading :=
  let d := match (r.actionsAt startState d.symbol).getLast? with
    | some .skip => d.asRemark true
    | _ => d
  let symbols := r.symbols
  let part := Derivation.node symbols faultPart [] d.before [d]
  if r.stack.progressSince b == 0 then r.push b (some part) lostState
  else
    let (slices, stack) := r.stack.pop b 1
    match slices[0]? with
    | none => { r with stack }.push b (some part) lostState
    | some slice =>
      let stack := { stack with branches := stack.branches.take (slice.branch + 1) }
      let stack := stack.renumber slice.branch b
      let joined := Derivation.node symbols faultPart [] d.before (slice.trail ++ [part])
      { r with stack }.push b (some joined) lostState

/-- What becomes of a branch that has lost its way at the next token. -/
def recover (r : Reading) (b : Nat) (lookahead : Derivation) : Reading :=
  let r := r.settle b
  let branches := r.stack.count
  let landmarks :=
    if lookahead.isFault then [] else ((r.stack.branch b).landmarks).getD []
  let (back, r) := goBackToLandmark b branches lookahead.symbol landmarks r
  let r := removeHalted (r.stack.count - branches) branches r
  if lookahead.symbol == 0 then
    let empty := Derivation.faultOf r.symbols false (r.stack.place b) []
    (r.push b (some empty) startState).accept b lookahead
  else
    let cost := r.stack.cost b + nodeCost + lookahead.width +
      (lookahead.stop.row - lookahead.before.row) * lineCost
    if (back && r.stack.count > branchLimit) || r.isBeaten b cost then
      { r with stack := r.stack.halt b }
    else r.giveUpToken b lookahead

/-- What becomes of a branch on which the next token does not fit. -/
def handleFault (r : Reading) (b : Nat) (lookahead : Derivation) : Reading :=
  let before := r.stack.count
  let (_, r) := r.makePhrases b 0
  let after := r.stack.count
  let made := (List.range after).drop before
  let r := loseWay lookahead.symbol (b :: made) false r
  let r := made.foldl (fun r _ => (r.merge b before).2) r
  let r := { r with stack := r.stack.recordLandmarks b }
  r.recover b lookahead

end Reading

end CompilingProxy.Grammar
