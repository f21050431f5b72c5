import CompilingProxy.Grammar.Tree

/-!
# Branches of reading

While a text can be read in several ways, all of them are followed. Each branch is a stack of
states with the derivations between them, and branches share what they have in common: a stack is a
graph in which a point may be reached over several links. Branches that come to the same state at
the same place become one.
-/

namespace CompilingProxy.Grammar

/-- What leads from a point down to the one below it; nothing where the way was lost. -/
structure Link where
  below : Nat
  derivation : Option Derivation
deriving Inhabited

/-- A state on a stack. -/
structure Point where
  state : Nat
  place : Mark
  /-- What everything below costs, how far it has been read, and its weight. -/
  cost : Nat := 0
  progress : Nat := 0
  weight : Int := 0
  links : Array Link := #[]
deriving Inhabited

/-- A state below the place where the way was lost. -/
structure Landmark where
  place : Mark
  depth : Nat
  state : Nat
deriving Inhabited

inductive Status where
  | active
  /-- The token does not fit. -/
  | paused (lookahead : Derivation)
  | halted
deriving Inhabited

structure Branch where
  top : Nat
  status : Status := .active
  /-- How far it had been read when something did not fit for the last time. -/
  progressAtFault : Nat := 0
  landmarks : Option (List Landmark) := none
deriving Inhabited

/-- All branches, and the points that they are made of. -/
structure Stack where
  points : Array Point
  branches : Array Branch
deriving Inhabited

namespace Stack

/-- A single branch at the start of the text. -/
def begin : Stack :=
  { points := #[{ state := startState, place := {} }], branches := #[{ top := 0 }] }

def point (s : Stack) (n : Nat) : Point := s.points.getD n default

def branch (s : Stack) (b : Nat) : Branch := s.branches.getD b default

def count (s : Stack) : Nat := s.branches.size

def top (s : Stack) (b : Nat) : Point := s.point (s.branch b).top

def state (s : Stack) (b : Nat) : Nat := (s.top b).state

def place (s : Stack) (b : Nat) : Mark := (s.top b).place

def isActive (s : Stack) (b : Nat) : Bool :=
  match (s.branch b).status with
  | .active => true
  | _ => false

def isPaused (s : Stack) (b : Nat) : Bool :=
  match (s.branch b).status with
  | .paused _ => true
  | _ => false

def isHalted (s : Stack) (b : Nat) : Bool :=
  match (s.branch b).status with
  | .halted => true
  | _ => false

def modifyBranch (s : Stack) (b : Nat) (f : Branch → Branch) : Stack :=
  { s with branches := s.branches.modify b f }

def halt (s : Stack) (b : Nat) : Stack := s.modifyBranch b fun h => { h with status := .halted }

def pause (s : Stack) (b : Nat) (lookahead : Derivation) : Stack :=
  let progress := (s.top b).progress
  s.modifyBranch b fun h => { h with status := .paused lookahead, progressAtFault := progress }

def resume (s : Stack) (b : Nat) : Stack := s.modifyBranch b fun h => { h with status := .active }

def remove (s : Stack) (b : Nat) : Stack :=
  { s with branches := s.branches.eraseIdxIfInBounds b }

/-- A branch that goes on from the point, as the other one does. -/
def addBranch (s : Stack) (like : Nat) (top : Nat) : Stack :=
  let progressAtFault := (s.branch like).progressAtFault
  { s with branches := s.branches.push { top, progressAtFault } }

def copy (s : Stack) (b : Nat) : Stack :=
  { s with branches := s.branches.push { s.branch b with landmarks := none } }

/-- Puts a later branch in the place of an earlier one, whose landmarks it keeps. -/
def renumber (s : Stack) (source target : Nat) : Stack :=
  if source == target then s
  else
    let moved := s.branch source
    let moved := { moved with landmarks := moved.landmarks.or (s.branch target).landmarks }
    { s with branches := (s.branches.set! target moved).eraseIdxIfInBounds source }

def swap (s : Stack) (a b : Nat) : Stack :=
  let (first, second) := (s.branch a, s.branch b)
  { s with branches := (s.branches.set! a second).set! b first }

/-- Puts a derivation on top of a branch, or nothing where the way is lost. -/
def push (symbols : Symbols) (s : Stack) (b : Nat) (derivation : Option Derivation)
    (state : Nat) : Stack :=
  let below := (s.branch b).top
  let p := s.point below
  let p : Point := match derivation with
    | none => { p with state, links := #[⟨below, none⟩] }
    | some d =>
      { state, place := d.stop, cost := p.cost + d.cost
        progress := p.progress + d.progress symbols, weight := p.weight + d.weight
        links := #[⟨below, some d⟩] }
  let top := s.points.size
  let isLost := derivation.isNone
  { points := s.points.push p
    branches := s.branches.modify b fun h =>
      { h with top, progressAtFault := if isLost then p.progress else h.progressAtFault } }

/-! ### Measures -/

/-- What a branch has cost; one that is about to be lost, or has just been, costs more. -/
def cost (s : Stack) (b : Nat) : Nat :=
  let p := s.top b
  let lost := p.state == lostState && (p.links[0]?.all (·.derivation.isNone))
  if s.isPaused b || lost then p.cost + faultCost else p.cost

/-- How far a branch has been read since something did not fit. -/
def progressSince (s : Stack) (b : Nat) : Nat :=
  (s.top b).progress - (s.branch b).progressAtFault

/-- The same branches, each with its progress counted from no later than where it stands. -/
def settle (s : Stack) (b : Nat) : Stack :=
  let progress := (s.top b).progress
  s.modifyBranch b fun h => { h with progressAtFault := min h.progressAtFault progress }

/-- Whether text has been read below the point since something did not fit. -/
def hasAdvancedAt (s : Stack) (progressAtFault : Nat) : (fuel : Nat) → Nat → Bool
  | 0, _ => false
  | fuel + 1, n =>
    let p := s.point n
    let link : Link := p.links.getD 0 default
    match link.derivation with
    | some d =>
      if d.width > 0 then true
      else if p.progress > progressAtFault && d.cost == 0 then
        hasAdvancedAt s progressAtFault fuel link.below
      else false
    | none => false

/-- Whether text has been read since something did not fit. -/
def hasAdvanced (s : Stack) (b : Nat) : Bool :=
  (s.top b).cost == 0 ||
    s.hasAdvancedAt (s.branch b).progressAtFault s.points.size (s.branch b).top

/-! ### Merging -/

/-- How many links one point may have. -/
def linkLimit : Nat := 8

def likeDerivations (a b : Option Derivation) : Bool :=
  match a, b with
  | none, none => true
  | some a, some b => a.isLike b
  | _, _ => false

/-- Whether one point can stand for the other. -/
def Point.isLike (a b : Point) : Bool :=
  a.state == b.state && a.place.offset == b.place.offset && a.cost == b.cost

def weightOf (d : Option Derivation) : Int := (d.map (·.weight)).getD 0

/-- What becomes of a link that is added to a point: it replaces or joins the link with that number,
or it is one more. -/
inductive Joining where
  | sameBelow (index : Nat)
  | likeBelow (index : Nat)
  | new

/-- Finds a link that the new one is like. -/
def joining (points : Array Point) (p : Point) (link : Link) : Joining :=
  let found := p.links.toList.zipIdx.findSome? fun (l, i) =>
    if likeDerivations l.derivation link.derivation then
      if l.below == link.below then some (.sameBelow i)
      else if Point.isLike (points.getD l.below default) (points.getD link.below default) then
        some (.likeBelow i)
      else none
    else none
  found.getD .new

/-- Adds a link to a point, and where it is like one that is there, makes the points below one. -/
def addLink (symbols : Symbols) : (fuel : Nat) → Array Point → Nat → Link → Array Point
  | 0, points, _, _ => points
  | fuel + 1, points, n, link =>
    if link.below == n then points
    else
      let p := points.getD n default
      let below := points.getD link.below default
      let weight := below.weight + weightOf link.derivation
      match joining points p link with
      | .sameBelow i =>
        let known := (p.links.getD i default).derivation
        if weightOf known < weightOf link.derivation then
          points.set! n { p with links := p.links.set! i link, weight }
        else points
      | .likeBelow i =>
        let target := (p.links.getD i default).below
        let points :=
          below.links.foldl (fun points l => addLink symbols fuel points target l) points
        points.modify n fun p => { p with weight := max p.weight weight }
      | .new =>
        if p.links.size ≥ linkLimit then points
        else
          let progress := below.progress +
            ((link.derivation.map (·.progress symbols)).getD 0)
          points.set! n
            { p with
              links := p.links.push link
              progress := max p.progress progress
              weight := max p.weight weight }

def canMerge (s : Stack) (a b : Nat) : Bool :=
  s.isActive a && s.isActive b && Point.isLike (s.top a) (s.top b)

/-- Makes the second branch a part of the first, if both have come to the same state. -/
def merge (symbols : Symbols) (s : Stack) (a b : Nat) : Bool × Stack :=
  if !s.canMerge a b then (false, s)
  else
    let target := (s.branch a).top
    let links := (s.top b).links
    let fuel := s.points.size + 1
    let points := links.foldl (fun ps l => addLink symbols fuel ps target l) s.points
    let s := { s with points }
    let p := s.point target
    let s := if p.state == lostState then
        s.modifyBranch a fun h => { h with progressAtFault := p.progress }
      else s
    (true, s.remove b)

/-! ### Looking down -/

/-- A way down from the top of a branch. -/
structure Descent where
  point : Nat
  trail : List Derivation := []
  depth : Nat := 0
deriving Inhabited

/-- How many ways down are followed. -/
def descentLimit : Nat := 64

def Descent.follow (d : Descent) (link : Link) : Descent :=
  match link.derivation with
  | none => { d with point := link.below, depth := d.depth + 1 }
  | some t =>
    { point := link.below, trail := t :: d.trail
      depth := if t.isRemark then d.depth else d.depth + 1 }

/-- One step down on every way: those that are done, and those to be followed further. `room` is how
many more ways there may be. -/
def stepDown (points : Array Point) (isDone : Descent → Bool) (isDead : Descent → Bool) :
    (room : Nat) → List Descent → List Descent × List Descent × List Descent
  | _, [] => ([], [], [])
  | room, d :: ds =>
    let links := (points.getD d.point default).links
    if isDone d then
      let (done, kept, added) := stepDown points isDone isDead (room + 1) ds
      (d :: done, kept, added)
    else if isDead d || links.isEmpty then stepDown points isDone isDead (room + 1) ds
    else
      let others := (links.toList.drop 1).take room
      let (done, kept, added) := stepDown points isDone isDead (room - others.length) ds
      (done, d.follow (links.getD 0 default) :: kept, others.map d.follow ++ added)

/-- Follows all ways down until they are done. -/
def descend (points : Array Point) (isDone isDead : Descent → Bool) :
    (fuel : Nat) → List Descent → List Descent
  | 0, _ => []
  | _, [] => []
  | fuel + 1, ds =>
    let (done, kept, added) := stepDown points isDone isDead (descentLimit - ds.length) ds
    done ++ descend points isDone isDead fuel (kept ++ added)

/-- A row of derivations taken off the top, and the branch that is left of it. -/
structure Slice where
  trail : List Derivation
  branch : Nat
deriving Inhabited

/-- Puts a slice behind the last one with the same branch. -/
def insertSlice (slices : Array Slice) (slice : Slice) : Array Slice :=
  match (slices.toList.zipIdx.filter fun (x, _) => x.branch == slice.branch).getLast? with
  | some (_, i) => slices.insertIdxIfInBounds (i + 1) slice
  | none => slices.push slice

/-- Makes a branch for each point that was come down to. -/
def takeOff (s : Stack) (b : Nat) (found : List Descent) : Array Slice × Stack :=
  found.foldl (fun (slices, s) d =>
    match slices.toList.reverse.find? fun x => (s.branch x.branch).top == d.point with
    | some x => (insertSlice slices ⟨d.trail, x.branch⟩, s)
    | none => (slices.push ⟨d.trail, s.count⟩, s.addBranch b d.point)) (#[], s)

/-- Takes so many derivations off a branch, remarks not counted, on every way down. -/
def pop (s : Stack) (b depth : Nat) : Array Slice × Stack :=
  s.takeOff b (descend s.points (·.depth == depth) (fun _ => false) (s.points.size + 1)
    [{ point := (s.branch b).top }])

/-- Takes everything off a branch. -/
def popAll (s : Stack) (b : Nat) : Array Slice × Stack :=
  s.takeOff b (descend s.points (fun d => (s.point d.point).links.isEmpty) (fun _ => false)
    (s.points.size + 1) [{ point := (s.branch b).top }])

/-- Takes the fault off the top of a branch, if there is one. -/
def popFault (s : Stack) (b : Nat) : Option Derivation × Stack :=
  match (s.top b).links.find? fun l => l.derivation.any (·.isFault) with
  | some ⟨below, some d⟩ => (some d, s.modifyBranch b fun h => { h with top := below })
  | _ => (none, s)

/-- How many derivations a landmark may be below the top. -/
def landmarkDepth : Nat := 16

/-- Whether a landmark is known already: the latest ones are as deep. -/
def knowsLandmark (known : List Landmark) (depth state : Nat) : Bool :=
  (known.takeWhile fun l => depth ≤ l.depth).any fun l => l.depth == depth && l.state == state

/-- The states below the top of a branch, the nearest first. -/
def gatherLandmarks (points : Array Point) :
    (fuel : Nat) → List Descent → List Landmark → List Landmark
  | 0, _, found => found
  | _, [], found => found
  | fuel + 1, ds, found =>
    let tooDeep (d : Descent) : Bool := landmarkDepth < d.depth
    let found := (ds.filter (!tooDeep ·)).foldl (fun found d =>
      let p := points.getD d.point default
      if knowsLandmark found d.depth p.state then found
      else ⟨p.place, d.depth, p.state⟩ :: found) found
    let (_, kept, added) := stepDown points (fun _ => false) tooDeep (descentLimit - ds.length) ds
    gatherLandmarks points fuel (kept ++ added) found

def recordLandmarks (s : Stack) (b : Nat) : Stack :=
  let found := gatherLandmarks s.points (s.points.size + 1) [{ point := (s.branch b).top }] []
  s.modifyBranch b fun h => { h with landmarks := some found.reverse }

end Stack

end CompilingProxy.Grammar
