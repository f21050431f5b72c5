import CompilingProxy.Grammar.Tables

/-!
# Choices

What can be done at a token where some items stand: to take the token, or to make a phrase of the
symbols read last. Where both are possible the strengths of the rules decide, and where these do
not, every action is followed.
-/

namespace CompilingProxy.Grammar

/-- One of the ways to go on at a token. -/
inductive Action where
  /-- Takes the token; `again` if that is only another way to read a repetition. -/
  | shift (again : Bool)
  /-- Takes a token that may stand anywhere. -/
  | skip
  /-- Makes a phrase, whose item has been read completely. -/
  | reduce (item : Nat)
  | accept
  /-- Takes the token as one that does not fit. -/
  | recover
deriving DecidableEq, Hashable, Repr, Inhabited

/-- Items that stand at one place, as far as they matter for what can be done there. -/
structure Outline where
  /-- The items that have been read completely, those with fewer symbols first. -/
  completed : List Nat
  /-- The items that have been begun and go on. -/
  continued : List Item
  /-- The tokens that can be taken. -/
  takes : TokenSet
deriving Inhabited

namespace Tables

/-! ### Strengths -/

/-- Whether the entry of a ranking speaks of the strength or one of the phrases. -/
def matchesRank (strength : Option Strength) (phrases : List Symbol) (rank : Rank Symbol) : Bool :=
  match rank with
  | .strength s => strength == some s
  | .phrase p => phrases.contains p

/-- What one ranking says. -/
def compareIn (left right : Rank Symbol → Bool) :
    (sawLeft sawRight : Bool) → List (Rank Symbol) → Option Ordering
  | _, _, [] => none
  | sawLeft, sawRight, rank :: ranks =>
    if left rank then if sawRight then some .lt else compareIn left right true sawRight ranks
    else if right rank then if sawLeft then some .gt else compareIn left right sawLeft true ranks
    else compareIn left right sawLeft sawRight ranks

/-- Which of two strengths is the greater; plain ones are compared as numbers. -/
def compareStrength (g : Tables) (left : Option Strength) (leftPhrases : List Symbol)
    (right : Option Strength) (rightPhrases : List Symbol) : Ordering :=
  let plain (s : Option Strength) : Option Int :=
    match s with
    | none => some 0
    | some (.plain n) => some n
    | some _ => none
  let ranked : Ordering :=
    (g.rankings.findSome? (compareIn (matchesRank left leftPhrases)
      (matchesRank right rightPhrases) false false)).getD .eq
  match plain left, plain right with
  | some a, some b => if a == 0 && b == 0 then ranked else compare a b
  | _, _ => ranked

/-! ### Actions -/

/-- The phrases that can be made at a token, with what the strengths say of them. -/
structure Reductions where
  actions : List Action := []
  strength : Option Strength := none
  phrases : List Symbol := []
  left : Bool := false
  right : Bool := false
  neither : Bool := false

/-- Adds a phrase that can be made, unless the strengths rule it out, or it the others. -/
def addReduction (g : Tables) (r : Reductions) (n : Nat) : Reductions :=
  let item := g.item n
  let action := if g.isWhole item then Action.accept else .reduce n
  let order := if r.actions.isEmpty then Ordering.gt
    else g.compareStrength item.strength [item.phrase] r.strength r.phrases
  let added (r : Reductions) : Reductions :=
    { actions := r.actions ++ [action], strength := item.strength
      phrases := if r.phrases.contains item.phrase then r.phrases else item.phrase :: r.phrases
      left := r.left || item.side == some .left
      right := r.right || item.side == some .right
      neither := r.neither || item.side.isNone }
  match order with
  | .lt => r
  | .eq => added r
  | .gt => added {}

/-- What matters of some items. -/
def outline (g : Tables) (items : List Nat) : Outline :=
  let completed := items.filter fun n => (g.item n).next.isNone
  { completed := completed.mergeSort fun a b =>
      let (a, b) := (g.item a, g.item b)
      a.read < b.read || (a.read == b.read && a.phrase ≤ b.phrase)
    continued := (items.map g.item).filter fun item => item.next.isSome && item.read > 0
    takes := items.foldl (fun set n =>
      match (g.item n).next with
      | some s => set ||| g.firsts.getD s 0
      | none => set) 0 }

def isRepetition (g : Tables) (s : Symbol) : Bool :=
  match g.symbols.phrases.getD s none with
  | some (.repetition _) => true
  | _ => false

/-- Chooses between taking the token and making phrases. -/
def resolve (g : Tables) (going making : List Item) (r : Reductions) : List Action :=
  let going := going.filter fun item => !g.isWhole item
  let making := making.filter fun item => !g.isWhole item
  let phrases := (going ++ making).map (·.phrase)
  match phrases.head? with
  | none => r.actions ++ [.shift false]
  | some first =>
    if g.isRepetition first && phrases.all (· == first) then r.actions ++ [.shift true]
    else
      let orders := going.map fun item =>
        g.compareStrength item.strength [item.phrase] r.strength r.phrases
      let more := orders.contains .gt
      let less := orders.contains .lt
      if more && !less then [.shift false]
      else if less && !more then r.actions
      else if less then r.actions ++ [.shift false]
      else if r.left && !r.right && !r.neither then r.actions
      else if r.right && !r.left && !r.neither then [.shift false]
      else r.actions ++ [.shift false]

/-- The ways to go on at a token that may follow these of the completed items. -/
def actions (g : Tables) (o : Outline) (completed : List Nat) (t : Symbol) : List Action :=
  let takes := o.takes.testBit t
  if completed.isEmpty then
    if takes then [.shift false] else if g.remarks.testBit t then [.skip] else []
  else
    let r : Reductions := completed.foldl g.addReduction {}
    if takes then
      let going := o.continued.filter fun item =>
        item.next.any fun s => (g.firsts.getD s 0).testBit t
      g.resolve going (completed.map g.item) r
    else r.actions

end Tables

end CompilingProxy.Grammar
