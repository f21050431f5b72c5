import CompilingProxy.Grammar.Likeness

/-!
# The automaton

A state stands for all situations of one class. From the state and the token ahead the actions
follow, and from the state and a symbol that has been read the next state.
-/

namespace CompilingProxy.Grammar

structure State where
  /-- The situations behind symbols; the first list goes before the second. -/
  moves : List (Symbol × Nat)
  otherMoves : Array Nat
  /-- The tokens that fit. -/
  valid : TokenSet
  /-- What is done at each token. -/
  actions : Array (List Action)
  /-- The group that is all that can be made here, and of one thing only. -/
  vanishing : Option Symbol
deriving Inhabited

structure Automaton where
  tables : Tables
  classOf : ClassOf
  states : Array State
deriving Inhabited

/-- The state of reading that has lost its way. -/
def lostState : Nat := 0

/-- The state before the text. -/
def startState : Nat := 1

namespace State

/-- What is done at each token in one of the two rows. -/
def joinActions (a b : Array (List Action)) : Array (List Action) :=
  a.zipWith (fun as bs => if as.isEmpty then bs else as) b

/-- The group that an action makes of one thing, if it makes nothing else of it. -/
def madeOfOne? (g : Tables) : Action → Option Symbol
  | .reduce n =>
    let item := g.item n
    if item.read == 1 && item.weight == 0 && item.isPlain && g.vanishing.getD item.phrase false
    then some item.phrase else none
  | _ => none

/-- The group that vanishes where these are the actions: it is made of one thing whatever the token
is. -/
def vanishing? (g : Tables) (actions : Array (List Action)) : Option Symbol :=
  let made := actions.toList.flatten.filter (· != .skip)
  match made with
  | [] => none
  | first :: rest =>
    match madeOfOne? g first with
    | some s => if rest.all fun a => madeOfOne? g a == some s then some s else none
    | none => none

/-- The state of a class of situations. -/
def ofClass (o : Overview) (situations : List Nat) : State :=
  let rows := (situations.map fun n => o.rows.rowOf.getD n 0).eraseDups.map fun n =>
    o.rows.rows.getD n default
  let actions := match rows with
    | [] => #[]
    | row :: rows => rows.foldl (fun actions row => joinActions actions row.actions) row.actions
  let situation := o.survey.situations.getD (situations.headD 0) default
  { moves := situation.moves
    otherMoves := (o.survey.expansions.getD situation.expansion default).moves
    valid := rows.foldl (fun (set : TokenSet) row => set ||| row.valid) 0
    actions, vanishing := vanishing? o.tables actions }

/-- The situation that a symbol leads to; zero if none. -/
def move (s : State) (symbol : Symbol) : Nat :=
  (s.moves.lookup symbol).getD (s.otherMoves.getD symbol 0)

end State

namespace Automaton

def ofOverview (o : Overview) : Automaton :=
  let p := Partition.ofOverview o
  { tables := o.tables, classOf := p.classOf
    states := p.classes.map (State.ofClass o) }

def ofTables (g : Tables) : Automaton :=
  let survey := Survey.ofTables g
  ofOverview (.ofSurvey g survey)

def state (a : Automaton) (n : Nat) : State := a.states.getD n default

/-- The ways to go on in the state at the token. -/
def actionsAt (a : Automaton) (n : Nat) (t : Symbol) : List Action :=
  if n == lostState then if a.tables.remarks.testBit t then [.skip] else [.recover]
  else (a.state n).actions.getD t []

/-- Where a symbol leads to from the state. Groups of one thing vanish: a state in which nothing
else can be made is passed over, up to that depth of groups in each other. -/
def passOver (a : Automaton) (n : Nat) : (depth : Nat) → Symbol → Option Nat
  | 0, _ => none
  | depth + 1, s =>
    match (a.state n).move s with
    | 0 => none
    | m =>
      let target := a.classOf.getD m 0
      match (a.state target).vanishing with
      | none => some target
      | some group => passOver a n depth group

/-- How many groups may vanish inside of each other. -/
def vanishingDepth : Nat := 32

/-- Where a symbol leads to from the state. -/
def goto (a : Automaton) (n : Nat) (s : Symbol) : Option Nat := a.passOver n vanishingDepth s

end Automaton

end CompilingProxy.Grammar
