import CompilingProxy.Grammar.Choice
import CompilingProxy.Grammar.Clash
import CompilingProxy.Grammar.Situation

/-!
# Likeness of situations

Situations with the same items differ only in what may follow. Where they do not contradict each
other, one state of the automaton stands for all of them: at a token that fits some of them it does
what these do. They contradict each other if they do different things at the same token, if a token
that fits only one of them clashes with those of the other, or if a symbol leads from them to
situations that contradict each other.
-/

namespace CompilingProxy.Grammar

open Std (HashMap)

/-! ### Rows -/

/-- What can be done at every token. -/
structure Row where
  /-- The tokens that fit. -/
  valid : TokenSet
  /-- The tokens that may follow each of the completed items. -/
  followers : List TokenSet
  actions : Array (List Action)
deriving Inhabited

/-- What situations with the same items have in common. -/
structure Core where
  outline : Outline
  /-- What can be done at tokens that no completed item may be followed by. -/
  base : Row
deriving Inhabited

/-- The core of some items. -/
def Core.ofItems (g : Tables) (items : List Nat) : Core :=
  let outline := g.outline items
  { outline
    base :=
      { valid := outline.takes ||| g.remarks
        followers := outline.completed.map fun _ => 0
        actions := (Array.range g.tokens).map (g.actions outline []) } }

/-- What can be done in a core at a token that may follow certain completed items. -/
abbrev Choices := HashMap (Nat × Symbol × List Nat) (List Action)

/-- The rows of all situations. Situations with the same items have the same core, and the same row
if the same tokens may follow the items that have been read completely. -/
structure RowTable where
  cores : Array Core := #[]
  coreNumbers : HashMap (Array Nat) Nat := {}
  coreOf : Array Nat := #[]
  rows : Array Row := #[]
  rowNumbers : HashMap (Nat × List Nat) Nat := {}
  rowOf : Array Nat := #[]

namespace RowTable

/-- The number of the core of some items. -/
def core (g : Tables) (t : RowTable) (items : Array Nat) : Nat × RowTable :=
  match t.coreNumbers[items]? with
  | some n => (n, t)
  | none =>
    let n := t.cores.size
    (n, { t with
      cores := t.cores.push (.ofItems g items.toList)
      coreNumbers := t.coreNumbers.insert items n })

/-- The completed items that each token may follow. -/
def completedAt (tokens : Nat) (completed : List (Nat × List Nat)) : Array (List Nat) :=
  completed.foldr (fun (item, followers) here =>
    followers.foldl (fun here t => here.modify t (item :: ·)) here) (Array.replicate tokens [])

/-- Puts what can be done at tokens that may follow completed items in the row. -/
def fillRow (g : Tables) (n : Nat) (core : Core) (here : Array (List Nat)) :
    List Nat → Array (List Action) → Choices → Array (List Action) × Choices
  | [], actions, choices => (actions, choices)
  | t :: ts, actions, choices =>
    let key := (n, t, here.getD t [])
    match choices[key]? with
    | some as => fillRow g n core here ts (actions.set! t as) choices
    | none =>
      let as := g.actions core.outline key.2.2 t
      fillRow g n core here ts (actions.set! t as) (choices.insert key as)

/-- The row of a situation with that core, whose completed items these sets may follow. -/
def row (g : Tables) (sets : SetTable) (n : Nat) (core : Core) (followers : List Nat)
    (choices : Choices) : Row × Choices :=
  let here := completedAt g.tokens (core.outline.completed.zip (followers.map sets.members))
  let tokens := followers.eraseDups.flatMap sets.members
  let (actions, choices) := fillRow g n core here tokens core.base.actions choices
  let followers := followers.map sets.get
  ({ valid := followers.foldl (· ||| ·) core.base.valid, followers, actions }, choices)

/-- Adds a situation. -/
def add (g : Tables) (sets : SetTable) (t : RowTable) (choices : Choices) (s : Situation) :
    RowTable × Choices :=
  let (n, t) := t.core g (s.kernel.map (·.1))
  let core := t.cores.getD n default
  let kernel := s.kernel.toList
  let followers := core.outline.completed.map fun item => (kernel.lookup item).getD 0
  let t := { t with coreOf := t.coreOf.push n }
  match t.rowNumbers[(n, followers)]? with
  | some row => ({ t with rowOf := t.rowOf.push row }, choices)
  | none =>
    let (row, choices) := row g sets n core followers choices
    let number := t.rows.size
    ({ t with
        rows := t.rows.push row
        rowNumbers := t.rowNumbers.insert (n, followers) number
        rowOf := t.rowOf.push number }, choices)

def ofSurvey (g : Tables) (v : Survey) : RowTable :=
  (v.situations.foldl (fun (t, choices) s => add g v.sets t choices s)
    (({} : RowTable), ({} : Choices))).1

end RowTable

/-! ### Contradictions -/

/-- All that is known of the situations. -/
structure Overview where
  tables : Tables
  survey : Survey
  rows : RowTable
  /-- The tokens that each token clashes with. -/
  clashes : Array TokenSet
  /-- The tokens that clash with others. -/
  clashing : TokenSet
  /-- The tokens that are found by what stands around them. -/
  bound : TokenSet

/-- Which class each situation belongs to. -/
abbrev ClassOf := Array Nat

namespace Tables

/-- Whether two items make the same phrase in the same way. -/
def makesSame (g : Tables) (a b : Nat) : Bool :=
  a == b ||
    (let (x, y) := (g.item a, g.item b)
     x.phrase == y.phrase && x.read == y.read && x.weight == y.weight && x.slots == y.slots &&
      x.isPlain && y.isPlain)

def sameAction (g : Tables) : Action → Action → Bool
  | .reduce a, .reduce b => g.makesSame a b
  | a, b => a == b

def sameActions (g : Tables) : List Action → List Action → Bool
  | [], [] => true
  | a :: as, b :: bs => g.sameAction a b && g.sameActions as bs
  | _, _ => false

end Tables

namespace Overview

def ofSurvey (g : Tables) (survey : Survey) : Overview :=
  let clashes := clashTable g
  { tables := g, survey, rows := .ofSurvey g survey, clashes, bound := boundTokens g
    clashing := clashes.zipIdx.foldl (fun set (others, t) =>
      if others == 0 then set else set ||| 1 <<< t) 0 }

/-- Whether tokens that are not yet looked for would disturb those that are. -/
def disturb (o : Overview) (new known : TokenSet) : Bool :=
  new &&& o.bound != 0 ||
    TokenSet.any (fun t => o.clashes.getD t 0 &&& known != 0) (new &&& o.clashing)

/-- Whether two rows of one core cannot be one. Only tokens that may not follow the same completed
items in both can be treated differently. -/
def rowsContradict (o : Overview) (a b : Row) : Bool :=
  let both := a.valid &&& b.valid
  let unlike := (a.followers.zip b.followers).foldl
    (fun (set : TokenSet) (x, y) => set ||| (x ^^^ y)) 0
  o.disturb (a.valid ^^^ both) b.valid || o.disturb (b.valid ^^^ both) a.valid ||
    TokenSet.any (fun t => !o.tables.sameActions (a.actions.getD t []) (b.actions.getD t []))
      (unlike &&& both)

def row (o : Overview) (n : Nat) : Row := o.rows.rows.getD (o.rows.rowOf.getD n 0) default

/-- Whether the situation takes the token. -/
def takes (o : Overview) (n : Nat) (t : Symbol) : Bool :=
  match ((o.row n).actions.getD t []).getLast? with
  | some (.shift _) => true
  | _ => false

/-- Whether it matters where the symbol leads to from two situations. -/
def matters (o : Overview) (a b : Nat) (s : Symbol) : Bool :=
  o.tables.tokens ≤ s || (o.takes a s && o.takes b s)

/-- Whether one of the symbols leads from two situations with the same items to different classes.
-/
def movesDiffer (o : Overview) (limit : Symbol) (classOf : ClassOf) (a b : Nat) : Bool :=
  let (x, y) := (o.survey.situations.getD a default, o.survey.situations.getD b default)
  let differ (s m n : Nat) : Bool :=
    s < limit && m != 0 && n != 0 && classOf.getD m 0 != classOf.getD n 0 && o.matters a b s
  (x.moves.zip y.moves).any (fun ((s, m), (_, n)) => differ s m n) ||
    (x.expansion != y.expansion &&
      (let (e, f) := (o.survey.expansions.getD x.expansion default,
        o.survey.expansions.getD y.expansion default)
       e.heads.any fun (s, _) =>
        differ s (e.moves.getD s 0) (f.moves.getD s 0) && (x.moves.lookup s).isNone))

/-- Whether two situations with the same items contradict each other by themselves, or take the same
token to different classes. -/
def contradict (o : Overview) (classOf : ClassOf) (a b : Nat) : Bool :=
  (o.rows.rowOf.getD a 0 != o.rows.rowOf.getD b 0 && o.rowsContradict (o.row a) (o.row b)) ||
    o.movesDiffer o.tables.tokens classOf a b

end Overview

/-! ### Classes -/

/-- Situations in classes. -/
structure Partition where
  classes : Array (List Nat)
  classOf : ClassOf
deriving Inhabited

/-- Of some situations those that agree with each other, the first ones preferred, and the rest. -/
def sift (differ : Nat → Nat → Bool) : List Nat → List Nat × List Nat
  | [] => ([], [])
  | n :: rest =>
    let apart := rest.partition (differ n)
    let (kept, moved) := sift differ apart.2
    (n :: kept, apart.1 ++ moved)
termination_by ns => ns.length
decreasing_by
  have := List.length_filter_le (not ∘ differ n) rest
  simp only [List.partition_eq_filter_filter, List.length_cons]
  omega

namespace Partition

/-- Splits one class after another, those that arise meanwhile included, until the members of each
agree; whether any was split. -/
def splitFrom (differ : ClassOf → Nat → Nat → Bool) :
    (fuel n : Nat) → (changed : Bool) → Partition → Bool × Partition
  | 0, _, changed, p => (changed, p)
  | fuel + 1, n, changed, p =>
    if p.classes.size ≤ n then (changed, p)
    else
      match sift (differ p.classOf) (p.classes.getD n []) with
      | (_, []) => splitFrom differ fuel (n + 1) changed p
      | (kept, moved) =>
        let new := p.classes.size
        splitFrom differ fuel (n + 1) true
          { classes := (p.classes.set! n kept).push moved
            classOf := moved.foldl (fun c m => c.set! m new) p.classOf }

/-- Splits until nothing changes. -/
def refine (differ : ClassOf → Nat → Nat → Bool) (limit : Nat) :
    (fuel : Nat) → Partition → Partition
  | 0, p => p
  | fuel + 1, p =>
    match splitFrom differ limit 0 false p with
    | (true, p) => refine differ limit fuel p
    | (false, p) => p

/-- The situations of each core. -/
def ofCores (coreOf : Array Nat) (cores : Nat) : Partition :=
  { classes := (coreOf.zipIdx.foldr (fun (c, n) classes => classes.modify c (n :: ·))
      (Array.replicate cores []))
    classOf := coreOf }

/-- The classes of situations that are alike. -/
def ofOverview (o : Overview) : Partition :=
  let count := o.survey.situations.size
  let limit := 2 * count
  let (_, p) := splitFrom o.contradict limit 0 false (ofCores o.rows.coreOf o.rows.cores.size)
  refine (o.movesDiffer o.tables.firsts.size) limit count p

end Partition

end CompilingProxy.Grammar
