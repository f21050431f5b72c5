import CompilingProxy.Grammar.Tables

/-!
# Situations

A situation says precisely what may have been read so far: items, each with the tokens that may
follow its phrase. Every symbol that fits leads on to another situation. A `Survey` holds all
situations that can come up, in the order in which they are first met, nearest to the start of the
text first.
-/

namespace CompilingProxy.Grammar

open Std (HashMap)

/-- Numbers with the number of a set of tokens each: items with what may follow their phrases, or
phrases with what may follow them. They are in order, each once. -/
abbrev Kernel := Array (Nat × Nat)

/-- What phrases may begin with that are to be read next. -/
structure Expansion where
  /-- The items behind each symbol. -/
  heads : Array (Symbol × Kernel)
  /-- The situation behind each symbol; zero where none has been met. -/
  moves : Array Nat
deriving Inhabited

structure Situation where
  kernel : Kernel
  expansion : Nat
  /-- The situations behind the symbols that the items themselves go on with. -/
  moves : List (Symbol × Nat)
deriving Inhabited

structure Survey where
  sets : SetTable := {}
  /-- The numbers of the sets of tokens that symbols begin with. -/
  firsts : Array Nat := #[]
  /-- The leads of the phrases looked at so far, with numbers for their sets. -/
  leads : HashMap Symbol (Array (Symbol × List (Nat × Nat × Bool))) := {}
  expansions : Array Expansion := #[]
  expansionNumbers : HashMap Kernel Nat := {}
  situations : Array Situation := #[]
  numbers : HashMap Kernel Nat := {}

namespace Survey

/-- Brings items in order, each once. -/
def kernelOf (items : List (Nat × Nat)) (sets : SetTable) : Kernel × SetTable :=
  (items.mergeSort fun a b => a.1 ≤ b.1).foldl (fun (kernel, sets) (n, set) =>
    match kernel.back? with
    | some (m, known) =>
      if m == n then
        let (all, sets) := sets.union known set
        (kernel.pop.push (n, all), sets)
      else (kernel.push (n, set), sets)
    | none => (kernel.push (n, set), sets)) (#[], sets)

/-- The leads of a phrase with numbers for their sets. -/
def leadsOf (v : Survey) (g : Tables) (phrase : Symbol) :
    Array (Symbol × List (Nat × Nat × Bool)) × Survey :=
  match v.leads[phrase]? with
  | some leads => (leads, v)
  | none =>
    let (leads, sets) := (g.leads phrase).foldl (fun (leads, sets) (s, ls) =>
      let (numbered, sets) := ls.foldl (fun (numbered, (sets : SetTable)) (lead : Lead) =>
        let (n, sets) := sets.number lead.followers
        ((lead.item, n, lead.isOpen) :: numbered, sets)) ([], sets)
      (leads.push (s, numbered), sets)) (#[], v.sets)
    (leads, { v with sets, leads := v.leads.insert phrase leads })

/-- The items behind each symbol that one of the phrases may begin with. -/
def itemsBehind (g : Tables) (key : Kernel) (v : Survey) : Array (List (Nat × Nat)) × Survey :=
  key.foldl (fun (behind, v) (phrase, followers) =>
    let (leads, v) := leadsOf v g phrase
    let (behind, sets) := leads.foldl (fun (behind, sets) (s, ls) =>
      ls.foldl (fun (behind, (sets : SetTable)) (item, set, isOpen) =>
        let (set, sets) := if isOpen then sets.union set followers else (set, sets)
        (behind.modify s ((item, set) :: ·), sets)) (behind, sets)) (behind, v.sets)
    (behind, { v with sets })) (Array.replicate g.firsts.size [], v)

/-- The number of the expansion of phrases. -/
def expansionOf (v : Survey) (g : Tables) (key : Kernel) : Nat × Survey :=
  match v.expansionNumbers[key]? with
  | some n => (n, v)
  | none =>
    let (behind, v) := itemsBehind g key v
    let (heads, sets) := behind.zipIdx.foldl (fun (heads, sets) (items, s) =>
      if items.isEmpty then (heads, sets)
      else
        let (kernel, sets) := kernelOf items sets
        (heads.push (s, kernel), sets)) ((#[] : Array (Symbol × Kernel)), v.sets)
    let n := v.expansions.size
    let expansion : Expansion := { heads, moves := Array.replicate g.firsts.size 0 }
    (n, { v with
      sets, expansions := v.expansions.push expansion
      expansionNumbers := v.expansionNumbers.insert key n })

/-- The number of the situation with that kernel. -/
def numberOf (v : Survey) (kernel : Kernel) : Nat × Survey :=
  match v.numbers[kernel]? with
  | some n => (n, v)
  | none =>
    let n := v.situations.size
    (n, { v with
      situations := v.situations.push { kernel, expansion := 0, moves := [] }
      numbers := v.numbers.insert kernel n })

/-- What stands ahead of some items: the phrases to be read next, with what may follow them, and
each symbol to be read next with the items behind it. -/
def ahead (g : Tables) (firsts : Array Nat) (kernel : Kernel) :
    List (Nat × Nat) × List (Symbol × List (Nat × Nat)) :=
  kernel.foldr (fun (n, behind) (phrases, direct) =>
    let item := g.item n
    match item.next with
    | none => (phrases, direct)
    | some s =>
      let followers := match item.second with
        | some t => firsts.getD t 0
        | none => behind
      let entry := (item.advanced, behind)
      let direct := match direct.lookup s with
        | some entries => (s, entry :: entries) :: direct.filter (·.1 != s)
        | none => (s, [entry]) :: direct
      (if s < g.tokens then phrases else (s, followers) :: phrases, direct)) ([], [])

/-- Looks at where the symbols lead to that the items themselves go on with, and those of the
expansion that nobody has looked at, in the order of symbols. -/
def lookAhead (expansion : Nat) (direct : List (Symbol × List (Nat × Nat))) :
    List (Symbol × Kernel) → List (Symbol × Nat) → Survey → List (Symbol × Nat) × Survey
  | [], moves, v => (moves, v)
  | (s, head) :: rest, moves, v =>
    match direct.lookup s with
    | some entries =>
      let (kernel, sets) := kernelOf (entries ++ head.toList) v.sets
      let (n, v) := numberOf { v with sets } kernel
      lookAhead expansion direct rest ((s, n) :: moves) v
    | none =>
      let (n, v) := numberOf v head
      let expansions := v.expansions.modify expansion fun e =>
        { e with moves := e.moves.set! s n }
      lookAhead expansion direct rest moves { v with expansions }

/-- Looks at where a situation leads to. -/
def visit (g : Tables) (n : Nat) (v : Survey) : Survey :=
  let kernel := (v.situations.getD n default).kernel
  let (phrases, direct) := ahead g v.firsts kernel
  let (key, sets) := kernelOf phrases v.sets
  let (number, v) := expansionOf { v with sets } g key
  let expansion := v.expansions.getD number default
  let heads := expansion.heads.toList.filter fun (s, _) =>
    expansion.moves.getD s 0 == 0 || (direct.lookup s).isSome
  let others := direct.filterMap fun (s, _) =>
    if heads.any (·.1 == s) then none else some (s, #[])
  let todo := (heads ++ others).mergeSort fun a b => a.1 ≤ b.1
  let (moves, v) := lookAhead number direct todo [] v
  { v with situations := v.situations.set! n { kernel, expansion := number, moves } }

/-- Visits one situation after another. -/
def visitFrom (g : Tables) : (fuel n : Nat) → Survey → Survey
  | 0, _, v => v
  | fuel + 1, n, v => if v.situations.size ≤ n then v else visitFrom g fuel (n + 1) (visit g n v)

/-- More situations than there can be. -/
def situationLimit : Nat := 1000000

/-- The situations of a grammar. The first is the one of having lost the way, the second the start
of the text. -/
def ofTables (g : Tables) : Survey :=
  let (none_, sets) := ({} : SetTable).number 0
  let (ends, sets) := sets.number 1
  let (firsts, sets) := g.firsts.foldl (fun (firsts, (sets : SetTable)) set =>
    let (n, sets) := sets.number set
    (firsts.push n, sets)) ((#[] : Array Nat), sets)
  let empty := g.items.findIdx? fun item => item.next.isNone && item.read == 0
  let (kernel, sets) := kernelOf ((g.start, ends) :: (empty.toList.map fun n => (n, ends))) sets
  let lost : Expansion := { heads := #[], moves := Array.replicate g.firsts.size none_ }
  let v : Survey := { sets, firsts, expansions := #[lost], expansionNumbers := {} }
  let (_, v) := numberOf v #[]
  let (_, v) := numberOf v kernel
  visitFrom g situationLimit 1 v

end Survey

end CompilingProxy.Grammar
