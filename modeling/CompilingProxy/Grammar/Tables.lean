import CompilingProxy.Grammar.Item
import CompilingProxy.Grammar.TokenSet

/-!
# Tables of the grammar

What is known of a grammar before any text is read: its items, the tokens that its phrases begin and
end with, and the items that a text may begin with that is to be read as some phrase.
-/

namespace CompilingProxy.Grammar

open Std (HashMap HashSet)

/-- How a production begins: its first two symbols, and the item behind the first of them. -/
structure Opening where
  first : Symbol
  second : Option Symbol
  item : Nat
deriving Repr, Inhabited

/-- A way to read the first symbol of some phrase: the item behind it, the tokens that may follow
the item's phrase, and whether what follows the outermost phrase may follow it too. -/
structure Lead where
  item : Nat
  followers : TokenSet
  isOpen : Bool
deriving Repr, Inhabited

/-- All that is known of the grammar beforehand. -/
structure Tables where
  symbols : Symbols
  /-- The number of tokens; phrases have greater numbers. -/
  tokens : Nat
  items : Array Item
  /-- The item that stands before the whole text. -/
  start : Nat
  /-- The tokens that may stand between any others. -/
  remarks : TokenSet
  /-- The tokens that each symbol may begin with. -/
  firsts : Array TokenSet
  /-- The tokens that may stand behind each token. -/
  successors : Array TokenSet
  openings : Array (Array Opening)
  /-- The first two symbols of the productions of each phrase. -/
  pairs : Array (Array (Symbol × Option Symbol))
  rankings : List (List (Rank Symbol))
  /-- The groups that vanish from the tree when they hold one thing only. -/
  vanishing : Array Bool
deriving Inhabited

/-! ### First and last tokens -/

/-- Adds to the set of every phrase the sets of the symbols that stand for it, as often as it
takes. -/
def saturate (parts : Array (List Symbol)) : (passes : Nat) → Array TokenSet → Array TokenSet
  | 0, sets => sets
  | passes + 1, sets =>
    let next := parts.zipIdx.map fun (symbols, s) =>
      symbols.foldl (fun set p => set ||| sets.getD p 0) (sets.getD s 0)
    if next == sets then sets else saturate parts passes next

/-- More passes than it takes. -/
def passLimit : Nat := 100

/-- The tokens that stand at one end of each symbol, if that is the end of the symbols given with
it. A token stands at its own end. -/
def endTokens (parts : Array (List Symbol)) (tokens : Nat) : Array TokenSet :=
  saturate parts passLimit
    ((Array.range parts.size).map fun s => if s < tokens then 1 <<< s else 0)

/-- Adds the tokens that begin the second symbol to those that may stand behind the last tokens of
the first. -/
def addSuccessors (firsts lasts : Array TokenSet) (successors : Array TokenSet) (a b : Symbol) :
    Array TokenSet :=
  let next := firsts.getD b 0
  (TokenSet.members (lasts.getD a 0)).foldl (fun sets t => sets.modify t (· ||| next)) successors

/-- The tokens that may stand behind each token, remarks included. -/
def successorsIn (productions : Array (Array Production)) (firsts : Array TokenSet)
    (tokens : Nat) (remarks : TokenSet) : Array TokenSet :=
  let lasts := endTokens
    (productions.map fun ps => ps.toList.filterMap fun p => p.steps.getLast?.map (·.symbol)) tokens
  let neighbours := productions.foldl (fun set ps => ps.foldl (fun set p =>
    (p.steps.zip p.steps.tail).foldl (fun set (a, b) => set.insert (a.symbol, b.symbol)) set) set)
    ({} : HashSet (Symbol × Symbol))
  neighbours.fold (fun sets (a, b) => addSuccessors firsts lasts sets a b)
    (Array.replicate tokens remarks)

/-! ### What phrases begin with -/

/-- The phrases that a phrase may begin with, with the tokens that may follow each of them. Every
step takes one unit of fuel. -/
def reachable (pairs : Array (Array (Symbol × Option Symbol))) (firsts : Array TokenSet)
    (tokens : Nat) : (fuel : Nat) → List (Symbol × TokenSet × Bool) →
    HashMap Symbol (TokenSet × Bool) → HashMap Symbol (TokenSet × Bool)
  | 0, _, found => found
  | _, [], found => found
  | fuel + 1, (s, followers, isOpen) :: rest, found =>
    let (known, wasOpen) := found.getD s (0, false)
    let all := known ||| followers
    if found.contains s && all == known && (wasOpen || !isOpen) then
      reachable pairs firsts tokens fuel rest found
    else
      let found := found.insert s (all, wasOpen || isOpen)
      let more := (pairs.getD s #[]).toList.filterMap fun (first, second) =>
        if first < tokens then none
        else
          match second with
          | some next => some (first, firsts.getD next 0, false)
          | none => some (first, followers, isOpen)
      reachable pairs firsts tokens fuel (more ++ rest) found

namespace Tables

def item (g : Tables) (n : Nat) : Item := g.items.getD n default

/-- Whether the item is the one of the whole text. -/
def isWhole (g : Tables) (item : Item) : Bool := item.phrase == g.firsts.size

/-- The ways to read each symbol as the first of a phrase, in the order of symbols. -/
def leads (g : Tables) (phrase : Symbol) : Array (Symbol × List Lead) :=
  let fuel := 1000 * g.openings.size
  let found := reachable g.pairs g.firsts g.tokens fuel [(phrase, 0, true)] {}
  let bySymbol := found.fold (fun leads s (followers, isOpen) =>
    (g.openings.getD s #[]).foldl (fun leads o =>
      leads.modify o.first fun ls => ⟨o.item, followers, isOpen⟩ :: ls) leads)
    (Array.replicate g.openings.size [])
  bySymbol.zipIdx.filterMap fun (ls, s) => if ls.isEmpty then none else some (s, ls)

end Tables

/-! ### The tables -/

/-- The phrases with a part for some child, directly or inside of a group. -/
def phrasesWithParts (ps : Productions) : (passes : Nat) → Array Bool → Array Bool
  | 0, flags => flags
  | passes + 1, flags =>
    phrasesWithParts ps passes (ps.ofSymbol.map fun productions =>
      productions.any fun p =>
        p.steps.any fun step => step.role.isSome || flags.getD step.symbol false)

/-- Numbers the items of all productions; how the productions begin. -/
def numberAll (hasParts : Symbol → Bool) (productions : Array (Array Production))
    (table : ItemTable) : Array (Array Opening) × ItemTable :=
  productions.zipIdx.foldl
    (fun (openings, table) (productions, s) =>
      let (heads, table) := productions.foldl
        (fun (heads, table) p =>
          let (n, _, table) := numberItems hasParts s p {} p.steps table
          match p.steps with
          | [] => (heads, table)
          | first :: rest =>
            let item := (table.items.getD n default).advanced
            (heads.push ⟨first.symbol, rest.head?.map (·.symbol), item⟩, table))
        ((#[] : Array Opening), table)
      (openings.push heads, table))
    ((#[] : Array (Array Opening)), table)

def tables (elements : Bool) : Tables :=
  let ps := productions elements
  let symbols := ps.symbols
  let tokens := symbols.tokens.size
  let isGroup (s : Symbol) : Bool := tokens ≤ s && (symbols.labels.getD s none).isNone
  let withParts := phrasesWithParts
    { ps with ofSymbol := ps.ofSymbol.zipIdx.map fun (a, s) => if isGroup s then a else #[] } 4
    (Array.replicate ps.ofSymbol.size false)
  let hasParts (s : Symbol) : Bool := withParts.getD s false
  let whole := ps.ofSymbol.size
  let program := symbols.phraseNumbers.getD (.node .program) 0
  let (start, _, table) := numberItems hasParts whole ⟨[{ symbol := program }], 0⟩ {}
    [{ symbol := program }] {}
  let (openings, table) := numberAll hasParts ps.ofSymbol table
  let pairs := openings.map fun heads =>
    (heads.toList.map fun o => (o.first, o.second)).eraseDups.toArray
  let firsts := endTokens (pairs.map fun heads => heads.toList.map (·.1)) tokens
  let relabelled := ps.ofSymbol.foldl
    (fun set productions => productions.foldl
      (fun set p => p.steps.foldl
        (fun set step => if step.relabel.isSome then set.insert step.symbol else set) set) set)
    ({} : HashSet Symbol)
  let remarks := symbols.remarks
  { symbols, tokens, items := table.items, start, remarks, firsts, openings, pairs
    successors := successorsIn ps.ofSymbol firsts tokens remarks
    rankings := rankings.map fun ranks => ranks.filterMap fun rank =>
      match rank with
      | .strength s => some (.strength s)
      | .phrase p => symbols.phraseNumbers[p]?.map .phrase
    vanishing := (Array.range openings.size).map fun s =>
      isGroup s && !relabelled.contains s && !((symbols.phrases.getD s none).any (·.isClass)) }

end CompilingProxy.Grammar
