import Std.Data.HashMap

/-!
# Sets of tokens

A set of tokens is a number whose bits say which tokens are in it. Few sets come up in a grammar,
each of them many times; a table gives them numbers, so that equal sets have equal numbers.
-/

namespace CompilingProxy.Grammar

open Std (HashMap)

/-- A set of tokens, as the bits of a number. -/
abbrev TokenSet := Nat

theorem TokenSet.sub_log2_lt {set : TokenSet} (h : set ≠ 0) : set - Nat.pow 2 set.log2 < set :=
  Nat.sub_lt (Nat.pos_of_ne_zero h) (Nat.two_pow_pos set.log2)

/-- Puts the members of a set before those given, in order. -/
def TokenSet.membersBefore (set : TokenSet) (behind : List Nat) : List Nat :=
  if set = 0 then behind
  else (set - Nat.pow 2 set.log2).membersBefore (set.log2 :: behind)
termination_by set
decreasing_by exact TokenSet.sub_log2_lt ‹_›

/-- The members of a set, in order. -/
def TokenSet.members (set : TokenSet) : List Nat := set.membersBefore []

/-- Whether a member of the set passes the test. -/
def TokenSet.any (p : Nat → Bool) (set : TokenSet) : Bool :=
  if set = 0 then false
  else p set.log2 || TokenSet.any p (set - Nat.pow 2 set.log2)
termination_by set
decreasing_by exact TokenSet.sub_log2_lt ‹_›

/-- Sets by number. -/
structure SetTable where
  sets : Array TokenSet := #[]
  /-- The members of each set, in order. -/
  lists : Array (List Nat) := #[]
  numbers : HashMap TokenSet Nat := {}
  unions : HashMap Nat Nat := {}

namespace SetTable

def get (t : SetTable) (n : Nat) : TokenSet := t.sets.getD n 0

def members (t : SetTable) (n : Nat) : List Nat := t.lists.getD n []

/-- The number of a set. -/
def number (t : SetTable) (set : TokenSet) : Nat × SetTable :=
  match t.numbers[set]? with
  | some n => (n, t)
  | none =>
    let n := t.sets.size
    (n, { t with
      sets := t.sets.push set, lists := t.lists.push (TokenSet.members set)
      numbers := t.numbers.insert set n })

/-- More sets than there can be. -/
def limit : Nat := 1048576

/-- The number of the union of two sets. -/
def union (t : SetTable) (a b : Nat) : Nat × SetTable :=
  if a == b then (a, t)
  else
    let key := a * limit + b
    match t.unions[key]? with
    | some n => (n, t)
    | none =>
      let (n, t) := t.number (t.get a ||| t.get b)
      (n, { t with unions := t.unions.insert key n })

end SetTable

end CompilingProxy.Grammar
