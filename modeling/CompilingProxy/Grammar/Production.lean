import CompilingProxy.Grammar.Language
import CompilingProxy.Grammar.TokenSet
import Std.Data.HashMap
import Std.Data.HashSet

/-!
# Productions

A production is one way to make a phrase: a row of symbols without choices or repetitions. Every
rule stands for finitely many of them, once each repetition is a phrase of its own, made of two
shorter repetitions or of one thing.
-/

namespace CompilingProxy.Grammar

open Std (HashMap HashSet)

/-- The number of a token or phrase; tokens come first. -/
abbrev Symbol := Nat

/-- One symbol of a production with what the rule says about it. -/
structure Step where
  symbol : Symbol
  strength : Option Strength := none
  side : Option Side := none
  relabel : Option Label := none
  role : Option Role := none
deriving DecidableEq, Hashable, Repr, Inhabited

structure Production where
  steps : List Step
  weight : Int := 0
deriving DecidableEq, Hashable, Repr, Inhabited

/-- The weight that says more: the one farther from zero, the first of two as far. -/
def weightier (a b : Int) : Int := if a.natAbs < b.natAbs then b else a

/-! ### Repetitions as phrases -/

/-- The repetitions found so far, by what they repeat. -/
structure Repetitions where
  numbers : HashMap Rule Nat := {}
  rules : Array Rule := #[]

/-- Puts a phrase of its own in the place of each repetition; equal ones share it. -/
def liftRepetitions : Rule → StateM Repetitions Rule
  | .seq a b => return .seq (← liftRepetitions a) (← liftRepetitions b)
  | .alt a b => return .alt (← liftRepetitions a) (← liftRepetitions b)
  | .strong s side rule => return .strong s side (← liftRepetitions rule)
  | .weighed w rule => return .weighed w (← liftRepetitions rule)
  | .role role rule => return .role role (← liftRepetitions rule)
  | .relabel label rule => return .relabel label (← liftRepetitions rule)
  | .repeated rule => do
    let inner ← liftRepetitions rule
    match (← get).numbers[inner]? with
    | some n => return .phrase (.repetition n)
    | none =>
      let n := (← get).rules.size
      let self := Rule.phrase (.repetition n)
      modify fun r =>
        { numbers := r.numbers.insert inner n, rules := r.rules.push (.alt (.seq self self) inner) }
      return self
  | rule => return rule

/-! ### Numbering -/

/-- Gathers the tokens of a rule in order, with how often each stands in it. -/
def gatherTokens : Rule → HashMap Token Nat × Array Token → HashMap Token Nat × Array Token
  | .token t, (uses, tokens) =>
    match uses[t]? with
    | some n => (uses.insert t (n + 1), tokens)
    | none => (uses.insert t 1, tokens.push t)
  | .seq a b, acc | .alt a b, acc => gatherTokens b (gatherTokens a acc)
  | .strong _ _ rule, acc | .weighed _ rule, acc | .role _ rule, acc | .relabel _ rule, acc
  | .repeated rule, acc => gatherTokens rule acc
  | .empty, acc | .phrase _, acc => acc

/-- The symbols with their numbers. The end of the text is number zero, and names come next. -/
structure Symbols where
  tokens : Array Token
  tokenNumbers : HashMap Token Nat
  phraseNumbers : HashMap Phrase Nat
  /-- What a leaf or node of the symbol is labelled with; none if it has no node of its own. -/
  labels : Array (Option Label)
  /-- The phrases by number, without those that are only a token. -/
  phrases : Array (Option Phrase)
deriving Inhabited

/-- The tokens that may stand between any others. -/
def Symbols.remarks (symbols : Symbols) : TokenSet :=
  Token.remarks.foldl (fun set t => set ||| 1 <<< symbols.tokenNumbers.getD t 0) 0

/-- The phrase that is nothing but a token of its own. -/
def soleToken? (uses : HashMap Token Nat) (rule : Rule) : Option Token :=
  match rule with
  | .token t => if uses[t]? == some 1 then some t else none
  | _ => none

/-- Numbers the end of the text, names, all other tokens, marks, and then phrases. -/
def numberSymbols (grammar : List (Phrase × Rule)) (repetitions : Nat) : Symbols :=
  let (uses, found) := grammar.foldl (fun acc (_, rule) => gatherTokens rule acc) ({}, #[])
  let others := found.filter fun t => t != .name && !Token.marks.contains t
  let tokens := #[Token.nothing, .name] ++ others ++ Token.marks.toArray
  let tokenNumbers := tokens.zipIdx.foldl (fun m (t, i) => m.insert t i) {}
  let own := grammar.filterMap fun (p, rule) => (soleToken? uses rule).map fun t => (p, t)
  let labels := tokens.map fun t =>
    match own.find? (·.2 == t) with
    | some (p, _) => p.label?
    | none => t.label?
  let labels := labels.set! 0 none
  let phrases := (grammar.filterMap fun (p, rule) =>
      if (soleToken? uses rule).isSome then none else some p) ++
    (List.range repetitions).map .repetition
  let phraseNumbers := phrases.zipIdx.foldl (fun m (p, i) => m.insert p (tokens.size + i)) {}
  let phraseNumbers := own.foldl (fun m (p, t) => m.insert p (tokenNumbers.getD t 0)) phraseNumbers
  { tokens, tokenNumbers, phraseNumbers,
    labels := labels ++ (phrases.map Phrase.label?).toArray,
    phrases := Array.replicate tokens.size none ++ (phrases.map some).toArray }

/-! ### Rules as productions -/

/-- What the rules around a symbol say about it. -/
structure Surroundings where
  strength : Option Strength := none
  side : Option Side := none
  relabel : Option Label := none
  role : Option Role := none

/-- Changes the last step. -/
def changeLast (f : Step → Step) : List Step → List Step
  | [] => []
  | [step] => [f step]
  | step :: steps => step :: changeLast f steps

/-- The productions of a rule. A strength that does not reach up to the end of the production holds
for what comes before the last step of its rule. -/
def expandRule (symbols : Symbols) : (atEnd : Bool) → Surroundings → Rule → List Production
  | _, _, .empty | _, _, .repeated _ => [⟨[], 0⟩]
  | _, s, .token t =>
    [⟨[⟨symbols.tokenNumbers.getD t 0, s.strength, s.side, s.relabel, s.role⟩], 0⟩]
  | _, s, .phrase p =>
    [⟨[⟨symbols.phraseNumbers.getD p 0, s.strength, s.side, s.relabel, s.role⟩], 0⟩]
  | atEnd, s, .seq a b =>
    let backs := expandRule symbols atEnd s b
    (expandRule symbols false s a).flatMap fun front =>
      backs.map fun back => ⟨front.steps ++ back.steps, weightier front.weight back.weight⟩
  | atEnd, s, .alt a b => expandRule symbols atEnd s a ++ expandRule symbols atEnd s b
  | atEnd, s, .strong strength side rule =>
    let inner := { s with strength := some strength, side := side.or s.side }
    let ended (step : Step) : Step :=
      { step with strength := s.strength, side := if side.isSome then s.side else step.side }
    (expandRule symbols atEnd inner rule).map fun p =>
      if atEnd then p else { p with steps := changeLast ended p.steps }
  | atEnd, s, .weighed weight rule =>
    (expandRule symbols atEnd s rule).map fun p => { p with weight := weightier weight p.weight }
  | atEnd, s, .role role rule => expandRule symbols atEnd { s with role := some role } rule
  | atEnd, s, .relabel label rule => expandRule symbols atEnd { s with relabel := some label } rule

/-- Each production once. -/
def distinct (productions : List Production) : Array Production :=
  (productions.foldl (fun (seen, out) p =>
    if seen.contains p then (seen, out) else (seen.insert p, out.push p))
    (({} : HashSet Production), (#[] : Array Production))).2

/-- A step in the place of which the parts of an inline phrase stand, put between what is before and
behind it. -/
def splice (before : List Step) (step : Step) (behind : List Step) (weight : Int)
    (inner : Production) : Production :=
  let carried := inner.steps.map fun i =>
    { i with relabel := step.relabel.or i.relabel, role := step.role.or i.role }
  let last (i : Step) : Step :=
    { i with strength := i.strength.or step.strength, side := i.side.or step.side }
  ⟨before ++ changeLast last carried ++ behind, weightier weight inner.weight⟩

/-- Puts the parts of inline phrases in their places. `depth` bounds how deep they stand in each
other. -/
def inlined (parts : Symbol → Option (Array Production)) :
    (depth : Nat) → Production → List Production
  | 0, p => [p]
  | depth + 1, p =>
    let before := p.steps.takeWhile fun step => (parts step.symbol).isNone
    match p.steps.drop before.length with
    | [] => [p]
    | step :: behind =>
      ((parts step.symbol).getD #[]).toList.flatMap fun inner =>
        inlined parts depth (splice before step behind p.weight inner)

/-- The productions of every phrase, by number. -/
structure Productions where
  symbols : Symbols
  ofSymbol : Array (Array Production)

/-- How many inline phrases one production may hold, those inside of others included. -/
def inlineDepth : Nat := 16

def productions (elements : Bool) : Productions :=
  let table : HashMap Phrase Rule := HashMap.ofList (rules elements)
  let grammar := order.map fun p => (p, table.getD p .empty)
  let lift : StateM Repetitions (List (Phrase × Rule)) :=
    grammar.mapM fun (p, rule) => do return (p, ← liftRepetitions rule)
  let (lifted, repetitions) := lift.run {}
  let symbols := numberSymbols grammar repetitions.rules.size
  let all := HashMap.ofList (lifted ++
    repetitions.rules.toList.zipIdx.map fun (rule, i) => (Phrase.repetition i, rule))
  let plain := symbols.phrases.map fun p =>
    match p with
    | none => #[]
    | some p => distinct (expandRule symbols true {} (all.getD p .empty))
  let inlines := symbols.phrases.map fun p => p.any Phrase.isInline
  let parts (s : Symbol) : Option (Array Production) :=
    if inlines.getD s false then plain[s]? else none
  { symbols,
    ofSymbol := plain.zipIdx.map fun (ps, s) =>
      if inlines.getD s false then #[]
      else distinct (ps.toList.flatMap (inlined parts inlineDepth)) }

end CompilingProxy.Grammar
