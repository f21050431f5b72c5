import CompilingProxy.Grammar.Token
import CompilingProxy.Grammar.Phrase

/-!
# Grammar rules

A rule says how a phrase is made of tokens and other phrases. Where a text can be read in two ways,
the strengths of the rules choose one, or else their weights, once both ways have been followed.
-/

namespace CompilingProxy

/-- The named strengths. Which of two is the greater hangs on the list that both stand in. -/
inductive Strength where
  | member | templateCall | call | new | unaryVoid | unary | binary | power | product | sum | shift
  | relation | equality | bitAnd | bitXor | bitOr | and | or | ternary | assign | literal | object
  | declaration | declare | extend | instantiation
  | plain (n : Int)
deriving DecidableEq, Hashable, Repr, Inhabited

/-- Whether operators of one strength group to the left or to the right. -/
inductive Side where
  | left
  | right
deriving DecidableEq, Hashable, Repr, Inhabited

inductive Rule where
  | empty
  | token (t : Token)
  | phrase (p : Phrase)
  | seq (first second : Rule)
  | alt (first second : Rule)
  /-- As often as it goes, but at least once. -/
  | repeated (rule : Rule)
  | strong (strength : Strength) (side : Option Side) (rule : Rule)
  | weighed (weight : Int) (rule : Rule)
  /-- What is read plays that part in its parent. -/
  | role (role : Role) (rule : Rule)
  /-- What is read is labelled so. -/
  | relabel (label : Label) (rule : Rule)
deriving DecidableEq, Hashable, Repr, Inhabited

namespace Rule

def word (text : String) : Rule := .token (.word text)

def node (kind : Kind) : Rule := .phrase (.node kind)

def group (g : Group) : Rule := .phrase (.group g)

/-- One rule behind the other. -/
def all : List Rule → Rule
  | [] => .empty
  | [rule] => rule
  | rule :: rules => .seq rule (all rules)

/-- Any of the rules. -/
def any : List Rule → Rule
  | [] => .empty
  | [rule] => rule
  | rule :: rules => .alt rule (any rules)

def words (texts : List String) : Rule := any (texts.map word)

def opt (rule : Rule) : Rule := .alt rule .empty

def many (rule : Rule) : Rule := opt (.repeated rule)

def optWord (text : String) : Rule := opt (word text)

/-- One item or more with separators between. -/
def separated (separator item : Rule) : Rule := .seq item (many (.seq separator item))

/-- One item or more with commas between. -/
def commaList (item : Rule) : Rule := separated (word ",") item

/-- Any number of items with commas between. -/
def commaItems (item : Rule) : Rule := opt (commaList item)

/-- A strength without a side. -/
def firm (strength : Strength) (rule : Rule) : Rule := .strong strength none rule

def leftward (strength : Strength) (rule : Rule) : Rule := .strong strength (some Side.left) rule

def rightward (strength : Strength) (rule : Rule) : Rule := .strong strength (some Side.right) rule

/-- A strength of zero that groups to the left. -/
def toLeft (rule : Rule) : Rule := leftward (.plain 0) rule

/-- A strength of zero that groups to the right. -/
def toRight (rule : Rule) : Rule := rightward (.plain 0) rule

def relabelled (kind : Kind) (rule : Rule) : Rule := .relabel (.kind kind) rule

end Rule

end CompilingProxy
