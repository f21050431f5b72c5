import CompilingProxy.Grammar.Kind
import CompilingProxy.Text.Edit

/-!
# Syntax trees

A tree covers byte ranges of the text that it was read from; the words themselves stay in the text.
-/

namespace CompilingProxy

/-- A piece of a module with the pieces that it is made of, in order. A missing node was put in
where the text lacks it, and takes no text. -/
structure Node where
  label : Label
  role : Option Role := none
  start : Nat
  stop : Nat
  missing : Bool := false
  children : List Node := []
deriving Repr, Inhabited

namespace Node

def isA (n : Node) (k : Kind) : Bool := n.label == .kind k

/-- Whether the node is that keyword or punctuation. -/
def isWord (n : Node) (text : String) : Bool := n.label == .word text

/-- Nodes of a kind, unlike keywords and punctuation. -/
def isNamed (n : Node) : Bool :=
  match n.label with
  | .kind _ => true
  | .word _ => false

def kind? (n : Node) : Option Kind :=
  match n.label with
  | .kind k => some k
  | .word _ => none

/-- Whether the node's kind is one of those. -/
def isOneOf (n : Node) (kinds : List Kind) : Bool :=
  match n.label with
  | .kind k => kinds.contains k
  | .word _ => false

def range (n : Node) : Range := ⟨n.start, n.stop⟩

/-- The text that the node covers. -/
def text (n : Node) (source : List Char) : String :=
  String.ofList (Text.slice source n.start n.stop)

def namedChildren (n : Node) : List Node := n.children.filter isNamed

/-- The first child that plays the role. -/
def child? (n : Node) (role : Role) : Option Node := n.children.find? (·.role == some role)

def childOf? (n : Node) (k : Kind) : Option Node := n.children.find? (·.isA k)

/-- Whether the word is one of the node's own. -/
def hasWord (n : Node) (text : String) : Bool := n.children.any (·.isWord text)

mutual

/-- Whether the node or one below it stands for text that could not be read. -/
def hasError (n : Node) : Bool :=
  match n with
  | ⟨label, _, _, _, missing, children⟩ =>
    label == .kind .error || missing || anyHasError children

/-- Whether one of the nodes has an error. -/
def anyHasError : List Node → Bool
  | [] => false
  | n :: ns => n.hasError || anyHasError ns

end

mutual

/-- How many levels of nodes there are. -/
def depth (n : Node) : Nat :=
  match n with
  | ⟨_, _, _, _, _, children⟩ => depthAll children + 1

/-- The depth of the deepest. -/
def depthAll : List Node → Nat
  | [] => 0
  | n :: ns => max n.depth (depthAll ns)

end

mutual

/-- The tokens of the tree that take text, in order. -/
def tokens (n : Node) : List Node :=
  match n with
  | ⟨label, role, start, stop, missing, []⟩ =>
    if start < stop then [⟨label, role, start, stop, missing, []⟩] else []
  | ⟨_, _, _, _, _, children⟩ => tokensOfAll children

/-- The tokens of the trees one after another. -/
def tokensOfAll : List Node → List Node
  | [] => []
  | n :: ns => n.tokens ++ tokensOfAll ns

end

mutual

/-- The first node that has such a child. -/
def parentOf? (p : Node → Bool) (n : Node) : Option Node :=
  match n with
  | ⟨label, role, start, stop, missing, children⟩ =>
    if children.any p then some ⟨label, role, start, stop, missing, children⟩
    else parentIn? p children

/-- The first such node in the trees. -/
def parentIn? (p : Node → Bool) : List Node → Option Node
  | [] => none
  | n :: ns => (n.parentOf? p).or (parentIn? p ns)

end

end Node

end CompilingProxy
