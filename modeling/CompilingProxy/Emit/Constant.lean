import CompilingProxy.Analysis.Basic
import CompilingProxy.Number.Reading
import CompilingProxy.Text.Quoted

/-!
# Constants of enums

The value of a member is written into the output when it can be computed from literals and from the
members before it.
-/

namespace CompilingProxy

open Text

/-- What a member of an enum is known to be: a number, or a string as it is written, in quotes. -/
inductive EnumValue where
  | number (x : Float)
  | string (literal : String)
deriving Repr, Inhabited

/-- The members whose values are known, the latest first. -/
structure EnumScope where
  enumName : String
  known : List (String × EnumValue) := []

namespace EnumScope

def get? (s : EnumScope) (name : String) : Option EnumValue := s.known.lookup name

def add (s : EnumScope) (name : String) (value : EnumValue) : EnumScope :=
  { s with known := (name, value) :: s.known }

end EnumScope

namespace EnumValue

def ofUnary? (operator : String) (x : Float) : Option Float :=
  match operator with
  | "-" => some (-x)
  | "+" => some x
  | "~" => some (Number.ofInt32 (~~~ Number.toInt32 x))
  | _ => none

/-- The value of an operator between numbers, if it is finite. -/
def ofBinary? (operator : String) (x y : Float) : Option Float :=
  let bits (f : Int32 → Int32 → Int32) : Option Float :=
    some (Number.ofInt32 (f (Number.toInt32 x) (Number.toInt32 y)))
  let value : Option Float :=
    match operator with
    | "+" => some (x + y)
    | "-" => some (x - y)
    | "*" => some (x * y)
    | "/" => some (x / y)
    | "%" => some (Number.remainder x y)
    | "|" => bits (· ||| ·)
    | "&" => bits (· &&& ·)
    | "^" => bits (· ^^^ ·)
    | "<<" => bits fun a b => a <<< (b &&& 31)
    | ">>" => bits fun a b => a >>> (b &&& 31)
    | _ => none
  value.filter Float.isFinite

mutual

/-- The value of an initialiser, if it is a constant. -/
def ofNode? (source : List Char) (scope : EnumScope) (n : Node) : Option EnumValue :=
  match n with
  | ⟨label, role, start, stop, missing, children⟩ =>
    let n : Node := ⟨label, role, start, stop, missing, children⟩
    let text := n.text source
    match n.kind? with
    | some .number => (Number.literal? text.toList).map .number
    | some .string => some (.string text)
    | some .templateString =>
      if n.namedChildren.isEmpty then
        some (.string (quoted (n.unquoted source)))
      else none
    | some .parenthesizedExpression => ofFirst? source scope children
    | some .identifier => scope.get? text
    | some .memberExpression => do
      let object ← n.child? .object
      let property ← n.child? .property
      if object.text source == scope.enumName then scope.get? (property.text source) else none
    | some .unaryExpression => do
      let operator ← n.child? .operator
      match ← ofRole? source scope .argument children with
      | .number x => (ofUnary? (operator.text source) x).map .number
      | .string _ => none
    | some .binaryExpression => do
      let operator ← n.child? .operator
      match ← ofRole? source scope .left children, ← ofRole? source scope .right children with
      | .number x, .number y => (ofBinary? (operator.text source) x y).map .number
      | _, _ => none
    | _ => none

/-- The value of the first of the nodes that is not a word. -/
def ofFirst? (source : List Char) (scope : EnumScope) : List Node → Option EnumValue
  | [] => none
  | n :: ns => if n.isNamed then ofNode? source scope n else ofFirst? source scope ns

/-- The value of the first of the nodes that plays the role. -/
def ofRole? (source : List Char) (scope : EnumScope) (role : Role) :
    List Node → Option EnumValue
  | [] => none
  | n :: ns =>
    if n.role == some role then ofNode? source scope n else ofRole? source scope role ns

end

end EnumValue

end CompilingProxy
