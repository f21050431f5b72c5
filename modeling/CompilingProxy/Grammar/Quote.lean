/-!
# Quotes

A string stands between two quotes of one kind, so that the other kind may stand in it.
-/

namespace CompilingProxy

inductive Quote where
  | single
  | double
deriving DecidableEq, Hashable, Repr, Inhabited

namespace Quote

def char : Quote → Char
  | single => '\''
  | double => '"'

def text (q : Quote) : String := String.singleton q.char

end Quote

end CompilingProxy
