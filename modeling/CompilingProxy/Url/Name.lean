import CompilingProxy.Url.Punycode
import CompilingProxy.Text.Direction
import CompilingProxy.Text.Fold
import CompilingProxy.Text.Joining

/-!
# Names of hosts

A name has labels between dots. It is folded, so that equal names are written the same, and a label
with characters beyond ASCII is written in ASCII behind a mark.
-/

namespace CompilingProxy.Host

open Text

/-- Characters that no name may hold. -/
def isForbidden (c : Char) : Bool :=
  c.val ≤ 0x20 || c.val == 0x7f ||
    ['#', '/', ':', '<', '>', '?', '@', '[', '\\', ']', '^', '|', '%'].contains c

/-- What a label in ASCII begins with that stands for another one. -/
def codeMark : List Char := "xn--".toList

/-- The labels longer than this have no form in ASCII, and no form in ASCII that is longer than
twice as much is read. -/
def labelLimit : Nat := 1000

/-- The label that is meant, which has to be folded already if it is written in ASCII. -/
def meant? (label : List Char) : Option (List Char) :=
  match dropFront? codeMark label with
  | none => some label
  | some code =>
    if 2 * labelLimit < code.length then none
    else do
      let label ← Punycode.decode? code
      if (← fold? label) = label && !label.contains '.' && (dropFront? codeMark label).isNone then
        some label
      else none

/-- Whether the characters of a label may stand where they do. -/
def isLabel (label : List Char) : Bool :=
  !label.any isForbidden && !label.head?.any isMark && joinersFit [] label

/-- The form of a label in ASCII, given what is meant. -/
def asciiLabel? (label meant : List Char) : Option (List Char) :=
  if label.all Punycode.isBasic then some label
  else if labelLimit < meant.length then none
  else some (codeMark ++ Punycode.encode meant)

/-- A name as it is written in ASCII. If a part of it is written from right to left, all labels have
to be readable in one way. -/
def asciiName? (name : List Char) : Option (List Char) := do
  let labels := splitOnChar '.' (← fold? name)
  let meant ← labels.mapM meant?
  let directions := meant.map fun label => label.map Direction.ofChar
  if !meant.all isLabel then none
  else if directions.any (·.any Direction.isRightToLeft) && !directions.all Direction.isReadable
  then none
  else return join ['.'] (← (labels.zip meant).mapM fun (label, meant) => asciiLabel? label meant)

end CompilingProxy.Host
