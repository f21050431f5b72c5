/-!
# Blank characters

The characters of Unicode's White_Space property, and text with them taken off its ends.
-/

namespace CompilingProxy.Text

/-- White_Space: the blanks of ASCII, next line, and the space separators and line separators. -/
def isBlank (c : Char) : Bool :=
  let n := c.val
  (0x09 ≤ n && n ≤ 0x0d) || n == 0x20 || n == 0x85 || n == 0xa0 || n == 0x1680 ||
    (0x2000 ≤ n && n ≤ 0x200a) || n == 0x2028 || n == 0x2029 || n == 0x202f || n == 0x205f ||
    n == 0x3000

/-- The blanks of ASCII, with vertical tab and form feed among them. -/
def isAsciiBlank (c : Char) : Bool :=
  c == ' ' || (0x09 ≤ c.val && c.val ≤ 0x0d)

/-- Takes the characters off both ends that satisfy the test. -/
def trimBy (p : Char → Bool) (cs : List Char) : List Char :=
  ((cs.dropWhile p).reverse.dropWhile p).reverse

def trim (cs : List Char) : List Char := trimBy isBlank cs

theorem trim_nil : trim [] = [] := rfl

/-- Case folding of ASCII letters, all other characters as they are. -/
def lowerAscii (cs : List Char) : List Char := cs.map Char.toLower

end CompilingProxy.Text
