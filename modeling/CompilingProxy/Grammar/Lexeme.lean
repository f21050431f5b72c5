import CompilingProxy.Grammar.Token
import CompilingProxy.Text.Blank
import CompilingProxy.Text.Offset
import CompilingProxy.Text.Split

/-!
# Lexemes

How many characters a token takes when it is looked for at one place. Every function is given the
text from the place on; none means that no such token stands there.
-/

namespace CompilingProxy.Lexeme

open Text

/-- Space between tokens: blanks, of which next line is none here, and invisible joiners. -/
def isSpace (c : Char) : Bool :=
  (isBlank c && c.val != 0x85) || c.val == 0xfeff || c.val == 0x2060 || c.val == 0x200b

def endsLine (c : Char) : Bool :=
  c == '\n' || c == '\r' || c.val == 0x2028 || c.val == 0x2029

/-- The characters of words other than those of escapes. -/
def isWordPart (c : Char) : Bool :=
  if c.val < 0x80 then c.isAlphanum || c == '_' || c == '$' || c.val == 0x7f
  else !isSpace c

def isWordStart (c : Char) : Bool := isWordPart c && !c.isDigit

/-- Whether the text of a token is that of a word. -/
def isKeyword (text : String) : Bool := text.toList.all isWordPart

def isHexDigit (c : Char) : Bool :=
  c.isDigit || ('a' ≤ c && c ≤ 'f') || ('A' ≤ c && c ≤ 'F')

def isOctalDigit (c : Char) : Bool := '0' ≤ c && c ≤ '7'

/-- How many characters at the front satisfy the test, and the number given. -/
def runFrom (p : Char → Bool) : (n : Nat) → List Char → Nat
  | n, [] => n
  | n, c :: cs => if p c then runFrom p (n + 1) cs else n

/-- How many characters at the front satisfy the test. -/
def run (p : Char → Bool) (cs : List Char) : Nat := runFrom p 0 cs

/-- `\uXXXX` or `\u{X…}`. -/
def unicodeEscape? : List Char → Option Nat
  | '\\' :: 'u' :: '{' :: cs =>
    let digits := run isHexDigit cs
    if digits > 0 && (cs.drop digits).head? == some '}' then some (digits + 4) else none
  | '\\' :: 'u' :: a :: b :: c :: d :: _ => if [a, b, c, d].all isHexDigit then some 6 else none
  | _ => none

/-- As many word characters and escapes as stand there. -/
def wordParts : (fuel : Nat) → List Char → Nat
  | 0, _ => 0
  | _, [] => 0
  | fuel + 1, c :: rest =>
    if isWordPart c then wordParts fuel rest + 1
    else
      match unicodeEscape? (c :: rest) with
      | some n => n + wordParts fuel (rest.drop (n - 1))
      | none => 0

/-- More characters than any word has to be looked through. -/
def wordFuel : Nat := 1000000

/-- A word: a name or a keyword. -/
def word? (cs : List Char) : Option Nat :=
  match cs with
  | [] => none
  | c :: _ =>
    if isWordStart c || (unicodeEscape? cs).isSome then some (wordParts wordFuel cs) else none

/-- A name behind a number sign. -/
def hashWord? : List Char → Option Nat
  | '#' :: cs => (word? cs).map (· + 1)
  | _ => none

/-- The characters of a literal, if they stand there. -/
def literal? (chars cs : List Char) : Option Nat :=
  if beginsWith chars cs then some chars.length else none

/-! ### Numbers -/

/-- Digits behind a digit, with single underscores between them. -/
def moreDigits (isDigit : Char → Bool) : List Char → Nat
  | [] => 0
  | [c] => if isDigit c then 1 else 0
  | c :: d :: rest =>
    if isDigit c then moreDigits isDigit (d :: rest) + 1
    else if c == '_' && isDigit d then moreDigits isDigit rest + 2
    else 0

/-- Digits, with single underscores between them. -/
def digits? (isDigit : Char → Bool) : List Char → Option Nat
  | c :: cs => if isDigit c then some (moreDigits isDigit cs + 1) else none
  | [] => none

/-- A mark of an exponent with its digits. -/
def exponent? : List Char → Option Nat
  | e :: cs =>
    if e == 'e' || e == 'E' then
      match cs with
      | '+' :: rest | '-' :: rest => (digits? Char.isDigit rest).map (· + 2)
      | rest => (digits? Char.isDigit rest).map (· + 1)
    else none
  | [] => none

/-- A whole number to which a fraction or an exponent may be added: nought, or digits without more
than one nought in front. -/
def whole? (cs : List Char) : Option Nat :=
  let behind (cs : List Char) : Nat :=
    match cs with
    | '_' :: rest => ((digits? Char.isDigit rest).map (· + 1)).getD 0
    | rest => (digits? Char.isDigit rest).getD 0
  match cs with
  | '0' :: d :: rest =>
    if d.isDigit && d != '0' then some (behind rest + 2) else some 1
  | '0' :: [] => some 1
  | d :: rest => if d.isDigit then some (behind rest + 1) else none
  | [] => none

/-- A whole number, a fraction, an exponent: how many characters they take together. -/
def decimal? (cs : List Char) : Option Nat :=
  let fraction (cs : List Char) : Option Nat := digits? Char.isDigit cs
  match cs with
  | '.' :: rest =>
    (fraction rest).map fun n => 1 + n + (exponent? (rest.drop n)).getD 0
  | _ =>
    (whole? cs).bind fun n =>
      match cs.drop n with
      | '.' :: rest =>
        let m := (fraction rest).getD 0
        some (n + 1 + m + (exponent? (rest.drop m)).getD 0)
      | rest => (exponent? rest).map (n + ·)

/-- The greatest of some lengths. -/
def longest (lengths : List (Option Nat)) : Option Nat :=
  (lengths.filterMap id).max?

/-- A number in base ten, two, eight or sixteen. -/
def number? (cs : List Char) : Option Nat :=
  let based : Option Nat :=
    match cs with
    | '0' :: mark :: rest =>
      if mark == 'x' || mark == 'X' then (digits? isHexDigit rest).map (· + 2)
      else if mark == 'o' || mark == 'O' then (digits? isOctalDigit rest).map (· + 2)
      else if mark == 'b' || mark == 'B' then
        (digits? (fun c => c == '0' || c == '1') rest).map (· + 2)
      else none
    | _ => none
  let plain := digits? Char.isDigit cs
  let big (length : Option Nat) : Option Nat :=
    length.bind fun n => if (cs.drop n).head? == some 'n' then some (n + 1) else none
  longest [based, plain, big based, big plain, decimal? cs]

/-! ### Text in quotes -/

/-- As many characters as stand there, if any. -/
def part? (n : Nat) : Option Nat := if n = 0 then none else some n

/-- The characters of a string up to its end, its line's end or an escape. -/
def stringPart? (quote : Char) (cs : List Char) : Option Nat :=
  part? (run (fun c => !(c == quote || c == '\\' || c == '\n' || c == '\r')) cs)

/-- An escape in a string or template. -/
def escape? : List Char → Option Nat
  | '\\' :: 'x' :: a :: b :: _ => if isHexDigit a && isHexDigit b then some 4 else none
  | '\\' :: 'u' :: rest => unicodeEscape? ('\\' :: 'u' :: rest)
  | '\\' :: c :: rest =>
    if isOctalDigit c then some (2 + min 2 (run isOctalDigit rest))
    else if c == 'x' then none
    else if c == '\r' || c == '?' then
      match rest with
      | d :: _ => if d == '\n' || d.val == 0x2028 || d.val == 0x2029 then some 3 else some 2
      | [] => some 2
    else some 2
  | _ => none

/-- The characters of an attribute's string up to its end or what may be a character reference. -/
def attributeChars (quote : Char) : List Char → Nat
  | [] => 0
  | [c] => if c == quote || c == '&' then 0 else 1
  | c :: d :: rest =>
    if c == quote then 0
    else if c == '&' then
      if d == '#' || d.isAlpha then 0 else attributeChars quote rest + 2
    else attributeChars quote (d :: rest) + 1

def attributePart? (quote : Char) (cs : List Char) : Option Nat :=
  part? (attributeChars quote cs)

/-- A class of characters in a regular expression, from behind its bracket on to its end. -/
def regexClass? : List Char → Option Nat
  | ']' :: _ => some 1
  | '\\' :: c :: cs => if c == '\n' then none else (regexClass? cs).map (· + 2)
  | c :: cs => if c == '\n' || c == '\\' then none else (regexClass? cs).map (· + 1)
  | [] => none

/-- The characters between the slashes of a regular expression. -/
def regexBody : (fuel : Nat) → List Char → Nat
  | 0, _ => 0
  | fuel + 1, cs =>
    match cs with
    | '[' :: rest =>
      match regexClass? rest with
      | some n => 1 + n + regexBody fuel (rest.drop n)
      | none => 0
    | '\\' :: c :: rest => if c == '\n' then 0 else 2 + regexBody fuel rest
    | c :: rest =>
      if c == '\n' || c == '/' || c == '\\' then 0 else 1 + regexBody fuel rest
    | [] => 0

/-! ### Comments -/

/-- The rest of a comment between stars, with its end, and the number given. -/
def blockRest? : (n : Nat) → List Char → Option Nat
  | n, '*' :: '/' :: _ => some (n + 2)
  | n, _ :: cs => blockRest? (n + 1) cs
  | _, [] => none

def comment? : List Char → Option Nat
  | '/' :: '/' :: cs => some (2 + run (!endsLine ·) cs)
  | '/' :: '*' :: cs => blockRest? 2 cs
  | _ => none

/-! ### Elements -/

/-- A character written by its name or number, such as `&amp;`. -/
def characterReference? : List Char → Option Nat
  | '&' :: '#' :: cs =>
    let closed (front : Nat) (isDigit : Char → Bool) (limit : Nat) (cs : List Char) : Option Nat :=
      let n := run isDigit cs
      if 1 ≤ n && n ≤ limit && (cs.drop n).head? == some ';' then some (front + n + 1) else none
    match cs with
    | 'x' :: rest | 'X' :: rest => closed 3 isHexDigit 6 rest
    | rest => closed 2 Char.isDigit 5 rest
  | '&' :: cs =>
    let n := run Char.isAlpha cs
    if 1 ≤ n && n ≤ 30 && (cs.drop n).head? == some ';' then some (n + 2) else none
  | _ => none

/-- A name in ASCII that has a dash inside. -/
def dashedWord? (cs : List Char) : Option Nat :=
  let isPart (c : Char) : Bool := c.isAlphanum || c == '_' || c == '$'
  match cs with
  | [] => none
  | c :: _ =>
    if isPart c && !c.isDigit then
      let n := run isPart cs
      let rest := cs.drop n
      if rest.head? == some '-' then some (n + run (fun c => isPart c || c == '-') rest) else none
    else none

/-- How many characters the token takes; marks take none by themselves. -/
def taken? (t : Token) (cs : List Char) : Option Nat :=
  match t with
  | .word text => literal? text.toList cs
  | .name => word? cs
  | .hashBangLine => (literal? ['#', '!'] cs).map fun n => n + run (· != '\n') (cs.drop n)
  | .hashName => hashWord? cs
  | .number => number? cs
  | .comment => comment? cs
  | .stringPart quote => stringPart? quote.char cs
  | .attributePart quote => attributePart? quote.char cs
  | .escape => escape? cs
  | .regexPattern => part? (regexBody wordFuel cs)
  | .regexEnd => literal? ['/'] cs
  | .regexFlags => part? (run (fun c => 'a' ≤ c && c ≤ 'z') cs)
  | .dashedName => dashedWord? cs
  | .characterReference => characterReference? cs
  | _ => none

end CompilingProxy.Lexeme
