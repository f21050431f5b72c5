import CompilingProxy.Grammar.Automaton
import CompilingProxy.Grammar.Lexeme

/-!
# Scanning

Which token stands at a place hangs on which tokens fit there. Marks are looked for first, since
they decide where a statement may end; then, of the tokens that fit, the longest is taken. Where
none fits, any token is taken, and characters that begin none are passed over.
-/

namespace CompilingProxy

/-- A place in a text: its character, its byte and its line, counted from zero. -/
structure Mark where
  index : Nat := 0
  offset : Nat := 0
  row : Nat := 0
deriving DecidableEq, Repr, Inhabited

/-- A text with what stands from each of its characters on. -/
structure Source where
  tails : Array (List Char)
deriving Inhabited

namespace Source

/-- What stands from each character on, the last of them first. -/
def tailsOf : List Char → Array (List Char) → Array (List Char)
  | [], tails => tails.push []
  | c :: cs, tails => tailsOf cs (tails.push (c :: cs))

def ofList (text : List Char) : Source := ⟨tailsOf text #[]⟩

def behind (s : Source) (m : Mark) : List Char := s.tails.getD m.index []

end Source

namespace Mark

/-- The place so many characters farther on, where they stand at the front of the text. -/
def past : (count : Nat) → List Char → Mark → Mark
  | count + 1, c :: cs, m =>
    past count cs ⟨m.index + 1, m.offset + c.utf8Size, if c == '\n' then m.row + 1 else m.row⟩
  | _, _, m => m

def farther (m : Mark) (s : Source) (count : Nat) : Mark := past count (s.behind m) m

end Mark

namespace Grammar

open Lexeme

/-- What is looked for in a state: words of punctuation, tokens of other sorts, and marks. -/
structure Wanted where
  punctuation : List (List Char × Symbol) := []
  others : List (Token × Symbol) := []
  marks : List Token := []
  /-- Whether operators fit, so that an operand stands before. -/
  afterOperand : Bool := false
deriving Inhabited

/-- A token that was found: how many characters are passed over before it, and how many it takes. -/
structure Found where
  symbol : Symbol
  skipped : Nat
  length : Nat
deriving Repr, Inhabited

namespace Wanted

/-- Adds names to what is looked for. -/
def addName (w : Wanted) : Wanted :=
  if w.others.any (·.1 == .name) then w else { w with others := (.name, 1) :: w.others }

/-- Adds a token to what is looked for. Keywords are names with a known text. -/
def add (w : Wanted) (t : Token) (s : Symbol) : Wanted :=
  match t with
  | .word text =>
    let w := if text == "||" then { w with afterOperand := true } else w
    if isKeyword text then w.addName
    else { w with punctuation := (text.toList, s) :: w.punctuation }
  | .name => w.addName
  | .lineEnd | .templatePart | .question | .markupComment | .elementText | .signatureEnd
  | .nothing => { w with marks := t :: w.marks }
  | t => { w with others := (t, s) :: w.others }

/-- What is looked for where these tokens fit. -/
def ofSet (symbols : Symbols) (set : TokenSet) : Wanted :=
  (TokenSet.members set).foldl (fun w s =>
    if s == 0 then w else w.add (symbols.tokens.getD s .nothing) s) {}

def wants (w : Wanted) (t : Token) : Bool := w.marks.contains t

end Wanted

/-! ### Marks -/

/-- The blanks of ASCII, which alone count as blanks between a token and a mark. -/
def isMarkBlank (c : Char) : Bool := Text.isAsciiBlank c

/-- The rest of a comment between stars, which may end with the text. -/
def passBlock : List Char → List Char
  | '*' :: '/' :: cs => cs
  | _ :: cs => passBlock cs
  | [] => []

/-- Passes over blanks and comments: what stands behind them, and whether there was a comment up to
the end of a line. None at a slash that begins no comment. -/
def passComments : (fuel : Nat) → (commented : Bool) → List Char → Option (List Char × Bool)
  | 0, _, _ => none
  | fuel + 1, commented, cs =>
    match cs.dropWhile isMarkBlank with
    | '/' :: '/' :: rest => passComments fuel true (rest.dropWhile (· != '\n'))
    | '/' :: '*' :: rest => passComments fuel commented (passBlock rest)
    | '/' :: _ => none
    | rest => some (rest, commented)

/-- Whether a statement may end before this text at the head of a line. What does not begin a
statement carries the one before on; `rest` is how far one has to look to see it. -/
def beginsStatement (w : Wanted) (cs : List Char) : Bool × List Char :=
  match cs with
  | [] => (true, cs)
  | c :: rest =>
    if ['`', ',', '.', ';', '*', '%', '>', '<', '=', '?', '^', '|', '&', '/', ':'].contains c then
      (false, cs)
    else if c == '{' then (!w.wants .signatureEnd, cs)
    else if c == '(' || c == '[' then (!w.afterOperand, cs)
    else if c == '+' || c == '-' then (rest.head? == some c, rest)
    else if c == '!' then (rest.head? != some '=', rest)
    else if c == 'i' then
      match rest with
      | 'n' :: rest =>
        if !(rest.head?.any Char.isAlpha) then (false, rest)
        else
          match Text.dropFront? "stanceof".toList rest with
          | none => (true, rest)
          | some rest => (rest.head?.any Char.isAlpha, rest)
      | _ => (true, rest)
    else (true, cs)

/-- Whether a statement ends here though no semicolon stands here: the text ends, a block ends, or
the line ends and the next one does not carry it on. Also what was looked at last, and whether a
comment was passed over. -/
def lineEnds (w : Wanted) : List Char → Bool × List Char × Bool
  | [] => (true, [], false)
  | c :: cs =>
    if c == '}' then
      let rest := cs.dropWhile isMarkBlank
      (rest.head? != some ':' || w.afterOperand, rest, false)
    else if !isMarkBlank c then (false, c :: cs, false)
    else if c == '\n' then
      match passComments (cs.length + 1) false cs with
      | none => (false, [], false)
      | some (rest, commented) =>
        let (ends, rest) := beginsStatement w rest
        (ends, rest, commented)
    else lineEnds w cs

/-- Whether a question mark asks for two branches: no mark of an optional name follows it. -/
def asksBranches (cs : List Char) : Bool :=
  match cs with
  | '?' :: rest =>
    if rest.head? == some '?' || rest.head? == some '.' then false
    else
      match rest.dropWhile isMarkBlank with
      | ':' :: _ | ')' :: _ | ',' :: _ => false
      | '.' :: behind => behind.head?.any Char.isDigit
      | _ => true
  | _ => false

/-- The characters of a template up to its end, a substitution or an escape; none if the text ends
before. -/
def templateChars? : (n : Nat) → List Char → Option Nat
  | _, [] => none
  | n, '$' :: '{' :: _ => some n
  | n, c :: cs => if c == '`' || c == '\\' then some n else templateChars? (n + 1) cs

/-- Whether text between elements says anything: blanks around a line's end do not. -/
def saysText : (atLineStart : Bool) → List Char → Bool
  | _, [] => false
  | atLineStart, c :: cs =>
    if c == '\n' then saysText true cs
    else if atLineStart && isMarkBlank c then saysText true cs
    else true

/-- Text between elements. -/
def elementText? (cs : List Char) : Option Nat :=
  let text := cs.takeWhile fun c => !(['<', '>', '{', '}', '&'].contains c)
  if saysText false text then some text.length else none

/-- A comment as in markup, up to the end of its line. -/
def markupComment? (cs : List Char) : Option Nat :=
  let line (n : Nat) : Nat :=
    n + run (fun c => !(c == '\n' || c.val == 0x2028 || c.val == 0x2029)) (cs.drop n)
  if Text.beginsWith "<!--".toList cs then some (line 4)
  else if Text.beginsWith "-->".toList cs then some (line 3)
  else none

/-- A mark that was found: the mark, the characters passed over before it and those that it takes.
-/
abbrev FoundMark := Token × Nat × Nat

def question? (cs behind : List Char) : Option FoundMark :=
  let ahead := behind.dropWhile isMarkBlank
  if asksBranches ahead then some (.question, cs.length - ahead.length, 1) else none

/-- Looks for the marks that are wanted. -/
def findMark? (w : Wanted) (cs : List Char) : Option FoundMark :=
  if w.wants .templatePart then
    if w.wants .lineEnd then none
    else
      match templateChars? 0 cs with
      | some (n + 1) => some (.templatePart, 0, n + 1)
      | _ => none
  else
    let text := if w.wants .elementText then elementText? cs else none
    match text with
    | some n => some (.elementText, 0, n)
    | none =>
      if w.wants .lineEnd || w.wants .signatureEnd then
        let (ends, rest, commented) := lineEnds w cs
        if ends then some (.lineEnd, 0, 0)
        else if !commented && w.wants .question && rest.head? == some '?' then question? cs rest
        else none
      else if w.wants .question then question? cs cs
      else if w.wants .markupComment && !w.afterOperand &&
          !w.others.any fun (t, _) => t == .escape || t == .regexPattern then
        let ahead := cs.dropWhile fun c => isMarkBlank c || c.val == 0x2028 || c.val == 0x2029
        (markupComment? ahead).map fun n => (.markupComment, cs.length - ahead.length, n)
      else none

/-! ### Tokens -/

/-- Tokens that must follow the last one without space between. -/
def isGlued : Token → Bool
  | .stringPart _ | .attributePart _ | .escape | .regexPattern | .regexEnd | .regexFlags => true
  | _ => false

/-- A token with the higher rank is taken before a longer one. -/
def rankOf : Token → Int
  | .stringPart _ | .attributePart _ | .regexEnd => 1
  | .regexPattern => -1
  | _ => 0

/-- Of two tokens as long, the one that says more is taken. -/
def claimOf (t : Token) : Nat := if isGlued t then 1 else 0

/-- The claim of punctuation, which says most. -/
def punctuationClaim : Nat := 2

/-- A candidate for the token at a place. -/
structure Candidate where
  rank : Int
  claim : Nat
  found : Found

/-- The better of two candidates: by rank, by length, by what says more, by number. -/
def better (a b : Candidate) : Candidate :=
  let (ea, eb) := (a.found.skipped + a.found.length, b.found.skipped + b.found.length)
  if a.rank < b.rank then b
  else if b.rank < a.rank then a
  else if ea < eb then b
  else if eb < ea then a
  else if a.claim < b.claim then b
  else if b.claim < a.claim then a
  else if b.found.symbol < a.found.symbol then b
  else a

/-- The better of a candidate and the token, if it stands there. -/
def consider (best : Option Candidate) (rank : Int) (claim : Nat) (symbol : Symbol)
    (skipped : Nat) : (length : Option Nat) → Option Candidate
  | none => best
  | some length =>
    let c : Candidate := ⟨rank, claim, { symbol, skipped, length }⟩
    match best with
    | none => some c
    | some b => some (better b c)

/-- The token at the place, of those that are wanted. -/
def findToken? (w : Wanted) (cs : List Char) : Option Found :=
  let skipped := run isSpace cs
  let ahead := cs.drop skipped
  let best := w.punctuation.foldl (fun best (chars, s) =>
    consider best 0 punctuationClaim s skipped (literal? chars ahead)) none
  let best := w.others.foldl (fun best (t, s) =>
    if isGlued t then consider best (rankOf t) (claimOf t) s 0 (taken? t cs)
    else consider best (rankOf t) (claimOf t) s skipped (taken? t ahead)) best
  best.map (·.found)

/-- How many characters are looked at in vain where no token begins, at least one. -/
def strayLength (cs : List Char) : Nat :=
  match cs with
  | '\\' :: 'u' :: '{' :: rest => 3 + run isHexDigit rest
  | '\\' :: 'u' :: rest => 2 + min 3 (run isHexDigit rest)
  | _ => 1

/-- Passes over characters until a token begins or the text ends. -/
def strays (w : Wanted) : (fuel : Nat) → (n : Nat) → List Char → Nat
  | 0, n, _ => n
  | fuel + 1, n, cs =>
    let skipped := run isSpace cs
    match cs.drop skipped with
    | [] => n
    | ahead =>
      if n > 0 && (findToken? w cs).isSome then n
      else
        let m := strayLength ahead
        strays w fuel (n + (if n == 0 then 0 else skipped) + m) (ahead.drop m)

end Grammar

end CompilingProxy
