import CompilingProxy.Grammar.Lexeme
import CompilingProxy.Grammar.Tables

/-!
# Clashing tokens

Where more tokens are looked for, another one may be found than before. A token clashes with one
that is looked for already if both can be the same text, or if its text is that of the other one
with a character behind it that may follow the other.
-/

namespace CompilingProxy

namespace Token

/-- Tokens that are found by what stands around them, or whose text is looked at for that. -/
def isBound : Token → Bool
  | escape | regexPattern => true
  | word text => text == "||"
  | t => marks.contains t

/-- Whether the token is a word that could be a name. -/
def isKeyword : Token → Bool
  | word text => Lexeme.isKeyword text
  | _ => false

/-- Whether the token may begin with the character. -/
def mayBegin (c : Char) : Token → Bool
  | word text => text.toList.head? == some c
  | name | dashedName => Lexeme.isWordStart c
  | number => c.isDigit || c == '.'
  | hashName | hashBangLine => c == '#'
  | comment | regexEnd => c == '/'
  | regexPattern => c != '/' && c != '*'
  | stringPart quote | attributePart quote => c != quote.char
  | characterReference => c == '&'
  | regexFlags => c.isAlpha
  | _ => false

/-- Whether the first token is found where the second one is meant: of two that can be the same
text, the one that says more is found, and of two that begin alike, the longer one. `follows` says
what may stand behind the second. -/
def clashesWith (follows : Char → Bool) : Token → Token → Bool
  | word a, word b =>
    match Text.dropFront? b.toList a.toList with
    | some (c :: _) => follows c
    | _ => false
  | number, word "." => "0123456789".toList.any follows
  | characterReference, word "&" | comment, word "/" | regexEnd, word "/" | word "$\x7b", name
  | regexFlags, name => true
  | stringPart _, _ | attributePart _, _ => true
  | dashedName, t => (t == name || t.isKeyword) && follows '-'
  | t, regexFlags => t.isKeyword
  | _, _ => false

end Token

namespace Grammar

/-- The tokens that each token clashes with. -/
def clashTable (g : Tables) : Array TokenSet :=
  let tokens := g.symbols.tokens.zipIdx
  let known := tokens.map fun (t, n) =>
    (t, n, (TokenSet.members (g.successors.getD n 0)).map fun m => g.symbols.tokens.getD m .nothing)
  tokens.map fun (t, n) => known.foldl (fun set (u, m, behind) =>
    if n != m && t.clashesWith (fun c => behind.any (·.mayBegin c)) u then set ||| 1 <<< m
    else set) 0

/-- The tokens that are found by what stands around them. -/
def boundTokens (g : Tables) : TokenSet :=
  (List.range g.tokens).foldl (fun set t =>
    if t != 0 && (g.symbols.tokens.getD t .nothing).isBound then set ||| 1 <<< t else set) 0

end Grammar

end CompilingProxy
