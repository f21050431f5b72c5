import CompilingProxy.Grammar.Kind
import CompilingProxy.Grammar.Quote

/-!
# Tokens

The smallest pieces that the grammar speaks of. Most are recognised by their characters alone; the
*marks* hang on what stands around them, such as the end of a statement at the end of its line.
-/

namespace CompilingProxy

/-- A piece of text that the grammar takes as a whole. -/
inductive Token where
  /-- Keyword or punctuation. -/
  | word (text : String)
  | name
  | hashBangLine
  | hashName
  | number
  | comment
  /-- The characters of a string between its quotes, escapes apart. -/
  | stringPart (quote : Quote)
  /-- The characters of an attribute's string between its quotes. -/
  | attributePart (quote : Quote)
  | escape
  | regexPattern
  /-- The slash directly behind a regular expression. -/
  | regexEnd
  | regexFlags
  /-- A name with a dash inside. -/
  | dashedName
  | characterReference
  /-- The end of a statement that no semicolon marks. -/
  | lineEnd
  | templatePart
  /-- A question mark that asks for two branches. -/
  | question
  | markupComment
  | elementText
  /-- The end of a function's head that no body follows. -/
  | signatureEnd
  /-- A mark that stands nowhere. -/
  | nothing
deriving DecidableEq, Hashable, Repr, Inhabited

namespace Token

/-- The tokens that hang on what stands around them, in the order in which they are numbered. -/
def marks : List Token :=
  [lineEnd, templatePart, question, markupComment, elementText, signatureEnd, nothing]

/-- Tokens that may stand between any two others. -/
def remarks : List Token := [comment, markupComment]

/-- What a leaf of the token is labelled with, unless the rule that it makes up says so. -/
def label? : Token → Option Label
  | word text => some (.word text)
  | templatePart => some (.kind .stringFragment)
  | question => some (.word "?")
  | markupComment => some (.kind .markupComment)
  | elementText => some (.kind .elementText)
  | regexEnd => some (.word "/")
  | _ => none

end Token

end CompilingProxy
