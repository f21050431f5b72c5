import CompilingProxy.Grammar.Rule

/-!
# Words, names and literals

The rules that all others are built from.
-/

namespace CompilingProxy.Grammar

open Rule

/-- A rule for each phrase of some part of the grammar. -/
abbrev Rules := List (Phrase × Rule)

/-- Words that are keywords in some places and names in all others. -/
def reservedNames : List String :=
  ["declare", "namespace", "type", "public", "private", "protected", "override", "readonly",
    "module", "any", "number", "boolean", "string", "symbol", "export", "object", "new", "get",
    "set", "async", "static", "let"]

def name : Rule := node .identifier

/-- A name, or a word that is one here. -/
def anyName (kind : Kind) : Rule := relabelled kind (any [name, group .reservedName])

/-- A word that is a name here. -/
def reservedName : Rule := relabelled .identifier (group .reservedName)

/-- A name of a member. -/
def memberName : Rule := relabelled .propertyIdentifier name

def semicolon : Rule := group .semicolon

def literalRules : Rules :=
  let quoted (quote : Quote) (part : Rule) : Rule :=
    let mark := word quote.text
    all [mark, many part, mark]
  let escaped (quote : Quote) : Rule :=
    quoted quote (any [relabelled .stringFragment (group (.stringPart quote)),
      node .escapeSequence])
  [(.node .identifier, .token .name),
    (.node .privatePropertyIdentifier, .token .hashName),
    (.node .hashBangLine, .token .hashBangLine),
    (.node .comment, .token .comment),
    (.node .number, .token .number),
    (.node .escapeSequence, .token .escape),
    (.node .characterReference, .token .characterReference),
    (.node .this, word "this"), (.node .super, word "super"),
    (.node .true, word "true"), (.node .false, word "false"),
    (.node .null, word "null"), (.node .undefined, word "undefined"),
    (.node .importWord, word "import"), (.node .optionalChain, word "?."),
    (.group .plainName, any [node .undefined, name]),
    (.group .reservedName, words reservedNames),
    (.group .semicolon, any [.token .lineEnd, word ";"]),
    (.node .string, any [escaped .double, escaped .single]),
    (.group (.stringPart .double), .token (.stringPart .double)),
    (.group (.stringPart .single), .token (.stringPart .single)),
    (.node .templateString, all [word "`",
      many (any [relabelled .stringFragment (.token .templatePart), node .escapeSequence,
        node .templateSubstitution]),
      word "`"]),
    (.node .templateSubstitution, all [word "$\x7b", group .expressions, word "\x7d"]),
    (.node .regex, all [word "/", .role .pattern (node .regexPattern), .token .regexEnd,
      opt (.role .flags (node .regexFlags))]),
    (.node .regexPattern, .token .regexPattern),
    (.node .regexFlags, .token .regexFlags)]

end CompilingProxy.Grammar
