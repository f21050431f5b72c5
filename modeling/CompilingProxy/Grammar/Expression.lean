import CompilingProxy.Grammar.Type

/-!
# Expressions
-/

namespace CompilingProxy.Grammar

open Rule

def expression : Rule := group .expression

def expressions : Rule := group .expressions

/-- The operators between two operands with their strengths. -/
def operators : List (String × Strength) :=
  [("&&", .and), ("||", .or), (">>", .shift), (">>>", .shift), ("<<", .shift), ("&", .bitAnd),
    ("^", .bitXor), ("|", .bitOr), ("+", .sum), ("-", .sum), ("*", .product), ("/", .product),
    ("%", .product), ("**", .power), ("<", .relation), ("<=", .relation), ("==", .equality),
    ("===", .equality), ("!=", .equality), ("!==", .equality), (">=", .relation),
    (">", .relation), ("??", .ternary), ("instanceof", .relation), ("in", .relation)]

/-- An operator between two operands; only `in` asks for a private name, and only powers group to
the right. -/
def operation (operator : String) (strength : Strength) : Rule :=
  let left : Rule :=
    if operator == "in" then any [expression, node .privatePropertyIdentifier] else expression
  .strong strength (some (if strength == .power then .right else .left))
    (all [.role .left left, .role .operator (word operator), .role .right expression])

/-- The operators that also assign what they compute. -/
def updatingOperators : List String :=
  ["+=", "-=", "*=", "/=", "%=", "^=", "&=", "|=", ">>=", ">>>=", "<<=", "**=", "&&=", "||=",
    "??="]

def expressionRules (elements : Bool) : Rules :=
  let primary : Rule := group .primaryExpression
  let steps : Rule := words ["++", "--"]
  [(.group .expressions, any [expression, node .sequenceExpression]),
    (.group .expression, any (
      [node .asExpression, node .satisfiesExpression, node .instantiationExpression,
        node .internalModule] ++
      (if elements then [] else [node .typeAssertion]) ++
      [primary] ++
      (if elements then [group .element] else []) ++
      [node .assignmentExpression, node .augmentedAssignmentExpression, node .awaitExpression,
        node .unaryExpression, node .binaryExpression, node .ternaryExpression,
        node .updateExpression, node .newExpression, node .yieldExpression])),
    (.group .primaryExpression, any [node .subscriptExpression, node .memberExpression,
      node .parenthesizedExpression, group .plainName, reservedName, node .this, node .super,
      node .number, node .string, node .templateString, node .regex, node .true, node .false,
      node .null, node .object, node .array, node .functionExpression, node .arrowFunction,
      node .generatorFunction, node .classExpression, node .metaProperty, node .callExpression,
      node .nonNullExpression]),
    (.node .parenthesizedExpression, all [word "(",
      any [all [expression, typeClause], node .sequenceExpression], word ")"]),
    (.node .yieldExpression, toRight (all [word "yield",
      any [all [word "*", expression], opt expression]])),
    (.node .callExpression, any [
      firm .call (all [.role .function (any [expression, node .importWord]), typeArguments,
        .role .arguments (node .arguments)]),
      firm .templateCall (all [.role .function (any [primary, node .newExpression]),
        .role .arguments (node .templateString)]),
      firm .member (all [.role .function primary, word "?.", typeArguments,
        .role .arguments (node .arguments)])]),
    (.node .newExpression, rightward .new (all [word "new", .role .constructor primary,
      typeArguments, .role .arguments (opt (node .arguments))])),
    (.node .awaitExpression, firm .unaryVoid (all [word "await", expression])),
    (.node .memberExpression, firm .member (all [
      .role .object (any [expression, primary, node .importWord]),
      any [word ".", .role .optionalChain (node .optionalChain)],
      .role .property (any [node .privatePropertyIdentifier, memberName])])),
    (.node .subscriptExpression, rightward .member (all [
      .role .object (any [expression, primary]),
      opt (.role .optionalChain (node .optionalChain)),
      word "[", .role .index expressions, word "]"])),
    (.node .assignmentExpression, rightward .assign (all [optWord "using",
      .role .left (any [node .parenthesizedExpression, group .target]),
      word "=", .role .right expression])),
    (.node .augmentedAssignmentExpression, rightward .assign (all [
      .role .left (group .updatedTarget), .role .operator (words updatingOperators),
      .role .right expression])),
    (.node .ternaryExpression, rightward .ternary (all [.role .condition expression,
      .relabel (.word "?") (.token .question), .role .consequence expression,
      word ":", .role .alternative expression])),
    (.node .binaryExpression, any (operators.map fun (text, strength) => operation text strength)),
    (.node .unaryExpression, leftward .unaryVoid (all [
      .role .operator (words ["!", "~", "-", "+", "typeof", "void", "delete"]),
      .role .argument expression])),
    (.node .updateExpression, toLeft (any [
      all [.role .argument expression, .role .operator steps],
      all [.role .operator steps, .role .argument expression]])),
    (.node .sequenceExpression, toRight (commaList expression)),
    (.node .metaProperty, any [all [word "new", word ".", word "target"],
      all [word "import", word ".", word "meta"]]),
    (.node .arguments, all [word "(", commaItems (opt (any [expression, node .spreadElement])),
      word ")"]),
    (.node .nonNullExpression, leftward .unary (all [expression, word "!"])),
    (.node .asExpression, leftward .binary (all [expression, word "as",
      any [word "const", group .type]])),
    (.node .satisfiesExpression, leftward .binary (all [expression, word "satisfies",
      group .type])),
    (.node .instantiationExpression, firm .instantiation (all [expression,
      .role .typeArguments (node .typeArguments)]))]

end CompilingProxy.Grammar
