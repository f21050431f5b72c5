import CompilingProxy.Grammar.Literal

/-!
# Patterns and members of objects

What values are bound to or assigned to, and what objects are made of.
-/

namespace CompilingProxy.Grammar

open Rule

/-- A name, or what it is taken apart into. -/
def bound : Rule := any [name, group .destructuring]

def patternRules : Rules :=
  [(.group .destructuring, any [node .objectPattern, node .arrayPattern]),
    (.group .initializer, all [word "=", .role .value (group .expression)]),
    (.group .target, any [node .memberExpression, node .subscriptExpression, group .plainName,
      reservedName, group .destructuring, node .nonNullExpression]),
    (.group .updatedTarget, any [node .memberExpression, node .subscriptExpression, reservedName,
      name, node .parenthesizedExpression, node .nonNullExpression]),
    (.group .pattern, .weighed (-1) (any [group .target, node .restPattern])),
    (.node .restPattern, toRight (all [word "...", group .target])),
    (.node .assignmentPattern, all [.role .left (group .pattern), word "=",
      .role .right (group .expression)]),
    (.node .objectAssignmentPattern, all [
      .role .left (any [
        relabelled .shorthandPropertyIdentifierPattern (any [group .reservedName, name]),
        group .destructuring]),
      word "=", .role .right (group .expression)]),
    (.node .arrayPattern, all [word "[",
      commaItems (opt (any [group .pattern, node .assignmentPattern])), word "]"]),
    (.node .objectPattern, firm .object (all [word "\x7b",
      commaItems (opt (any [node .pairPattern, node .restPattern, node .objectAssignmentPattern,
        anyName .shorthandPropertyIdentifierPattern])),
      word "\x7d"])),
    (.node .pairPattern, all [.role .key (group .propertyName), word ":",
      .role .value (any [group .pattern, node .assignmentPattern])]),
    (.node .object, firm .object (all [word "\x7b",
      commaItems (opt (any [node .pair, node .spreadElement, node .methodDefinition,
        anyName .shorthandPropertyIdentifier])),
      word "\x7d"])),
    (.node .pair, all [.role .key (group .propertyName), word ":",
      .role .value (group .expression)]),
    (.node .array, all [word "[",
      commaItems (opt (any [group .expression, node .spreadElement])), word "]"]),
    (.node .spreadElement, all [word "...", group .expression]),
    (.group .propertyName, any [anyName .propertyIdentifier, node .privatePropertyIdentifier,
      node .string, node .number, node .computedPropertyName]),
    (.node .computedPropertyName, all [word "[", group .expression, word "]"])]

end CompilingProxy.Grammar
