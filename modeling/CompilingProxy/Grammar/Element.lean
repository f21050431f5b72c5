import CompilingProxy.Grammar.Expression

/-!
# Elements in angle brackets

They stand for values, and hold text, further elements and expressions in braces.
-/

namespace CompilingProxy.Grammar

open Rule

def elementRules : Rules :=
  let dotted : Rule := relabelled .memberExpression (node .nestedIdentifier)
  let quoted (quote : Quote) : Rule :=
    let mark := word quote.text
    all [mark,
      many (any [relabelled .stringFragment (group (.attributePart quote)),
        node .characterReference]),
      mark]
  let named (rule : Rule) : Rule := .role .name rule
  [(.group .element, any [node .elementExpression, node .selfClosingElement]),
    (.node .elementExpression, all [.role .openTag (node .openingElement),
      many (group .elementChild), .role .closeTag (node .closingElement)]),
    (.node .elementBraces, all [word "\x7b",
      opt (any [expression, node .sequenceExpression, node .spreadElement]), word "\x7d"]),
    (.group .elementChild, any [.token .elementText, node .characterReference, group .element,
      node .elementBraces]),
    (.node .openingElement, .weighed (-1) (all [group .elementHead, word ">"])),
    (.group .dashedName, .token .dashedName),
    (.group .elementWord, any [relabelled .identifier (group .dashedName), name]),
    (.node .nestedIdentifier, firm .member (all [.role .object (any [name, dotted]), word ".",
      .role .property memberName])),
    (.node .elementNamespaceName, all [group .elementWord, word ":", group .elementWord]),
    (.group .elementName, any [group .elementWord, dotted, node .elementNamespaceName]),
    (.node .closingElement, all [word "</", opt (named (group .elementName)), word ">"]),
    (.node .selfClosingElement, .weighed (-1) (all [group .elementHead, word "/>"])),
    (.group .attributeItem, any [node .elementAttribute, node .elementBraces]),
    (.group .attributeName, any [relabelled .propertyIdentifier (group .elementWord),
      node .elementNamespaceName]),
    (.node .elementAttribute, all [group .attributeName,
      opt (all [word "=", group .attributeValue])]),
    (.group .elementString, any [quoted .double, quoted .single]),
    (.group (.attributePart .double), .token (.attributePart .double)),
    (.group (.attributePart .single), .token (.attributePart .single)),
    (.group .attributeValue, any [relabelled .string (group .elementString),
      node .elementBraces, group .element]),
    (.group .elementHead, all [word "<", opt (all [
      any [
        named (any [group .elementWord, node .elementNamespaceName]),
        all [named (any [name, dotted]), typeArguments]],
      many (.role .elementAttribute (group .attributeItem))])])]

end CompilingProxy.Grammar
