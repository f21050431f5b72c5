import CompilingProxy.Grammar.Kind
import CompilingProxy.Grammar.Quote

/-!
# Phrases

What the grammar has rules for. A phrase is named for the kind of node that it becomes; a group is
a phrase without a node of its own, or with one that other phrases become too.
-/

namespace CompilingProxy

inductive Group where
  | statement | declaration | expression | primaryExpression | pattern | type | primaryType
  | expressions | semicolon | plainName | reservedName | typeName | exportedName | importName
  | propertyName | fromClause | forHeader | initializer | destructuring | target | updatedTarget
  | callSignature | formalParameter | parameterName | extendsSingle | moduleParts
  | decoratorMember | decoratorCall | decoratorParenthesized
  | element | elementChild | elementHead | elementWord | elementName | dashedName | attributeItem
  | attributeName | attributeValue | elementString
  | stringPart (quote : Quote) | attributePart (quote : Quote)
  | annotationMember | annotationCall | queryMember | queryIndex | queryCall | queryInstantiation
  | tupleParameter | optionalTupleParameter | tupleMember | signedNumber
deriving DecidableEq, Hashable, Repr, Inhabited

namespace Group

/-- The kind of node that the group becomes. -/
def kind? : Group → Option Kind
  | decoratorMember | annotationMember | queryMember => some .memberExpression
  | decoratorCall | annotationCall | queryCall => some .callExpression
  | decoratorParenthesized => some .parenthesizedExpression
  | queryIndex => some .subscriptExpression
  | queryInstantiation => some .instantiationExpression
  | dashedName => some .identifier
  | elementString => some .string
  | stringPart _ | attributePart _ => some .stringFragment
  | tupleParameter => some .requiredParameter
  | optionalTupleParameter => some .optionalParameter
  | signedNumber => some .unaryExpression
  | _ => none

/-- The groups that stand for a choice of kinds, and so never vanish from the grammar. -/
def isClass : Group → Bool
  | statement | declaration | expression | primaryExpression | pattern | type | primaryType => true
  | _ => false

/-- The groups whose parts take their place wherever they stand. -/
def isInline : Group → Bool
  | expressions | semicolon | plainName | reservedName | typeName | target | element
  | elementChild | elementHead | elementWord | elementName | attributeItem | attributeName
  | attributeValue => true
  | _ => false

end Group

inductive Phrase where
  | node (kind : Kind)
  | group (group : Group)
  /-- One thing or more, one behind the other. -/
  | repetition (number : Nat)
deriving DecidableEq, Hashable, Repr, Inhabited

namespace Phrase

/-- What a node of the phrase is labelled with. -/
def label? : Phrase → Option Label
  | node kind => some (.kind kind)
  | group g => g.kind?.map .kind
  | repetition _ => none

def isInline : Phrase → Bool
  | group g => g.isInline
  | _ => false

def isClass : Phrase → Bool
  | group g => g.isClass
  | _ => false

end Phrase

end CompilingProxy
