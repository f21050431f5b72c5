import CompilingProxy.Grammar.Function

/-!
# Types
-/

namespace CompilingProxy.Grammar

open Rule

/-- The types of a query that stand for values, in a place where only they may stand. -/
def queried (groups : List Group) : Rule :=
  any (groups.map fun g => .relabel (.kind (g.kind?.getD .identifier)) (group g))

/-- A value that a query may name, with members, indices and calls. -/
def queryBase : Rule := any [name, node .this, queried [.queryIndex, .queryMember, .queryCall]]

/-- A value that a query may call. -/
def queryFunction : Rule :=
  any [node .importWord, name, queried [.queryMember, .queryIndex]]

/-- A member of something that only its name is known of. -/
def queryProperty : Rule :=
  .role .property (any [node .privatePropertyIdentifier, memberName])

def typeRules : Rules :=
  let type : Rule := group .type
  let clause (mark : String) : Rule := all [word mark, type]
  let annotated : Rule := queried [.annotationMember, .annotationCall]
  [(.node .typeClause, all [word ":", any [type, annotated]]),
    (.node .omittingTypeClause, clause "-?:"),
    (.node .addingTypeClause, clause "+?:"),
    (.node .optingTypeClause, clause "?:"),
    (.group .annotationMember, all [
      .role .object (any [node .importWord, annotated]), word ".", queryProperty]),
    (.group .annotationCall, all [
      .role .function (any [node .importWord, queried [.annotationMember]]),
      .role .arguments (node .arguments)]),
    (.node .asserts, all [word "asserts", any [node .typePredicate, name, node .this]]),
    (.node .assertsClause, all [word ":", node .asserts]),
    (.node .typePredicate, all [
      .role .name (any [name, node .this, relabelled .identifier (node .predefinedType)]),
      word "is", .role .type type]),
    (.node .typePredicateClause, all [word ":", node .typePredicate]),
    (.group .type, any [group .primaryType, node .functionType, node .readonlyType,
      node .constructorType, node .inferType,
      firm (.plain (-1)) (queried [.annotationMember]),
      firm (.plain (-1)) (queried [.annotationCall])]),
    (.group .tupleParameter, all [.role .name (any [name, node .restPattern]),
      .role .type (node .typeClause)]),
    (.group .optionalTupleParameter, all [.role .name name, word "?",
      .role .type (node .typeClause)]),
    (.node .optionalType, all [type, word "?"]),
    (.node .restType, all [word "...", type]),
    (.group .tupleMember, any [relabelled .requiredParameter (group .tupleParameter),
      relabelled .optionalParameter (group .optionalTupleParameter), node .optionalType,
      node .restType, type]),
    (.node .constructorType, toLeft (all [optWord "abstract", word "new", typeParameters,
      .role .parameters (node .formalParameters), word "=>", .role .type type])),
    (.group .primaryType, any [node .parenthesizedType, node .predefinedType, typeName,
      node .nestedTypeIdentifier, node .genericType, node .objectType, node .arrayType,
      node .tupleType, node .flowMaybeType, node .typeQuery, node .indexTypeQuery,
      relabelled .thisType (node .this), node .existentialType, node .literalType,
      node .lookupType, node .conditionalType, node .templateLiteralType,
      node .intersectionType, node .unionType, word "const"]),
    (.node .templateType, all [word "$\x7b", any [group .primaryType, node .inferType],
      word "\x7d"]),
    (.node .templateLiteralType, all [word "`",
      many (any [relabelled .stringFragment (.token .templatePart), node .templateType]),
      word "`"]),
    (.node .inferType, toRight (all [word "infer", typeName,
      opt (all [word "extends", type])])),
    (.node .conditionalType, toRight (all [.role .left type, word "extends", .role .right type,
      word "?", .role .consequence type, word ":", .role .alternative type])),
    (.node .genericType, firm .call (all [
      .role .name (any [typeName, node .nestedTypeIdentifier]),
      .role .typeArguments (node .typeArguments)])),
    (.group .queryMember, all [.role .object queryBase, words [".", "?."], queryProperty]),
    (.group .queryIndex, all [.role .object queryBase, optWord "?.", word "[",
      .role .index (any [node .predefinedType, node .string, node .number]), word "]"]),
    (.group .queryCall, all [.role .function queryFunction,
      .role .arguments (node .arguments)]),
    (.group .queryInstantiation, all [.role .function queryFunction,
      .role .typeArguments (node .typeArguments)]),
    (.node .typeQuery, toRight (all [word "typeof", any [
      queried [.queryIndex, .queryMember, .queryCall, .queryInstantiation], name,
      node .this]])),
    (.node .indexTypeQuery, all [word "keyof", group .primaryType]),
    (.node .lookupType, all [group .primaryType, word "[", type, word "]"]),
    (.node .mappedTypeClause, all [.role .name typeName, word "in", .role .type type,
      opt (all [word "as", .role .alias type])]),
    (.node .literalType, any [relabelled .unaryExpression (group .signedNumber), node .number,
      node .string, node .true, node .false, node .null, node .undefined]),
    (.group .signedNumber, leftward (.plain 1) (all [.role .operator (words ["-", "+"]),
      .role .argument (node .number)])),
    (.node .existentialType, word "*"),
    (.node .flowMaybeType, toRight (all [word "?", group .primaryType])),
    (.node .parenthesizedType, all [word "(", type, word ")"]),
    (.node .predefinedType, any [words ["any", "number", "boolean", "string", "symbol"],
      .relabel (.word "unique symbol") (all [word "unique", word "symbol"]),
      words ["void", "unknown", "never", "object"]]),
    (.node .typeArguments, all [word "<", commaList type, optWord ",", word ">"]),
    (.node .objectType, all [words ["\x7b", "\x7b|"],
      opt (all [
        opt (words [",", ";"]),
        separated (any [word ",", semicolon]) (any [node .exportStatement,
          node .propertySignature, node .callSignature, node .constructSignature,
          node .indexSignature, node .methodSignature]),
        opt (any [word ",", semicolon])]),
      words ["\x7d", "|\x7d"]]),
    (.node .callSignature, group .callSignature),
    (.node .propertySignature, all [opt (node .accessibilityModifier), optWord "static",
      opt (node .overrideModifier), optWord "readonly", methodName, typeClause]),
    (.node .typeParameters, all [word "<", commaList (node .typeParameter), optWord ",",
      word ">"]),
    (.node .typeParameter, all [optWord "const", .role .name typeName,
      .role .constraint (opt (node .constraint)), .role .value (opt (node .defaultType))]),
    (.node .defaultType, all [word "=", type]),
    (.node .constraint, all [words ["extends", ":"], type]),
    (.node .constructSignature, all [optWord "abstract", word "new", typeParameters,
      .role .parameters (node .formalParameters), typeClause]),
    (.node .indexSignature, all [
      opt (all [.role .sign (opt (words ["-", "+"])), word "readonly"]),
      word "[",
      any [
        all [.role .name (any [name, reservedName]), word ":", .role .indexType type],
        node .mappedTypeClause],
      word "]",
      .role .type (any [node .typeClause, node .omittingTypeClause, node .addingTypeClause,
        node .optingTypeClause])]),
    (.node .arrayType, all [group .primaryType, word "[", word "]"]),
    (.node .tupleType, all [word "[", commaItems (group .tupleMember), optWord ",", word "]"]),
    (.node .readonlyType, all [word "readonly", type]),
    (.node .unionType, toLeft (all [opt type, word "|", type])),
    (.node .intersectionType, toLeft (all [opt type, word "&", type])),
    (.node .functionType, toLeft (all [typeParameters,
      .role .parameters (node .formalParameters), word "=>",
      .role .returnType (any [type, node .asserts, node .typePredicate])])),
    (.group .typeName, relabelled .typeIdentifier name),
    (.node .typeAssertion, leftward .unary (all [node .typeArguments, group .expression])),
    (.node .nestedTypeIdentifier, firm .member (all [
      .role .module (any [name, node .nestedIdentifier]), word ".", .role .name typeName]))]

end CompilingProxy.Grammar
