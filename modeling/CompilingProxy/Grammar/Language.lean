import CompilingProxy.Grammar.Statement

/-!
# The language

All rules in the order in which their phrases are numbered, and the lists by which strengths are
compared. Of readings that nothing else tells apart, the one with the smaller numbers is taken.
-/

namespace CompilingProxy.Grammar

/-- The phrases in order; the first is what a whole text is. -/
def order : List Phrase :=
  let node := Phrase.node
  let group := Phrase.group
  [node .program, node .hashBangLine, node .exportStatement, node .namespaceExport,
    node .exportClause, node .exportSpecifier, group .exportedName, group .declaration,
    node .importWord, node .importStatement, node .importClause, group .fromClause,
    node .namespaceImport, node .namedImports, node .importSpecifier, node .importAttribute,
    group .statement, node .expressionStatement, node .variableDeclaration,
    node .lexicalDeclaration, node .variableDeclarator, node .statementBlock, node .elseClause,
    node .ifStatement, node .switchStatement, node .forStatement, node .forInStatement,
    group .forHeader, node .whileStatement, node .doStatement, node .tryStatement,
    node .withStatement, node .breakStatement, node .continueStatement, node .debuggerStatement,
    node .returnStatement, node .throwStatement, node .emptyStatement, node .labeledStatement,
    node .switchBody, node .switchCase, node .switchDefault, node .catchClause,
    node .finallyClause, node .parenthesizedExpression, group .expressions, group .expression,
    group .primaryExpression, node .yieldExpression, node .object, node .objectPattern,
    node .assignmentPattern, node .objectAssignmentPattern, node .array, node .arrayPattern,
    group .element, node .elementExpression, node .characterReference, node .elementBraces,
    group .elementChild, node .openingElement, group .dashedName, group .elementWord,
    node .nestedIdentifier, node .elementNamespaceName, group .elementName, node .closingElement,
    node .selfClosingElement, group .attributeItem, group .attributeName, node .elementAttribute,
    group .elementString, group (.attributePart .double),
    group (.attributePart .single), group .attributeValue, node .classExpression,
    node .classDeclaration, node .classHeritage,
    node .functionExpression, node .functionDeclaration, node .generatorFunction,
    node .generatorFunctionDeclaration, node .arrowFunction, group .callSignature,
    group .formalParameter, node .optionalChain, node .callExpression, node .newExpression,
    node .awaitExpression, node .memberExpression, node .subscriptExpression, group .target,
    node .assignmentExpression, group .updatedTarget, node .augmentedAssignmentExpression,
    group .initializer, group .destructuring, node .spreadElement, node .ternaryExpression,
    node .binaryExpression, node .unaryExpression, node .updateExpression,
    node .sequenceExpression, node .string, group (.stringPart .double),
    group (.stringPart .single), node .escapeSequence, node .comment, node .templateString,
    node .templateSubstitution,
    node .regex, node .regexPattern, node .regexFlags, node .number, group .plainName,
    node .identifier, node .privatePropertyIdentifier, node .metaProperty, node .this,
    node .super, node .true, node .false, node .null, node .undefined, node .arguments,
    node .decorator, group .decoratorMember, group .decoratorCall, node .classBody,
    node .formalParameters, node .classStaticBlock, group .pattern, node .restPattern,
    node .methodDefinition, node .pair, node .pairPattern, group .propertyName,
    node .computedPropertyName, group .reservedName, group .semicolon,
    node .publicFieldDefinition, group .elementHead, group .importName, node .nonNullExpression,
    node .methodSignature, node .abstractMethodSignature, node .functionSignature,
    group .decoratorParenthesized, node .typeAssertion, node .asExpression,
    node .satisfiesExpression, node .instantiationExpression, node .importRequireClause,
    node .extendsClause, group .extendsSingle, node .implementsClause, node .ambientDeclaration,
    node .abstractClassDeclaration, node .module, node .internalModule, group .moduleParts,
    node .importAlias, node .nestedTypeIdentifier, node .interfaceDeclaration,
    node .extendsTypeClause, node .enumDeclaration, node .enumBody, node .enumAssignment,
    node .typeAliasDeclaration, node .accessibilityModifier, node .overrideModifier,
    node .requiredParameter, node .optionalParameter, group .parameterName,
    node .omittingTypeClause, node .addingTypeClause, node .optingTypeClause, node .typeClause,
    group .annotationMember, group .annotationCall, node .asserts, node .assertsClause,
    group .type, group .tupleParameter, group .optionalTupleParameter, node .optionalType,
    node .restType, group .tupleMember, node .constructorType, group .primaryType,
    node .templateType, node .templateLiteralType, node .inferType, node .conditionalType,
    node .genericType, node .typePredicate, node .typePredicateClause, group .queryMember,
    group .queryIndex, group .queryCall, group .queryInstantiation, node .typeQuery,
    node .indexTypeQuery, node .lookupType, node .mappedTypeClause, node .literalType,
    group .signedNumber, node .existentialType, node .flowMaybeType, node .parenthesizedType,
    node .predefinedType, node .typeArguments, node .objectType, node .callSignature,
    node .propertySignature, node .typeParameters, node .typeParameter, node .defaultType,
    node .constraint, node .constructSignature, node .indexSignature, node .arrayType,
    node .tupleType, node .readonlyType, node .unionType, node .intersectionType,
    node .functionType, group .typeName]

/-- All rules; elements in angle brackets take the place of assertions of types. -/
def rules (elements : Bool) : Rules :=
  literalRules ++ patternRules ++ functionRules ++ typeRules ++ expressionRules elements ++
    elementRules ++ moduleRules ++ statementRules

/-- What may stand in a list of strengths: a strength, or every rule of a phrase. -/
inductive Rank (α : Type) where
  | strength (strength : Strength)
  | phrase (phrase : α)
deriving DecidableEq, Repr, Inhabited

/-- Lists of strengths, the greatest first. The first list that knows both of two decides. -/
def rankings : List (List (Rank Phrase)) :=
  let level (s : Strength) : Rank Phrase := .strength s
  let node (k : Kind) : Rank Phrase := .phrase (.node k)
  let group (g : Group) : Rank Phrase := .phrase (.group g)
  [[level .member, level .templateCall, level .call, node .updateExpression, level .unaryVoid,
      level .power, level .product, level .sum, level .shift, level .relation, level .equality,
      level .bitAnd, level .bitXor, level .bitOr, level .and, level .or, level .ternary,
      node .sequenceExpression, node .arrowFunction],
    [level .assign, group .primaryExpression],
    [level .member, level .templateCall, level .new, level .call, group .expression],
    [level .declaration, level .literal],
    [group .primaryExpression, node .statementBlock, level .object],
    [node .metaProperty, node .importWord],
    [node .importStatement, node .importWord],
    [node .exportStatement, group .primaryExpression],
    [node .lexicalDeclaration, group .primaryExpression],
    [level .call, level .instantiation, level .unary, level .binary, node .awaitExpression,
      node .arrowFunction],
    [level .extend, level .instantiation],
    [node .intersectionType, node .unionType, node .conditionalType, node .functionType,
      level .binary, node .typePredicate, node .readonlyType],
    [node .mappedTypeClause, group .primaryExpression],
    [node .accessibilityModifier, group .primaryExpression],
    [level .unaryVoid, group .expression],
    [node .extendsClause, group .primaryExpression],
    [level .unary, level .assign],
    [level .declare, group .expression],
    [node .predefinedType, node .unaryExpression],
    [group .type, node .flowMaybeType],
    [node .tupleType, node .arrayType, group .pattern, group .type],
    [node .readonlyType, group .pattern],
    [node .readonlyType, group .primaryExpression],
    [node .typeQuery, node .subscriptExpression, group .expression],
    [node .typeQuery, group .queryIndex],
    [node .nestedTypeIdentifier, node .genericType, group .primaryType, node .lookupType,
      node .indexTypeQuery, group .type],
    [node .asExpression, node .satisfiesExpression, group .primaryType],
    [group .queryMember, node .memberExpression],
    [node .memberExpression, group .annotationMember],
    [group .queryMember, group .primaryExpression],
    [group .queryIndex, node .subscriptExpression],
    [group .queryIndex, group .primaryExpression],
    [group .queryCall, group .primaryExpression],
    [group .queryInstantiation, group .primaryExpression],
    [node .typeQuery, group .primaryExpression],
    [node .overrideModifier, group .primaryExpression],
    [group .decoratorCall, node .decorator],
    [node .literalType, group .pattern],
    [node .predefinedType, group .pattern],
    [node .callExpression, group .queryCall],
    [node .callExpression, group .annotationCall],
    [node .newExpression, group .primaryExpression],
    [node .metaProperty, group .primaryExpression],
    [node .constructSignature, group .propertyName]]

end CompilingProxy.Grammar
