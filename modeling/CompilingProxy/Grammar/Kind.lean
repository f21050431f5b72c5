/-!
# Kinds of syntax nodes

What a node of a module's tree stands for, and which part of its parent it is. A node is labelled
either with its kind or, for keywords and punctuation, with the word as it is written.
-/

namespace CompilingProxy

inductive Kind where
  | program | hashBangLine | comment | markupComment | error
  | identifier | typeIdentifier | propertyIdentifier | privatePropertyIdentifier
  | statementIdentifier | shorthandPropertyIdentifier | shorthandPropertyIdentifierPattern
  | nestedIdentifier | nestedTypeIdentifier
  | number | string | stringFragment | escapeSequence | templateString | templateSubstitution
  | regex | regexPattern | regexFlags
  | this | super | true | false | null | undefined
  | importStatement | importClause | importRequireClause | importAttribute | namespaceImport
  | namedImports | importSpecifier | importAlias
  | exportStatement | exportClause | exportSpecifier | namespaceExport
  | expressionStatement | emptyStatement | statementBlock | labeledStatement | debuggerStatement
  | ifStatement | elseClause | switchStatement | switchBody | switchCase | switchDefault
  | forStatement | forInStatement | whileStatement | doStatement | tryStatement | catchClause
  | finallyClause | withStatement | breakStatement | continueStatement | returnStatement
  | throwStatement
  | lexicalDeclaration | variableDeclaration | variableDeclarator
  | functionDeclaration | generatorFunctionDeclaration | functionSignature
  | functionExpression | generatorFunction | arrowFunction | formalParameters
  | requiredParameter | optionalParameter
  | classDeclaration | abstractClassDeclaration | classExpression | classHeritage | extendsClause
  | implementsClause | classBody | classStaticBlock | methodDefinition | methodSignature
  | abstractMethodSignature | publicFieldDefinition | indexSignature | decorator
  | computedPropertyName | accessibilityModifier | overrideModifier
  | interfaceDeclaration | interfaceBody | extendsTypeClause | typeAliasDeclaration
  | enumDeclaration | enumBody | enumAssignment
  | module | internalModule | ambientDeclaration
  | parenthesizedExpression | sequenceExpression | assignmentExpression
  | augmentedAssignmentExpression | binaryExpression | unaryExpression | updateExpression
  | ternaryExpression | awaitExpression | yieldExpression | newExpression | callExpression
  | memberExpression | subscriptExpression | optionalChain | metaProperty | importWord
  | arguments | array | object | pair | spreadElement
  | asExpression | satisfiesExpression | nonNullExpression | typeAssertion
  | instantiationExpression
  | arrayPattern | objectPattern | pairPattern | restPattern | assignmentPattern
  | objectAssignmentPattern
  | elementExpression | selfClosingElement | openingElement | closingElement | elementText
  | characterReference | elementAttribute | elementNamespaceName | elementBraces
  | typeClause | omittingTypeClause | addingTypeClause | optingTypeClause
  | assertsClause | typePredicateClause | asserts | typePredicate
  | typeParameters | typeParameter | typeArguments | constraint | defaultType
  | predefinedType | parenthesizedType | functionType | constructorType | readonlyType
  | inferType | genericType | objectType | propertySignature | callSignature | constructSignature
  | mappedTypeClause | arrayType | tupleType | optionalType | restType | flowMaybeType
  | typeQuery | indexTypeQuery | thisType | existentialType | literalType | lookupType
  | conditionalType | templateLiteralType | templateType | unionType | intersectionType
deriving DecidableEq, Hashable, Repr, Inhabited

/-- The part that a node plays in its parent. -/
inductive Role where
  | name | body | value | source | alias | pattern | declaration | parameter | parameters
  | returnType | type | typeParameters | typeArguments | function | arguments | object | property
  | index | operator | left | right | argument | condition | consequence | alternative | key
  | label | decorator | constraint | kind | initializer | increment | handler | finalizer
  | constructor | sign | module | openTag | closeTag | elementAttribute | flags | optionalChain
  | indexType
deriving DecidableEq, Hashable, Repr, Inhabited

/-- The kind of a node, or the word that a keyword or punctuation is written with. -/
inductive Label where
  | kind (kind : Kind)
  | word (text : String)
deriving DecidableEq, Hashable, Repr, Inhabited

namespace Kind

/-- The kinds whose whole subtree stands in type space, with the names that reports use. -/
def typeContexts : List (Kind × String) :=
  [(typeClause, "type_annotation"), (typeArguments, "type_arguments"),
    (typeParameters, "type_parameters"), (implementsClause, "implements_clause"),
    (extendsTypeClause, "extends_type_clause"), (interfaceDeclaration, "interface_declaration"),
    (typeAliasDeclaration, "type_alias_declaration"), (assertsClause, "asserts_annotation"),
    (typePredicateClause, "type_predicate_annotation"),
    (functionSignature, "function_signature"), (methodSignature, "method_signature"),
    (abstractMethodSignature, "abstract_method_signature"), (indexSignature, "index_signature"),
    (ambientDeclaration, "ambient_declaration")]

/-- Whether everything below a node of the kind is a type. -/
def isTypeContext (k : Kind) : Bool := typeContexts.any fun (kind, _) => kind == k

/-- Whether a reported kind name is one of a type context. -/
def namesTypeContext (name : String) : Bool := typeContexts.any fun (_, text) => text == name

end Kind

end CompilingProxy
