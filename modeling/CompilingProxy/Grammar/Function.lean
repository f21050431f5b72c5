import CompilingProxy.Grammar.Pattern

/-!
# Functions and classes
-/

namespace CompilingProxy.Grammar

open Rule

def typeName : Rule := group .typeName

def decorators : Rule := many (.role .decorator (node .decorator))

def typeParameters : Rule := .role .typeParameters (opt (node .typeParameters))

def typeArguments : Rule := .role .typeArguments (opt (node .typeArguments))

def typeClause : Rule := .role .type (opt (node .typeClause))

def blockBody : Rule := .role .body (node .statementBlock)

/-- What may stand before the name of a method: who may use it, and how it is called. -/
def methodMarks : Rule :=
  all [opt (node .accessibilityModifier), optWord "static", opt (node .overrideModifier),
    optWord "readonly", optWord "async", opt (words ["get", "set", "*"])]

def methodName : Rule := all [.role .name (group .propertyName), optWord "?"]

/-- A function with its words, name and body. -/
def function (generator : Bool) (named : Rule) : Rule :=
  all ([optWord "async", word "function"] ++ (if generator then [word "*"] else []) ++
    [.role .name named, group .callSignature, blockBody])

/-- A class with its words, name and body. -/
def classLike (words : List String) (named : Rule) : Rule :=
  all ([decorators] ++ words.map word ++ [.role .name named, typeParameters,
    opt (node .classHeritage), .role .body (node .classBody)])

def functionRules : Rules :=
  let declared (rule : Rule) : Rule :=
    rightward .declaration (.seq rule (opt (.token .lineEnd)))
  [(.node .functionExpression, firm .literal (function false (opt name))),
    (.node .functionDeclaration, declared (function false name)),
    (.node .generatorFunction, firm .literal (function true (opt name))),
    (.node .generatorFunctionDeclaration, declared (function true name)),
    (.node .functionSignature, all [optWord "async", word "function", .role .name name,
      group .callSignature, any [semicolon, .token .signatureEnd]]),
    (.node .arrowFunction, all [optWord "async",
      any [.role .parameter (any [reservedName, name]), group .callSignature],
      word "=>", .role .body (any [group .expression, node .statementBlock])]),
    (.group .callSignature, all [typeParameters, .role .parameters (node .formalParameters),
      .role .returnType (opt (any [node .typeClause, node .assertsClause,
        node .typePredicateClause]))]),
    (.node .formalParameters, all [word "(",
      opt (all [commaList (group .formalParameter), optWord ","]), word ")"]),
    (.group .formalParameter, any [node .requiredParameter, node .optionalParameter]),
    (.node .requiredParameter, all [group .parameterName, typeClause,
      opt (group .initializer)]),
    (.node .optionalParameter, all [group .parameterName, word "?", typeClause,
      opt (group .initializer)]),
    (.group .parameterName, all [decorators, opt (node .accessibilityModifier),
      opt (node .overrideModifier), optWord "readonly",
      .role .pattern (any [group .pattern, node .this])]),
    (.node .accessibilityModifier, words ["public", "private", "protected"]),
    (.node .overrideModifier, word "override"),
    (.node .decorator, all [word "@", any [name,
      relabelled .memberExpression (group .decoratorMember),
      relabelled .callExpression (group .decoratorCall),
      relabelled .parenthesizedExpression (group .decoratorParenthesized)]]),
    (.group .decoratorMember, firm .member (all [
      .role .object (any [name, relabelled .memberExpression (group .decoratorMember)]),
      word ".", .role .property memberName])),
    (.group .decoratorCall, firm .call (all [
      .role .function (any [name, relabelled .memberExpression (group .decoratorMember)]),
      opt (.role .typeArguments (node .typeArguments)), .role .arguments (node .arguments)])),
    (.group .decoratorParenthesized, all [word "(", any [name,
      relabelled .memberExpression (group .decoratorMember),
      relabelled .callExpression (group .decoratorCall)], word ")"]),
    (.node .classExpression, firm .literal (classLike ["class"] (opt typeName))),
    (.node .abstractClassDeclaration,
      firm .declaration (classLike ["abstract", "class"] typeName)),
    (.node .classDeclaration, leftward .declaration
      (.seq (classLike ["class"] typeName) (opt (.token .lineEnd)))),
    (.node .classHeritage, any [
      all [node .extendsClause, opt (node .implementsClause)], node .implementsClause]),
    (.node .extendsClause, all [word "extends", commaList (group .extendsSingle)]),
    (.group .extendsSingle, firm .extend (all [.role .value (group .expression),
      typeArguments])),
    (.node .implementsClause, all [word "implements", commaList (group .type)]),
    (.node .classBody, all [word "\x7b", many (any [
      all [decorators, node .methodDefinition, opt semicolon],
      all [node .methodSignature, any [.token .signatureEnd, word ","]],
      node .classStaticBlock,
      all [
        any [node .abstractMethodSignature, node .indexSignature, node .methodSignature,
          node .publicFieldDefinition],
        any [semicolon, word ","]],
      word ";"]), word "\x7d"]),
    (.node .classStaticBlock, all [word "static", blockBody]),
    (.node .methodDefinition,
      toLeft (all [methodMarks, methodName, group .callSignature, blockBody])),
    (.node .methodSignature, all [methodMarks, methodName, group .callSignature]),
    (.node .abstractMethodSignature, all [opt (node .accessibilityModifier), word "abstract",
      opt (node .overrideModifier), opt (words ["get", "set", "*"]), methodName,
      group .callSignature]),
    (.node .publicFieldDefinition, all [decorators,
      opt (any [all [word "declare", opt (node .accessibilityModifier)],
        all [node .accessibilityModifier, optWord "declare"]]),
      any [all [optWord "static", opt (node .overrideModifier), optWord "readonly"],
        all [optWord "abstract", optWord "readonly"],
        all [optWord "readonly", optWord "abstract"],
        optWord "accessor"],
      .role .name (group .propertyName), opt (words ["?", "!"]), typeClause,
      opt (group .initializer)])]

end CompilingProxy.Grammar
