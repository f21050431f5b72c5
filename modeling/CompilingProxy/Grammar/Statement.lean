import CompilingProxy.Grammar.Element

/-!
# Statements and declarations
-/

namespace CompilingProxy.Grammar

open Rule

def statement : Rule := group .statement

/-- A condition in parentheses. -/
def condition : Rule := .role .condition (node .parenthesizedExpression)

/-- Items in braces, with commas between and perhaps one at the end. -/
def bracedItems (item : Rule) : Rule :=
  all [word "\x7b", commaItems item, optWord ",", word "\x7d"]

/-- A word that marks what follows as a type. -/
def typeMark : Rule := opt (words ["type", "typeof"])

/-- The word `type` as a name. -/
def typeAsName : Rule := relabelled .identifier (word "type")

/-- A word that leaves what is around it, perhaps by its label. -/
def jump (text : String) : Rule :=
  all [word text, .role .label (opt (relabelled .statementIdentifier name)), semicolon]

/-- What stands behind a name that a module imports or exports as something else. -/
def names : Rule := any [node .namespaceImport, node .namedImports]

def moduleRules : Rules :=
  let source : Rule := .role .source (node .string)
  [(.node .exportStatement, any [
      all [word "export", any [
          all [word "*", group .fromClause],
          all [node .namespaceExport, group .fromClause],
          all [node .exportClause, group .fromClause],
          node .exportClause],
        semicolon],
      all [decorators, word "export", any [
        .role .declaration (group .declaration),
        all [word "default", any [
          .role .declaration (group .declaration),
          all [.role .value expression, semicolon]]]]],
      all [word "export", word "type", node .exportClause, opt (group .fromClause), semicolon],
      all [word "export", word "=", expression, semicolon],
      all [word "export", word "as", word "namespace", name, semicolon]]),
    (.node .namespaceExport, all [word "*", word "as", group .exportedName]),
    (.node .exportClause, bracedItems (node .exportSpecifier)),
    (.node .exportSpecifier, all [typeMark, .role .name (group .exportedName),
      opt (all [word "as", .role .alias (group .exportedName)])]),
    (.group .exportedName, any [name, node .string]),
    (.node .importStatement, all [word "import", typeMark, any [
        all [node .importClause, group .fromClause], node .importRequireClause, source],
      opt (node .importAttribute), semicolon]),
    (.node .importClause, any [names,
      all [group .importName, opt (all [word ",", names])]]),
    (.group .fromClause, all [word "from", source]),
    (.node .namespaceImport, all [word "*", word "as", name]),
    (.node .namedImports, bracedItems (node .importSpecifier)),
    (.group .importName, any [name, typeAsName]),
    (.node .importSpecifier, all [typeMark, any [
      .role .name (group .importName),
      all [.role .name (any [group .exportedName, typeAsName]), word "as",
        .role .alias (group .importName)]]]),
    (.node .importAttribute, all [words ["with", "assert"], node .object]),
    (.node .importRequireClause, all [name, word "=", word "require", word "(", source,
      word ")"]),
    (.node .importAlias, all [word "import", name, word "=",
      any [name, node .nestedIdentifier], semicolon]),
    (.node .module, all [word "module", group .moduleParts]),
    (.node .internalModule, all [word "namespace", group .moduleParts]),
    (.group .moduleParts, toRight (all [
      .role .name (any [node .string, name, node .nestedIdentifier]),
      .role .body (opt (node .statementBlock))])),
    (.node .ambientDeclaration, all [word "declare", any [
      group .declaration,
      all [word "global", node .statementBlock],
      all [word "module", word ".", memberName, word ":", group .type, semicolon]]]),
    (.node .interfaceDeclaration, all [word "interface", .role .name typeName, typeParameters,
      opt (node .extendsTypeClause),
      .role .body (relabelled .interfaceBody (node .objectType))]),
    (.node .extendsTypeClause, all [word "extends", commaList (.role .type
      (any [typeName, node .nestedTypeIdentifier, node .genericType]))]),
    (.node .enumDeclaration, all [optWord "const", word "enum", .role .name name,
      .role .body (node .enumBody)]),
    (.node .enumBody, all [word "\x7b",
      opt (all [
        commaList (any [.role .name (group .propertyName), node .enumAssignment]),
        optWord ","]),
      word "\x7d"]),
    (.node .enumAssignment, all [.role .name (group .propertyName), group .initializer]),
    (.node .typeAliasDeclaration, all [word "type", .role .name typeName, typeParameters,
      word "=", .role .value (group .type), semicolon])]

def statementRules : Rules :=
  let declarators : Rule := all [commaList (node .variableDeclarator), semicolon]
  let body : Rule := .role .body statement
  [(.node .program, all [opt (node .hashBangLine), many statement]),
    (.group .declaration, any [node .functionDeclaration, node .generatorFunctionDeclaration,
      node .classDeclaration, node .lexicalDeclaration, node .variableDeclaration,
      node .functionSignature, node .abstractClassDeclaration, node .module,
      firm .declare (node .internalModule), node .typeAliasDeclaration, node .enumDeclaration,
      node .interfaceDeclaration, node .importAlias, node .ambientDeclaration]),
    (.group .statement, any [node .exportStatement, node .importStatement,
      node .debuggerStatement, node .expressionStatement, group .declaration,
      node .statementBlock, node .ifStatement, node .switchStatement, node .forStatement,
      node .forInStatement, node .whileStatement, node .doStatement, node .tryStatement,
      node .withStatement, node .breakStatement, node .continueStatement,
      node .returnStatement, node .throwStatement, node .emptyStatement,
      node .labeledStatement]),
    (.node .expressionStatement, all [expressions, semicolon]),
    (.node .variableDeclaration, all [word "var", declarators]),
    (.node .lexicalDeclaration, all [.role .kind (words ["let", "const"]), declarators]),
    (.node .variableDeclarator, any [
      all [.role .name bound, typeClause, opt (group .initializer)],
      firm .declare (all [.role .name name, word "!", .role .type (node .typeClause)])]),
    (.node .statementBlock, toRight (all [word "\x7b", many statement, word "\x7d",
      opt (.token .lineEnd)])),
    (.node .elseClause, all [word "else", statement]),
    (.node .ifStatement, toRight (all [word "if", condition, .role .consequence statement,
      opt (.role .alternative (node .elseClause))])),
    (.node .switchStatement, all [word "switch", .role .value (node .parenthesizedExpression),
      .role .body (node .switchBody)]),
    (.node .forStatement, all [word "for", word "(",
      any [
        .role .initializer (any [node .lexicalDeclaration, node .variableDeclaration]),
        all [.role .initializer expressions, word ";"],
        .role .initializer (node .emptyStatement)],
      any [all [.role .condition expressions, word ";"], .role .condition (node .emptyStatement)],
      .role .increment (opt expressions), word ")", body]),
    (.node .forInStatement, all [word "for", optWord "await", group .forHeader, body]),
    (.group .forHeader, all [word "(",
      any [
        .role .left (any [group .target, node .parenthesizedExpression]),
        all [.role .kind (word "var"), .role .left bound, opt (group .initializer)],
        all [.role .kind (words ["let", "const"]), .role .left bound,
          opt (.token .lineEnd)]],
      .role .operator (words ["in", "of"]), .role .right expressions, word ")"]),
    (.node .whileStatement, all [word "while", condition, body]),
    (.node .doStatement, toRight (all [word "do", body, word "while", condition,
      opt semicolon])),
    (.node .tryStatement, all [word "try", blockBody, opt (.role .handler (node .catchClause)),
      opt (.role .finalizer (node .finallyClause))]),
    (.node .withStatement, all [word "with", .role .object (node .parenthesizedExpression),
      body]),
    (.node .breakStatement, jump "break"),
    (.node .continueStatement, jump "continue"),
    (.node .debuggerStatement, all [word "debugger", semicolon]),
    (.node .returnStatement, all [word "return", opt expressions, semicolon]),
    (.node .throwStatement, all [word "throw", expressions, semicolon]),
    (.node .emptyStatement, word ";"),
    (.node .labeledStatement, .weighed (-1) (all [
      .role .label (anyName .statementIdentifier), word ":", body])),
    (.node .switchBody, all [word "\x7b", many (any [node .switchCase, node .switchDefault]),
      word "\x7d"]),
    (.node .switchCase, all [word "case", .role .value expressions, word ":",
      .role .body (many statement)]),
    (.node .switchDefault, all [word "default", word ":", .role .body (many statement)]),
    (.node .catchClause, all [word "catch",
      opt (all [word "(", .role .parameter bound, opt (.role .type (node .typeClause)),
        word ")"]),
      blockBody]),
    (.node .finallyClause, all [word "finally", blockBody])]

end CompilingProxy.Grammar
