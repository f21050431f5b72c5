import CompilingProxy.Check.Binding

/-!
# Suggestions

Hints that hinder nothing: imports that nothing uses, and calls in plain scripts that could be
imports.
-/

namespace CompilingProxy.SuggestionCheck

open BindingCheck

/-- What to say of an import whose bindings are not all used. -/
def unusedFindings (a : ModuleAnalysis) (i : ImportDecl) : List Finding :=
  let unused := i.bindings.filter fun b => !a.isReferenced b.localName
  if unused.length > 1 && unused.length == i.bindings.length then
    [⟨i.range.start, 6192, "All imports in import declaration are unused."⟩]
  else unused.map fun b => ⟨b.range.start, 6133, unusedText b.localName⟩

/-- Where a module is required by name for the first variable of a statement. -/
def requireOffset? (source : List Char) (statement : Node) : Option Nat := do
  if !statement.isOneOf [.lexicalDeclaration, .variableDeclaration] then none
  let declarator ← statement.namedChildren.head?
  let value ← declarator.child? .value
  if !value.isA .callExpression then none
  let callee ← value.child? .function
  if callee.text source != "require" then none
  let argument ← (← value.child? .arguments).namedChildren.head?
  if !argument.isA .string || (argument.unquoted source).isEmpty then none
  return callee.start

end CompilingProxy.SuggestionCheck

namespace CompilingProxy

open BindingCheck SuggestionCheck

/-- The suggestions for a module, in the order of the text. -/
def ModuleRecord.suggestions (r : ModuleRecord) (o : CompilerOptions) (a : ModuleAnalysis) :
    List Diagnostic :=
  if r.isLibrary then []
  else
    let imports : List Finding :=
      if o.noUnusedLocals then [] else a.imports.flatMap (unusedFindings a)
    let calls : List Finding :=
      if r.kind.isTypeScript then []
      else (r.tree.namedChildren.filterMap (requireOffset? r.text.toList)).map fun offset =>
        ⟨offset, 80005, "'require' call may be converted to an import."⟩
    ((imports ++ calls).mergeSort fun x y => x.offset ≤ y.offset).map fun x =>
      .inModule .suggestion .suggestion x.code r x.offset x.text

end CompilingProxy
