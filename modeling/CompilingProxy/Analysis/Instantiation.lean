import CompilingProxy.Grammar.Node

/-!
# What exists at run time

A namespace that holds nothing but types leaves nothing behind.
-/

namespace CompilingProxy

mutual

/-- Whether a statement leaves anything behind in the compiled module. -/
def Node.isInstantiatedStatement (n : Node) : Bool :=
  match n with
  | ⟨label, role, start, stop, missing, children⟩ =>
    let n : Node := ⟨label, role, start, stop, missing, children⟩
    match n.kind? with
    | some .comment | some .interfaceDeclaration | some .typeAliasDeclaration
    | some .ambientDeclaration | some .functionSignature | some .emptyStatement => false
    | some .internalModule | some .module => bodyIsInstantiated children
    | some .expressionStatement => firstIsInstantiated children
    | some .exportStatement => declarationIsInstantiated children
    | some .enumDeclaration => !n.hasWord "const"
    | _ => true

/-- Whether the body among a namespace's parts holds anything that exists at run time. -/
def bodyIsInstantiated : List Node → Bool
  | [] => false
  | ⟨_, role, _, _, _, children⟩ :: ns =>
    if role == some .body then anyIsInstantiated children else bodyIsInstantiated ns

/-- Whether one of the statements leaves anything behind. -/
def anyIsInstantiated : List Node → Bool
  | [] => false
  | n :: ns => (n.isNamed && n.isInstantiatedStatement) || anyIsInstantiated ns

/-- Whether what an expression statement begins with leaves anything behind. -/
def firstIsInstantiated : List Node → Bool
  | [] => true
  | n :: ns =>
    if !n.isNamed then firstIsInstantiated ns
    else if n.isA .internalModule then n.isInstantiatedStatement
    else true

/-- Whether the declaration that is exported leaves anything behind. -/
def declarationIsInstantiated : List Node → Bool
  | [] => true
  | n :: ns =>
    if n.role == some .declaration then n.isInstantiatedStatement
    else declarationIsInstantiated ns

end

/-- Whether a namespace holds anything that exists at run time. -/
def Node.isInstantiated (n : Node) : Bool := bodyIsInstantiated n.children

/-- Whether a parameter of a constructor is a property of the instance too. -/
def Node.isParameterProperty (n : Node) : Bool :=
  (n.childOf? .accessibilityModifier).isSome || (n.childOf? .overrideModifier).isSome ||
    n.hasWord "readonly"

end CompilingProxy
