import CompilingProxy.Proofs.Analysis.Kept
import CompilingProxy.Proofs.Emit.Row
import CompilingProxy.Proofs.Outcome
import CompilingProxy.Proofs.Sketch

/-!
# Scripts without types

Where nothing in a module is of types or has a meaning of its own in the compiled language, each
node comes to no edits, and the module is compiled to the text that it is written in.
-/

namespace CompilingProxy

open Emit Text

namespace Node

/-- The kinds of nodes of which nothing stays, or something else. -/
def typedKinds : List Kind :=
  erasedDeclarations ++ [.methodSignature, .abstractMethodSignature, .indexSignature,
    .internalModule, .module, .enumDeclaration, .importAlias, .typeClause, .typeParameters,
    .typeArguments, .assertsClause, .typePredicateClause, .optingTypeClause, .omittingTypeClause,
    .addingTypeClause, .implementsClause, .accessibilityModifier, .overrideModifier, .asExpression,
    .satisfiesExpression, .nonNullExpression]

/-- The words that say something about types or declarations only. -/
def typedWords : List String := ["type", "declare", "abstract", "readonly"]

/-- Whether the node is written as it could be without types: it is of no kind and no word that says
something of them, no mark in it does, and it is no parameter for the receiver of a call. -/
def isUntyped (n : Node) : Bool :=
  !n.isOneOf typedKinds && typedWords.all (!n.isWord ·) &&
    !(n.isOneOf [.optionalParameter, .publicFieldDefinition, .methodDefinition] &&
      n.hasWord "?") &&
    !(n.isOneOf [.publicFieldDefinition, .variableDeclarator] && n.hasWord "!") &&
    !(n.isA .requiredParameter && (n.child? .pattern).any (·.isA .this))

/-- Whether the node is without types, and no import or export. -/
def isInert (n : Node) : Bool := n.isUntyped && !n.isOneOf [.importStatement, .exportStatement]

variable {n c : Node} {k : Kind}

theorem isUntyped_iff :
    n.isUntyped ↔ n.isOneOf typedKinds = false ∧ (∀ word ∈ typedWords, n.isWord word = false) ∧
      (n.isOneOf [.optionalParameter, .publicFieldDefinition, .methodDefinition] →
        n.hasWord "?" = false) ∧
      (n.isOneOf [.publicFieldDefinition, .variableDeclarator] → n.hasWord "!" = false) ∧
      (n.isA .requiredParameter → (n.child? .pattern).any (·.isA .this) = false) := by
  simp only [isUntyped, Bool.and_eq_true, Bool.not_eq_true', List.all_eq_true,
    Bool.and_eq_false_imp, and_assoc]

theorem not_mem_typedKinds (h : n.isUntyped) (hk : n.kind? = some k) : k ∉ typedKinds := by
  have hkind := (isUntyped_iff.mp h).1
  rw [isOneOf_of_kind? hk] at hkind
  simpa using hkind

theorem isOneOf_of_isUntyped {kinds : List Kind} (h : n.isUntyped) (hkinds : kinds ⊆ typedKinds) :
    n.isOneOf kinds = false := by
  rw [Bool.eq_false_iff, ne_eq, isOneOf_iff]
  rintro ⟨k, hk, hkind⟩
  exact not_mem_typedKinds h hkind (hkinds hk)

theorem isA_of_isUntyped (h : n.isUntyped) (hk : k ∈ typedKinds) : n.isA k = false := by
  rw [Bool.eq_false_iff, ne_eq, isA_iff]
  exact fun hkind => not_mem_typedKinds h hkind hk

theorem hasWord_of_untyped (h : ∀ c ∈ n.children, c.everywhere isUntyped) {word : String}
    (hword : word ∈ typedWords) : n.hasWord word = false := by
  refine List.any_eq_false.mpr fun c hc => ?_
  have hc := (isUntyped_iff.mp (everywhere_iff.mp (h c hc)).1).2.1 word hword
  simp [hc]

theorem childOf?_of_untyped (h : ∀ c ∈ n.children, c.everywhere isUntyped)
    (hk : k ∈ typedKinds) : n.childOf? k = none := by
  refine List.find?_eq_none.mpr fun c hc => ?_
  simp [isA_of_isUntyped (everywhere_iff.mp (h c hc)).1 hk]

end Node

open Node (isUntyped)

/-! ### What the analysis finds -/

theorem clauseBindings_values {source : List Char} {part : Node} (h : part.everywhere isUntyped)
    {b : ImportBinding} (hb : b ∈ clauseBindings source false part) : b.typeOnly = false := by
  rw [clauseBindings] at hb
  split at hb
  · rw [List.mem_singleton.mp hb]
  · obtain ⟨name, -, rfl⟩ := Option.map_eq_some_iff.mp (Option.mem_toList.mp hb)
    rfl
  · obtain ⟨spec, hspec, hbinding⟩ := List.mem_filterMap.mp hb
    have hbelow := (Node.everywhere_iff.mp h).2 spec (List.mem_filter.mp hspec).1
    rw [importedBinding?] at hbinding
    obtain ⟨name, -, hbinding⟩ := Option.bind_eq_some_iff.mp hbinding
    cases hbinding
    exact Node.hasWord_of_untyped (Node.everywhere_iff.mp hbelow).2 (by decide)
  · cases hb

/-- The import is of values, and so are all of its bindings. -/
def ImportDecl.IsOfValues (i : ImportDecl) : Prop :=
  i.typeOnly = false ∧ ∀ b ∈ i.bindings, b.typeOnly = false

theorem importDecl?_values {source : List Char} {n : Node} (h : n.everywhere isUntyped)
    {i : ImportDecl} (hi : importDecl? source n = some i) : i.IsOfValues := by
  have hbelow := (Node.everywhere_iff.mp h).2
  have hword : n.hasWord "type" = false := Node.hasWord_of_untyped hbelow (by decide)
  rw [importDecl?] at hi
  obtain ⟨specifier, -, hi⟩ := Option.bind_eq_some_iff.mp hi
  cases hi
  refine ⟨hword, fun b hb => ?_⟩
  dsimp only at hb
  rw [hword] at hb
  split at hb
  case h_1 clause hclause =>
    obtain ⟨part, hpart, hb⟩ := List.mem_flatMap.mp hb
    have hclause := hbelow clause (List.mem_of_find?_eq_some hclause)
    exact clauseBindings_values ((Node.everywhere_iff.mp hclause).2 part hpart) hb
  case h_2 => cases hb

namespace ModuleAnalysis

/-- Nothing that is imported or declared is of types alone. -/
structure IsOfValues (a : ModuleAnalysis) : Prop where
  imports : ∀ i ∈ a.imports, i.IsOfValues
  declarations : ∀ d ∈ a.declarations, d.kind.isValue

theorem IsOfValues.addExport {a : ModuleAnalysis} {name : String} (h : a.IsOfValues) :
    (a.addExport name).IsOfValues := by
  rw [ModuleAnalysis.addExport]
  split
  · exact h
  · exact ⟨h.imports, h.declarations⟩

theorem isOfValues_kept (source : List Char) :
    IsKept source (fun n => n.everywhere isUntyped) IsOfValues where
  below hn hc := (Node.everywhere_iff.mp hn).2 _ hc
  module h := ⟨h.imports, h.declarations⟩
  importing hn h := by
    refine ⟨fun i hi => ?_, h.declarations⟩
    rcases List.mem_append.mp hi with hi | hi
    · exact h.imports i hi
    · exact importDecl?_values hn (Option.mem_toList.mp hi)
  assignment h := ⟨h.imports, h.declarations⟩
  default h := ⟨h.imports, h.declarations⟩
  reExport h := ⟨h.imports, h.declarations⟩
  ambient h := ⟨h.imports, h.declarations⟩
  exported h := h.addExport
  declare {a s name kind n node} hn htype h := by
    have hvalue : kind.isValue := by
      by_contra hkind
      have huntyped : n.isOneOf [.interfaceDeclaration, .typeAliasDeclaration] = false :=
        Node.isOneOf_of_isUntyped (Node.everywhere_iff.mp hn).1 (by decide)
      rw [htype (by simpa using hkind)] at huntyped
      cases huntyped
    rw [declare]
    have hexported : (if s.exported then a.addExport name else a).IsOfValues := by
      split
      · exact h.addExport
      · exact h
    refine ⟨hexported.imports, fun d hd => ?_⟩
    rcases List.mem_append.mp hd with hd | hd
    · exact hexported.declarations d hd
    · rw [List.mem_singleton.mp hd]
      exact hvalue

theorem IsOfValues.typeOnlyNames {a : ModuleAnalysis} (h : a.IsOfValues) :
    a.typeOnlyNames = [] := by
  have hnone : (a.declarations.filter fun d => !d.kind.isValue &&
      !((a.declarations.filter (·.kind.isValue)).map (·.name)).contains d.name) = [] :=
    List.filter_eq_nil_iff.mpr fun d hd => by simp [h.declarations d hd]
  rw [ModuleAnalysis.typeOnlyNames, hnone]
  rfl

end ModuleAnalysis

theorem ModuleRecord.analysis_isOfValues {r : ModuleRecord} (h : r.tree.everywhere isUntyped) :
    r.analysis.IsOfValues := by
  have hstatements : (ModuleAnalysis.statements r.text.toList {} {} r.tree.children).IsOfValues :=
    ModuleAnalysis.statements_kept
      (fun c hc s a ha => (ModuleAnalysis.isOfValues_kept _).statement
        ((Node.everywhere_iff.mp h).2 c hc) ha)
      ⟨by simp, by simp⟩
  exact ⟨hstatements.imports, hstatements.declarations⟩

/-! ### What becomes of a node -/

namespace Emit

/-- No name of the module stands for a type alone, and every import stays. -/
structure Setting.IsOfValues (t : Setting) : Prop where
  typeOnly : t.typeOnly = []
  imports : ∀ i ∈ t.analysis.imports, i.typeOnly = false ∧
    ∀ b ∈ i.bindings, isElided t.analysis t.verbatim b = false

variable {t : Setting} {v : Visit} {f : Frame} {p : Place} {scope : List String} {n : Node}

theorem importStatement_stays (ht : t.IsOfValues) :
    importStatement t f p scope n = ⟨[], false, scope⟩ := by
  rw [importStatement]
  split
  case h_1 => rfl
  case h_2 i hi =>
    obtain ⟨htype, hstay⟩ := ht.imports i (List.mem_of_find?_eq_some hi)
    have hkept : i.bindings.filter (fun b => !isElided t.analysis t.verbatim b) = i.bindings :=
      List.filter_eq_self.mpr fun b hb => by simp [hstay b hb]
    rw [hkept, htype]
    simp

theorem exportClause_stays (ht : t.IsOfValues) {clause : Node}
    (h : clause.everywhere isUntyped) :
    exportClause t f p scope n clause = ⟨[], false, scope⟩ := by
  have hkept : (clause.children.filter (·.isA .exportSpecifier)).filter (fun spec =>
      !(spec.hasWord "type" || ((n.child? .source).isNone &&
        (spec.child? .name).any fun name => t.typeOnly.contains (name.text t.source)))) =
      clause.children.filter (·.isA .exportSpecifier) := by
    refine List.filter_eq_self.mpr fun spec hspec => ?_
    have hbelow := (Node.everywhere_iff.mp h).2 spec (List.mem_filter.mp hspec).1
    rw [Node.hasWord_of_untyped (Node.everywhere_iff.mp hbelow).2 (by decide), ht.typeOnly]
    simp
  simp only [exportClause]
  rw [hkept]
  simp

/-- Parts without types come to nothing. -/
def Passes (v : Visit) (f : Frame) (n : Node) : Prop :=
  ∀ p scope, ∀ c ∈ n.children, v f p scope c = .ok ⟨[], false, scope⟩

theorem exportStatement_stays (ht : t.IsOfValues) (hf : f.namespaces = [])
    (h : n.everywhere isUntyped) (hv : Passes v f n) :
    exportStatement t v f p scope n = .ok ⟨[], false, scope⟩ := by
  have hbelow := (Node.everywhere_iff.mp h).2
  rw [exportStatement, Node.hasWord_of_untyped hbelow (by decide)]
  split
  case isTrue htype => cases htype
  case isFalse =>
    split
    case h_1 d hd =>
      have hmem := List.mem_of_find?_eq_some hd
      have huntyped := (Node.everywhere_iff.mp (hbelow d hmem)).1
      rw [Node.isOneOf_of_isUntyped huntyped (by decide),
        Node.isA_of_isUntyped huntyped (by decide), Node.isA_of_isUntyped huntyped (by decide),
        Node.isA_of_isUntyped huntyped (by decide), hf, hv _ _ d hmem]
      rfl
    case h_2 value _ hvalue =>
      rw [ht.typeOnly, hv _ _ value (List.mem_of_find?_eq_some hvalue)]
      simp only [List.contains_nil, Bool.and_false]
      rfl
    case h_3 =>
      split
      case h_1 clause hclause =>
        rw [exportClause_stays ht (hbelow clause (List.mem_of_find?_eq_some hclause))]
        rfl
      case h_2 => rfl

/-- What is lowered although it has no types is an import or export. -/
theorem kind?_of_lowered? (h : n.everywhere isUntyped) {out : Except EditError Emission}
    (hout : lowered? t v f p scope n = some out) :
    n.kind? = some .importStatement ∨ n.kind? = some .exportStatement := by
  obtain ⟨hn, hbelow⟩ := Node.everywhere_iff.mp h
  have htyped {k : Kind} (hk : n.kind? = some k) (hmem : k ∈ Node.typedKinds) :
      n.kind? = some .importStatement ∨ n.kind? = some .exportStatement :=
    absurd hmem (Node.not_mem_typedKinds hn hk)
  rw [lowered?] at hout
  dsimp only at hout
  split at hout
  case h_8 =>
    rw [Node.hasWord_of_untyped hbelow (by decide), Node.hasWord_of_untyped hbelow (by decide)]
      at hout
    cases hout
  case h_9 hk => exact .inl hk
  case h_10 hk => exact .inr hk
  case h_11 =>
    obtain ⟨inner, hinner, -⟩ := Option.map_eq_some_iff.mp hout
    obtain ⟨hhead, hmodule⟩ := Option.filter_eq_some_iff.mp hinner
    have hmem := (List.mem_filter.mp (List.mem_of_head? hhead)).1
    rw [Node.isA_of_isUntyped (Node.everywhere_iff.mp (hbelow inner hmem)).1 (by decide)]
      at hmodule
    cases hmodule
  case h_25 =>
    split at hout
    case h_1 only honly =>
      have hmem : only ∈ n.children := by
        have hmem : only ∈ n.namedChildren := by simp [honly]
        exact (List.mem_filter.mp hmem).1
      rw [Node.isA_of_isUntyped (Node.everywhere_iff.mp (hbelow only hmem)).1 (by decide)] at hout
      cases hout
    case h_2 => cases hout
  case h_31 hk =>
    rw [(Node.isUntyped_iff.mp hn).2.2.2.2 (Node.isA_iff.mpr hk)] at hout
    cases hout
  case h_32 => cases hout
  all_goals exact htyped ‹_› (by decide)

/-- Imports and exports of a module without types stay as they are. -/
theorem lowered?_stays (ht : t.IsOfValues) (hf : f.namespaces = []) (h : n.everywhere isUntyped)
    (hv : Passes v f n) {out : Except EditError Emission}
    (hout : lowered? t v f p scope n = some out) : out = .ok ⟨[], false, scope⟩ := by
  rcases kind?_of_lowered? h hout with hk | hk
  · rw [lowered?, hk] at hout
    cases hout
    rw [importStatement_stays ht]
  · rw [lowered?, hk] at hout
    cases hout
    exact exportStatement_stays ht hf h hv

theorem parameterProperties_of_untyped {source : List Char} {method : Node}
    (h : method.everywhere isUntyped) : parameterProperties source method = [] := by
  rw [parameterProperties]
  split
  case isTrue =>
    have hnone : (((method.child? .parameters).map Node.namedChildren).getD []).filter
        Node.isParameterProperty = [] := by
      refine List.filter_eq_nil_iff.mpr fun c hc => ?_
      obtain ⟨ps, hps, hc⟩ : ∃ ps, method.child? .parameters = some ps ∧ c ∈ ps.children := by
        cases hps : method.child? .parameters with
        | none => simp [hps] at hc
        | some ps =>
          rw [hps, Option.map_some, Option.getD_some] at hc
          exact ⟨ps, rfl, (List.mem_filter.mp hc).1⟩
      have hps := (Node.everywhere_iff.mp h).2 ps (List.mem_of_find?_eq_some hps)
      have hbelow := (Node.everywhere_iff.mp ((Node.everywhere_iff.mp hps).2 c hc)).2
      rw [Node.isParameterProperty, Node.childOf?_of_untyped hbelow (by decide),
        Node.childOf?_of_untyped hbelow (by decide), Node.hasWord_of_untyped hbelow (by decide)]
      simp
    dsimp only
    rw [hnone]
    rfl
  case isFalse => rfl

theorem wordEdits_of_untyped (hn : n.isUntyped) {c : Node} (hc : c ∈ n.children)
    (huntyped : c.isUntyped) : wordEdits t f n c = [] := by
  obtain ⟨-, hwords, -, -, -⟩ := Node.isUntyped_iff.mp huntyped
  obtain ⟨-, -, hoptional, hdefinite, -⟩ := Node.isUntyped_iff.mp hn
  have hmark {word : String} (hlabel : c.label = .word word) : n.hasWord word :=
    List.any_eq_true.mpr ⟨c, hc, by rw [Node.isWord, hlabel, beq_self_eq_true]⟩
  have htyped {word : String} (hword : word ∈ Node.typedWords) (hlabel : c.label = .word word) :
      False := by
    have hplain := hwords word hword
    rw [Node.isWord, hlabel, beq_self_eq_true] at hplain
    cases hplain
  rw [wordEdits]
  split
  case h_1 hlabel => exact (htyped (by decide) hlabel).elim
  case h_2 hlabel => exact (htyped (by decide) hlabel).elim
  case h_3 hlabel =>
    split
    case isTrue hkind => rw [hmark hlabel] at hoptional; cases hoptional hkind
    case isFalse => rfl
  case h_4 hlabel =>
    split
    case isTrue hkind => rw [hmark hlabel] at hdefinite; cases hdefinite hkind
    case isFalse => rfl
  case h_5 => rfl

theorem visitChildren_stays (h : n.everywhere isUntyped) (hv : Passes v f n)
    {ps : List (Place × Node)} (hps : ∀ x ∈ ps, x.2 ∈ n.children) :
    visitChildren t v f n scope ps = .ok ⟨[], false, scope⟩ := by
  induction ps with
  | nil => rw [visitChildren]
  | cons x ps ih =>
    obtain ⟨p, c⟩ := x
    have hc := hps _ List.mem_cons_self
    have hrest := ih fun y hy => hps y (List.mem_cons_of_mem _ hy)
    obtain ⟨hn, hbelow⟩ := Node.everywhere_iff.mp h
    have huntyped := (Node.everywhere_iff.mp (hbelow c hc)).1
    rw [visitChildren, hv p scope c hc, wordEdits_of_untyped hn hc huntyped, ite_self]
    refine bind_eq_ok_iff.mpr ⟨_, rfl, bind_eq_ok_iff.mpr ⟨_, hrest, rfl⟩⟩

/-- A node without types of which only the parts are compiled comes to nothing. -/
theorem visitNode_stays (h : n.everywhere isUntyped) (hv : Passes v f n)
    (hlowered : lowered? t v f p scope n = none) :
    visitNode t v f p scope n = .ok ⟨[], false, scope⟩ := by
  have hadded : propertyAssignments t p n = [] := by
    rw [propertyAssignments, parameterProperties_of_untyped h]
    cases n.child? .body <;> rfl
  rw [visitNode, hlowered]
  refine bind_eq_ok_iff.mpr ⟨_, visitChildren_stays h hv fun x hx => (mem_row hx).1, ?_⟩
  rw [hadded, ite_self]
  rfl

/-- A node without types comes to nothing, outside of namespaces. -/
theorem visit_stays (ht : t.IsOfValues) (hf : f.namespaces = []) (h : n.everywhere isUntyped)
    (fuel : Nat) : visit t fuel f p scope n = .ok ⟨[], false, scope⟩ := by
  induction fuel generalizing p scope n with
  | zero => rfl
  | succ fuel ih =>
    have hv : Passes (visit t fuel) f n :=
      fun p scope c hc => ih ((Node.everywhere_iff.mp h).2 c hc)
    cases hlowered : lowered? t (visit t fuel) f p scope n with
    | some out =>
      rw [visit, visitNode, hlowered]
      exact lowered?_stays ht hf h hv hlowered
    | none => exact visitNode_stays h hv hlowered

/-! ### Expressions -/

/-- What is made of such nodes comes to nothing, wherever it stands. -/
theorem visit_inert (h : n.everywhere Node.isInert) (fuel : Nat) :
    visit t fuel f p scope n = .ok ⟨[], false, scope⟩ := by
  induction fuel generalizing p scope n with
  | zero => rfl
  | succ fuel ih =>
    obtain ⟨hn, hbelow⟩ := Node.everywhere_iff.mp h
    have huntyped : n.everywhere isUntyped :=
      Node.everywhere_mono (fun m hm => (Bool.and_eq_true_iff.mp hm).1) h
    refine visitNode_stays huntyped (fun p scope c hc => ih (hbelow c hc))
      (Option.eq_none_iff_forall_ne_some.mpr fun out hout => ?_)
    have hother := (Bool.and_eq_true_iff.mp hn).2
    rcases kind?_of_lowered? huntyped hout with hk | hk <;>
      · rw [Node.isOneOf_of_kind? hk] at hother
        cases hother

theorem render_inert (h : n.everywhere Node.isInert) {fuel : Nat} {text : List Char}
    {scope' : List String} (hout : render t (visit t fuel) f p scope n = .ok (text, scope')) :
    text = slice t.source n.start n.stop := by
  rw [render, visit_inert h] at hout
  obtain ⟨out, hnone, hout⟩ := bind_eq_ok_iff.mp hout
  cases hnone
  obtain ⟨edited, hedited, hout⟩ := bind_eq_ok_iff.mp hout
  cases hout
  rw [Layout.edited, List.find?_nil] at hedited
  rw [slice]
  cases hslice : slice? t.source n.range.start n.range.stop with
  | none =>
    rw [hslice] at hedited
    cases hedited
  | some middle =>
    rw [hslice, List.map_nil] at hedited
    dsimp only at hedited
    rw [applyEdits_nil] at hedited
    cases hedited
    exact (congrArg (Option.getD · []) hslice).symm

theorem visitStatements_stays {ps : List (Place × Node)}
    (hv : ∀ x ∈ ps, ∀ p scope, v f p scope x.2 = .ok ⟨[], false, scope⟩) :
    visitStatements v f scope ps = .ok ([], ps.map fun x => (x.2, false)) := by
  induction ps with
  | nil => rw [visitStatements, List.map_nil]
  | cons x ps ih =>
    obtain ⟨p, n⟩ := x
    rw [visitStatements, hv _ List.mem_cons_self]
    exact bind_eq_ok_iff.mpr ⟨_, rfl, bind_eq_ok_iff.mpr
      ⟨_, ih fun y hy => hv y (List.mem_cons_of_mem _ hy), rfl⟩⟩

/-- A module of which every statement stays is a module without a mark. -/
theorem moduleMark_of_stays {text : List Char} {gone : List (Node × Bool)}
    (h : ∀ x ∈ gone, x.2 = false) : moduleMark text gone = [] := by
  rw [moduleMark]
  dsimp only
  split
  case isTrue hall =>
    rw [Bool.and_eq_true, Bool.not_eq_true', List.isEmpty_eq_false_iff] at hall
    obtain ⟨hne, hall⟩ := hall
    obtain ⟨x, hx⟩ := List.exists_mem_of_ne_nil _ hne
    have hgone := List.all_eq_true.mp hall x hx
    rw [h x (List.mem_filter.mp hx).1] at hgone
    cases hgone
  case isFalse => rfl

end Emit

/-- Without types a module is compiled to the text that it is written in, whatever the options are,
and so is every plain script: when nothing in its tree is of types and each of its imports is used
as a value. -/
theorem ModuleRecord.emit_eq_text {r : ModuleRecord} (o : CompilerOptions)
    (huntyped : r.kind.isTypeScript → r.tree.everywhere isUntyped)
    (hused : r.kind.isTypeScript →
      ∀ i ∈ r.analysis.imports, ∀ b ∈ i.bindings, b.localName ∈ r.analysis.valueRefs) :
    r.emit r.analysis o = .ok r.text := by
  rw [emit]
  split
  case isTrue => rfl
  case isFalse hkind =>
    have hkind : r.kind.isTypeScript := by simpa using hkind
    have huntyped := huntyped hkind
    have hvalues := r.analysis_isOfValues huntyped
    have hstays : ∀ i ∈ r.analysis.imports, ∀ b ∈ i.bindings,
        isElided r.analysis o.verbatimModuleSyntax b = false := by
      intro i hi b hb
      simp [isElided, (hvalues.imports i hi).2 b hb, hused hkind i hi b hb]
    have ht : (Setting.ofModule r r.analysis o.verbatimModuleSyntax).IsOfValues := by
      refine ⟨?_, fun i hi => ⟨(hvalues.imports i hi).1, hstays i hi⟩⟩
      have hnone : (r.analysis.imports.flatMap (·.bindings)).filter
          (isElided r.analysis o.verbatimModuleSyntax) = [] := by
        refine List.filter_eq_nil_iff.mpr fun b hb => ?_
        obtain ⟨i, hi, hb⟩ := List.mem_flatMap.mp hb
        simp [hstays i hi b hb]
      rw [Setting.ofModule, hnone, hvalues.typeOnlyNames]
      rfl
    refine bind_eq_ok_iff.mpr ⟨_, visitStatements_stays fun x hx p scope => visit_stays ht rfl
      ((Node.everywhere_iff.mp huntyped).2 x.2 (mem_row hx).1) _,
      bind_eq_ok_iff.mpr ⟨_, applyEdits_nil _, ?_⟩⟩
    dsimp only
    rw [moduleMark_of_stays (by simp), List.append_nil]
    exact congrArg _ String.ofList_toList

section

open Node

/-- A name is imported, and what it gives when it is called is exported. -/
def callsImport : ModuleRecord :=
  .ofTree "m.ts" "import \x7b A \x7d from './n';\nexport default A();\n" <|
    script 45
      [branch .importStatement
        [word 0 "import",
          branch .importClause
            [branch .namedImports
              [word 7 "\x7b", branch .importSpecifier [playing .name (leaf .identifier 9 10)],
                word 11 "\x7d"]],
          word 13 "from", playing .source (literal 18 3), word 23 ";"],
        branch .exportStatement
          [word 25 "export", word 32 "default",
            playing .value <| branch .callExpression
              [playing .function (leaf .identifier 40 41),
                playing .arguments (branch .arguments [word 41 "(", word 42 ")"])],
            word 43 ";"]]

/-- `emit_eq_text` for a module with an import, which stays whether types are told from values or
not. -/
theorem callsImport_emit_eq_text :
    callsImport.kind.isTypeScript ∧ callsImport.analysis.imports.length = 1 ∧
      callsImport.emit callsImport.analysis {} = .ok callsImport.text ∧
      callsImport.emit callsImport.analysis { verbatimModuleSyntax := true } =
        .ok callsImport.text := by
  have huntyped : callsImport.tree.everywhere isUntyped := by decide
  have hused : ∀ i ∈ callsImport.analysis.imports, ∀ b ∈ i.bindings,
      b.localName ∈ callsImport.analysis.valueRefs := by decide +kernel
  exact ⟨rfl, by decide +kernel, callsImport.emit_eq_text _ (fun _ => huntyped) fun _ => hused,
    callsImport.emit_eq_text _ (fun _ => huntyped) fun _ => hused⟩

end

end CompilingProxy
