import CompilingProxy.Proofs.Analysis.Exported
import CompilingProxy.Proofs.Grammar.Regular

/-!
# The names of a scope

Which names the statements of a scope declare as values of their own, and for which ones an enum or
a namespace is written out. The names that a module starts out with are those of its statements.
-/

namespace CompilingProxy

open Text

namespace Node

/-! ### Values -/

/-- The kinds of declarations of one value by its name, but for enums and namespaces. -/
def valueKinds : List Kind :=
  [.functionDeclaration, .generatorFunctionDeclaration, .functionSignature, .classDeclaration,
    .abstractClassDeclaration, .classExpression]

mutual

/-- The names that a statement declares as functions, classes or variables. -/
def valueNames (source : List Char) (n : Node) : List ExportedName :=
  match n with
  | ⟨label, role, start, stop, missing, children⟩ =>
    let n : Node := ⟨label, role, start, stop, missing, children⟩
    match n.kind? with
    | some .exportStatement => if n.hasWord "=" then [] else declaredValueNames source children
    | some .lexicalDeclaration | some .variableDeclaration =>
      ((n.children.filter (·.isA .variableDeclarator)).filterMap (·.child? .name)).flatMap
        (variableNames source)
    | some kind =>
      if valueKinds.contains kind then
        ((n.child? .name).map fun name => ⟨.name, name.text source⟩).toList
      else []
    | none => []

/-- Those of the declaration among the parts of an export. -/
def declaredValueNames (source : List Char) : List Node → List ExportedName
  | [] => []
  | n :: ns =>
    if n.role == some .declaration then n.valueNames source else declaredValueNames source ns

end

/-- Whether a statement of the block declares a function, a class or a variable of that name. -/
def declares (source : List Char) (block : Node) (name : String) : Bool :=
  block.children.any fun c => (c.valueNames source).any (·.name == name)

/-- Whether a statement of the block declares a variable of that name in a pattern. -/
def unpacks (source : List Char) (block : Node) (name : String) : Bool :=
  block.children.any fun c => (c.valueNames source).contains ⟨.pattern, name⟩

theorem valueNames_of_kind? {source : List Char} {n : Node} {k : Kind} (h : n.kind? = some k)
    (hk : k ∉ [.exportStatement, .lexicalDeclaration, .variableDeclaration]) :
    n.valueNames source =
      if valueKinds.contains k then
        ((n.child? .name).map fun name => ⟨.name, name.text source⟩).toList
      else [] := by
  cases n
  rw [valueNames]
  dsimp only
  rw [h]
  split
  case h_1 heq | h_2 heq | h_3 heq => exact absurd (by simp [Option.some.inj heq]) hk
  case h_4 heq => rw [Option.some.inj heq]
  case h_5 heq => cases heq

theorem declaredValueNames_eq_nil {source : List Char} {ns : List Node}
    (h : ns.find? (·.role == some .declaration) = none) : declaredValueNames source ns = [] := by
  induction ns with
  | nil => rw [declaredValueNames]
  | cons n ns ih =>
    rw [List.find?_cons] at h
    rw [declaredValueNames]
    split at h
    case h_1 => cases h
    case h_2 hrole =>
      rw [hrole, if_neg Bool.false_ne_true]
      exact ih h

/-- Every value is declared by its name or in a pattern. -/
theorem form_of_mem_valueNames {source : List Char} {n : Node} {x : ExportedName}
    (hx : x ∈ n.valueNames source) : x.form = .name ∨ x.form = .pattern := by
  induction n using induction_below with
  | step n ih =>
    have hdeclared : ∀ {ns}, ns ⊆ n.children → x ∈ declaredValueNames source ns →
        x.form = .name ∨ x.form = .pattern := by
      intro ns
      induction ns with
      | nil =>
        intro _ hx
        rw [declaredValueNames] at hx
        cases hx
      | cons c ns ihns =>
        intro hsub hx
        rw [declaredValueNames] at hx
        split at hx
        · exact ih c (hsub List.mem_cons_self) hx
        · exact ihns (fun d hd => hsub (List.mem_cons_of_mem _ hd)) hx
    obtain ⟨label, role, start, stop, missing, children⟩ := n
    rw [valueNames] at hx
    dsimp only at hx hdeclared
    split at hx
    case h_1 =>
      split at hx
      · cases hx
      · exact hdeclared (fun _ => id) hx
    case h_2 | h_3 =>
      obtain ⟨name, -, hx⟩ := List.mem_flatMap.mp hx
      rw [variableNames] at hx
      split at hx
      · obtain rfl := List.mem_singleton.mp hx
        exact .inl rfl
      · obtain ⟨y, -, rfl⟩ := List.mem_map.mp hx
        exact .inr rfl
    case h_4 =>
      split at hx
      · obtain ⟨name, -, rfl⟩ := Option.map_eq_some_iff.mp (Option.mem_toList.mp hx)
        exact .inl rfl
      · cases hx
    case h_5 => cases hx

/-- What a block declares by a name that no pattern in it has is declared by that name. -/
theorem exists_of_declares {source : List Char} {block : Node} {name : String}
    (h : block.declares source name) (hpattern : block.unpacks source name = false) :
    ∃ c ∈ block.children, ⟨.name, name⟩ ∈ c.valueNames source := by
  obtain ⟨c, hc, hnames⟩ := List.any_eq_true.mp h
  obtain ⟨x, hx, hname⟩ := List.any_eq_true.mp hnames
  obtain ⟨form, other⟩ := x
  obtain rfl : other = name := by simpa using hname
  rcases form_of_mem_valueNames hx with hform | hform
  · obtain rfl : form = .name := hform
    exact ⟨c, hc, hx⟩
  · obtain rfl : form = .pattern := hform
    exact absurd (List.contains_iff_mem.mpr hx) (List.any_eq_false.mp hpattern c hc)

theorem declares_of_mem {source : List Char} {block c : Node} {x : ExportedName}
    (hc : c ∈ block.children) (hx : x ∈ c.valueNames source) : block.declares source x.name :=
  List.any_eq_true.mpr ⟨c, hc, List.any_eq_true.mpr ⟨x, hx, beq_self_eq_true _⟩⟩

/-! ### Enums and namespaces -/

def isSpace (n : Node) : Bool := n.isOneOf [.internalModule, .module]

/-- The enum or namespace that a statement consists of or exports. -/
def container? (n : Node) : Option Node :=
  match n.kind? with
  | some .enumDeclaration | some .internalModule | some .module => some n
  | some .expressionStatement => n.namedChildren.head?.filter (·.isA .internalModule)
  | some .exportStatement =>
    if n.hasWord "type" then none
    else (n.child? .declaration).filter fun d => d.isA .enumDeclaration || d.isSpace
  | _ => none

/-- The name of an enum, or of a namespace of which something stays. -/
def objectName? (source : List Char) (n : Node) : Option String :=
  if n.isA .enumDeclaration then (n.child? .name).map (·.text source)
  else if n.isInstantiated && (n.child? .body).isSome then
    ((n.child? .name).filter (!·.isA .string)).map fun name => firstName (name.text source)
  else none

/-- The name of the object that is filled where the statement stood. -/
def called? (source : List Char) (n : Node) : Option String :=
  n.container?.bind (objectName? source)

mutual

/-- The names of the objects that are filled in the tree, outside of what is inside namespaces. -/
def calls (source : List Char) (n : Node) : List String :=
  match n with
  | ⟨label, role, start, stop, missing, children⟩ =>
    let n : Node := ⟨label, role, start, stop, missing, children⟩
    (n.called? source).toList ++
      if n.isSpace || n.isA .ambientDeclaration then [] else callsOf source children

def callsOf (source : List Char) : List Node → List String
  | [] => []
  | n :: ns => n.calls source ++ callsOf source ns

end

/-- The names of the objects that are filled to compute the values of an enum. -/
def innerCalls (source : List Char) (n : Node) : List String :=
  if n.isA .enumDeclaration then callsOf source n.children else []

/-- Whether the body of an enum is one, and that of a namespace a block. -/
def hasOwnBody (n : Node) : Bool :=
  (n.child? .body).all fun body =>
    (!n.isA .enumDeclaration || body.isA .enumBody) && (!n.isSpace || body.isBlock)

variable {source : List Char} {n c : Node} {name : String}

theorem callsOf_eq (source : List Char) (ns : List Node) :
    callsOf source ns = ns.flatMap (calls source) := by
  induction ns with
  | nil => rw [callsOf, List.flatMap_nil]
  | cons n ns ih => rw [callsOf, List.flatMap_cons, ih]

theorem calls_eq (source : List Char) (n : Node) :
    n.calls source = (n.called? source).toList ++
      if n.isSpace || n.isA .ambientDeclaration then [] else n.children.flatMap (calls source) := by
  cases n
  rw [calls, callsOf_eq]

theorem mem_calls_of_called? (h : n.called? source = some name) : name ∈ n.calls source := by
  rw [calls_eq, h]
  exact List.mem_append_left _ (List.mem_singleton_self name)

/-- What is filled in a part of a node is filled in the node. -/
theorem calls_subset (hspace : n.isSpace = false) (hambient : n.isA .ambientDeclaration = false) :
    n.children.flatMap (calls source) ⊆ n.calls source := by
  rw [calls_eq, hspace, hambient]
  exact List.subset_append_right _ _

theorem calls_subset_of_mem (hc : c ∈ n.children) (hspace : n.isSpace = false)
    (hambient : n.isA .ambientDeclaration = false) : c.calls source ⊆ n.calls source := by
  intro x hx
  exact calls_subset hspace hambient (List.mem_flatMap.mpr ⟨c, hc, hx⟩)

/-- The kinds of statements that an object is filled in place of. -/
def containerKinds : List Kind :=
  [.enumDeclaration, .internalModule, .module, .expressionStatement, .exportStatement]

theorem called?_eq_none (h : ∀ k ∈ containerKinds, n.kind? ≠ some k) : n.called? source = none := by
  have hcontainer : n.container? = none := by
    rw [container?]
    split
    case h_1 hk | h_2 hk | h_3 hk | h_4 hk | h_5 hk => exact absurd hk (h _ (by decide))
    case h_6 => rfl
  rw [called?, hcontainer]
  rfl

theorem called?_of_kind? {k : Kind} (h : n.kind? = some k) (hk : k ∉ containerKinds) :
    n.called? source = none := by
  apply called?_eq_none
  intro l hl heq
  rw [h] at heq
  exact hk (Option.some.inj heq ▸ hl)

theorem isNamed_of_called? (h : n.called? source = some name) : n.isNamed := by
  by_contra hword
  have hkind : n.kind? = none := kind?_eq_none_iff.mpr (by simpa using hword)
  rw [called?_eq_none fun k _ => by simp [hkind]] at h
  cases h

theorem isSpace_iff : n.isSpace ↔ n.kind? = some .internalModule ∨ n.kind? = some .module := by
  rw [isSpace, isOneOf_iff]
  simp

end Node

/-! ### What a module starts out with -/

namespace ModuleAnalysis

variable {source : List Char} {s : Setting} {a : ModuleAnalysis} {n : Node} {ns : List Node}
  {name : String}

theorem topScope_addExport : Emit.topScope (a.addExport name) = Emit.topScope a := by
  rw [addExport]
  split <;> rfl

theorem mem_topScope_declare_iff {other : String} {kind : DeclarationKind} {node : Node} :
    name ∈ Emit.topScope (a.declare s other kind node) ↔
      name ∈ Emit.topScope a ∨ s.ambient = false ∧
        (kind.isValue && !(kind == .enum || kind == .nameSpace)) = true ∧ name = other := by
  have hrest : Emit.topScope (if s.exported then a.addExport other else a) = Emit.topScope a := by
    split
    · exact topScope_addExport
    · rfl
  have hsplit : Emit.topScope (a.declare s other kind node) =
      Emit.topScope (if s.exported then a.addExport other else a) ++
        (([⟨other, kind, node.range, s.exported, s.ambient⟩] : List Declaration).filter fun d =>
          d.kind.isValue && !d.ambient && !(d.kind == .enum || d.kind == .nameSpace)).map
          (·.name) := by
    rw [declare, Emit.topScope, List.filter_append, List.map_append]
    rfl
  rw [hsplit, hrest, List.mem_append]
  refine or_congr_right ⟨fun h => ?_, ?_⟩
  · obtain ⟨d, hd, rfl⟩ := List.mem_map.mp h
    obtain ⟨hmem, htest⟩ := List.mem_filter.mp hd
    obtain rfl := List.mem_singleton.mp hmem
    rw [Bool.and_eq_true, Bool.and_eq_true, Bool.not_eq_true'] at htest
    exact ⟨htest.1.2, by rw [Bool.and_eq_true]; exact ⟨htest.1.1, htest.2⟩, rfl⟩
  · rintro ⟨hambient, hkind, rfl⟩
    rw [Bool.and_eq_true] at hkind
    refine List.mem_map.mpr ⟨_, List.mem_filter.mpr ⟨List.mem_singleton_self _, ?_⟩, rfl⟩
    rw [Bool.and_eq_true, Bool.and_eq_true, Bool.not_eq_true']
    exact ⟨⟨hkind.1, hambient⟩, hkind.2⟩

/-- What the first declaration among the parts of an export adds is all that the export adds. -/
theorem mem_topScope_declarationIn_iff
    (h : ∀ n ∈ ns, ∀ s a, name ∈ Emit.topScope (statement source s a n) ↔
      name ∈ Emit.topScope a ∨ s.ambient = false ∧ ⟨.name, name⟩ ∈ n.valueNames source) :
    name ∈ Emit.topScope (declarationIn source s a ns) ↔
      name ∈ Emit.topScope a ∨
        s.ambient = false ∧ ⟨.name, name⟩ ∈ Node.declaredValueNames source ns := by
  induction ns with
  | nil =>
    rw [declarationIn, Node.declaredValueNames]
    simp
  | cons n ns ih =>
    rw [declarationIn, Node.declaredValueNames]
    split
    · exact h n List.mem_cons_self s a
    · exact ih fun m hm => h m (List.mem_cons_of_mem _ hm)

theorem mem_topScope_statements_iff
    (h : ∀ n ∈ ns, ∀ s a, name ∈ Emit.topScope (statement source s a n) ↔
      name ∈ Emit.topScope a ∨ s.ambient = false ∧ ⟨.name, name⟩ ∈ n.valueNames source) :
    name ∈ Emit.topScope (statements source s a ns) ↔
      name ∈ Emit.topScope a ∨
        s.ambient = false ∧ ∃ n ∈ ns, ⟨.name, name⟩ ∈ n.valueNames source := by
  induction ns generalizing a with
  | nil =>
    rw [statements]
    simp
  | cons n ns ih =>
    rw [statements, ih fun m hm => h m (List.mem_cons_of_mem _ hm), h n List.mem_cons_self s a]
    simp only [List.mem_cons, exists_eq_or_imp]
    tauto

/-- Nothing that stands first in an expression adds to the values. -/
theorem topScope_firstModule
    (h : ∀ n ∈ ns, n.isA .internalModule → ∀ s a, name ∈ Emit.topScope (statement source s a n) ↔
      name ∈ Emit.topScope a) :
    name ∈ Emit.topScope (firstModule source s a ns) ↔ name ∈ Emit.topScope a := by
  induction ns with
  | nil => rw [firstModule]
  | cons n ns ih =>
    rw [firstModule]
    split
    case isTrue hmodule => exact h n List.mem_cons_self hmodule s a
    case isFalse =>
      split
      · rfl
      · exact ih fun m hm => h m (List.mem_cons_of_mem _ hm)

theorem mem_topScope_declareVariables_iff :
    name ∈ Emit.topScope (a.declareVariables s source n) ↔
      name ∈ Emit.topScope a ∨ s.ambient = false ∧ ⟨.name, name⟩ ∈
        ((n.children.filter (·.isA .variableDeclarator)).filterMap (·.child? .name)).flatMap
          (Node.variableNames source) := by
  refine declareVariables_iff (P := fun a => name ∈ Emit.topScope a) fun a kind text m hkind => ?_
  have hvalue : (kind.isValue && !(kind == .enum || kind == .nameSpace)) = true := by
    simp only [List.mem_cons, List.not_mem_nil, or_false] at hkind
    rcases hkind with rfl | rfl | rfl <;> rfl
  rw [mem_topScope_declare_iff, hvalue, eq_self, true_and]

theorem topScope_exportClause : Emit.topScope (a.exportClause source n) = Emit.topScope a := by
  rw [exportClause]
  split
  · rfl
  · refine List.foldlRecOn (motive := fun b => Emit.topScope b = Emit.topScope a) _ _ rfl
      fun b hb _ _ => ?_
    exact topScope_addExport.trans hb

theorem isObject_of_declarationKind? {k : Kind} {declared : DeclarationKind}
    (h : declarationKind? k = some declared) :
    (declared.isValue && !(declared == .enum || declared == .nameSpace)) =
      Node.valueKinds.contains k := by
  unfold declarationKind? at h
  split at h <;>
    · cases h
      try rfl

theorem exists_declarationKind?_of_isValue {k : Kind} (h : Node.valueKinds.contains k) :
    ∃ declared, declarationKind? k = some declared := by
  simp only [Node.valueKinds, List.contains_cons, List.contains_nil, Bool.or_false,
    Bool.or_eq_true, beq_iff_eq] at h
  rcases h with rfl | rfl | rfl | rfl | rfl | rfl <;> exact ⟨_, rfl⟩

/-- A statement adds the names that it declares as values, unless they exist elsewhere. -/
theorem mem_topScope_statement_iff :
    name ∈ Emit.topScope (statement source s a n) ↔
      name ∈ Emit.topScope a ∨ s.ambient = false ∧ ⟨.name, name⟩ ∈ n.valueNames source := by
  induction n using Node.induction_below generalizing s a with
  | step n ih =>
    have hnone {k : Kind} {b : ModuleAnalysis} (hk : n.kind? = some k)
        (hplain : k ∉ [.exportStatement, .lexicalDeclaration, .variableDeclaration] ++
          Node.valueKinds) (hb : Emit.topScope b = Emit.topScope a) :
        name ∈ Emit.topScope b ↔
          name ∈ Emit.topScope a ∨ s.ambient = false ∧ ⟨.name, name⟩ ∈ n.valueNames source := by
      rw [List.mem_append, not_or] at hplain
      rw [hb, Node.valueNames_of_kind? hk hplain.1, if_neg (by simpa using hplain.2)]
      simp
    obtain ⟨label, role, start, stop, missing, children⟩ := n
    rw [statement]
    dsimp only at ih ⊢
    split
    case h_1 hk | h_2 hk => exact hnone hk (by decide) rfl
    case h_3 hk =>
      rw [Node.valueNames]
      dsimp only
      rw [hk]
      dsimp only
      split
      · simp [Emit.topScope]
      · split
        · rw [mem_topScope_declarationIn_iff fun c hc s a => ih c hc]
          rfl
        case isFalse hdeclaration =>
          rw [Node.declaredValueNames_eq_nil (by simpa [Node.child?] using hdeclaration)]
          split
          · simp [Emit.topScope]
          · rw [topScope_exportClause]
            simp [Emit.topScope]
    case h_4 hk =>
      rw [mem_topScope_statements_iff fun c hc s a => ih c hc]
      refine Iff.trans ?_ (hnone hk (by decide) rfl)
      simp
    case h_5 hk =>
      refine Iff.trans (topScope_firstModule fun c hc hmodule s a => ?_) (hnone hk (by decide) rfl)
      rw [ih c hc, Node.valueNames_of_kind? (Node.isA_iff.mp hmodule) (by decide),
        if_neg (by decide)]
      simp
    case h_6 hk | h_7 hk =>
      split
      · exact hnone hk (by decide) rfl
      · split
        · exact hnone hk (by decide) rfl
        · rw [mem_topScope_declare_iff]
          refine Iff.trans ?_ (hnone hk (by decide) rfl)
          simp
    case h_8 hk | h_9 hk =>
      rw [mem_topScope_declareVariables_iff, Node.valueNames]
      dsimp only
      rw [hk]
    case h_10 kind _ _ hexport _ _ _ _ hlexical hvariable hk =>
      have hplain : kind ∉ [.exportStatement, .lexicalDeclaration, .variableDeclaration] := by
        simp only [List.mem_cons, List.not_mem_nil, or_false]
        rintro (rfl | rfl | rfl)
        · exact hexport rfl
        · exact hlexical rfl
        · exact hvariable rfl
      rw [Node.valueNames_of_kind? hk hplain]
      split
      case h_1 declared name hdeclared hname =>
        rw [mem_topScope_declare_iff, isObject_of_declarationKind? hdeclared, hname]
        cases Node.valueKinds.contains kind <;> simp
      case h_2 hneither =>
        cases hvalue : Node.valueKinds.contains kind with
        | false => simp
        | true =>
          obtain ⟨declared, hdeclared⟩ := exists_declarationKind?_of_isValue hvalue
          cases hname : Node.child? ⟨label, role, start, stop, missing, children⟩ .name with
          | none => simp
          | some name => exact absurd hname (hneither declared name hdeclared)
    case h_11 hk =>
      rw [Node.valueNames]
      dsimp only
      rw [hk]
      simp

end ModuleAnalysis

/-- The names that a module starts out with are those that its statements declare as values. -/
theorem ModuleRecord.mem_topScope_iff {r : ModuleRecord} {name : String} :
    name ∈ Emit.topScope r.analysis ↔
      ∃ n ∈ r.tree.children, ⟨.name, name⟩ ∈ n.valueNames r.text.toList := by
  have hdeclarations : Emit.topScope r.analysis =
      Emit.topScope (ModuleAnalysis.statements r.text.toList {} {} r.tree.children) := rfl
  rw [hdeclarations, ModuleAnalysis.mem_topScope_statements_iff fun _ _ _ _ =>
    ModuleAnalysis.mem_topScope_statement_iff]
  simp [Emit.topScope]

end CompilingProxy
