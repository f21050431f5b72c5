import CompilingProxy.Proofs.Emit.Declared

/-!
# What a module declares

The declarations that the statements of a module make, among those that are exported and those that
say of something that it exists elsewhere. The analysis lists them by their names, as types or as
values, and the main result is that a name which it takes for one of types alone is declared as a
type and as nothing else.
-/

namespace CompilingProxy

open Text

namespace Node

/-- The statement makes the declaration: it is the statement, or stands in it. -/
inductive Makes : Node → Node → Prop
  | here (n : Node) : Makes n n
  | exported {n d c : Node} (hkind : n.isA .exportStatement) (hplain : n.hasWord "=" = false)
      (hd : n.child? .declaration = some d) (h : Makes d c) : Makes n c
  | ambient {n d c : Node} (hkind : n.isA .ambientDeclaration) (hd : d ∈ n.children)
      (h : Makes d c) : Makes n c
  | space {n c : Node} (hkind : n.isA .expressionStatement)
      (hc : n.namedChildren.head? = some c) (hspace : c.isA .internalModule) : Makes n c

/-- The names that the declaration binds by itself. -/
def ownNames (source : List Char) (n : Node) : List ExportedName :=
  if n.isA .ambientDeclaration then []
  else if n.isA .classExpression then
    ((n.child? .name).map fun name => ⟨.name, name.text source⟩).toList
  else n.boundNames source

/-- Declarations of types, which are no values. -/
def isTypeDeclaration (n : Node) : Bool :=
  n.isOneOf [.interfaceDeclaration, .typeAliasDeclaration]

/-- A declaration of the statement, of a value or of a type, binds the name by itself. -/
def Declares (source : List Char) (n : Node) (name : String) (value : Bool) : Prop :=
  ∃ c, n.Makes c ∧ c.isTypeDeclaration = !value ∧ ⟨.name, name⟩ ∈ c.ownNames source

/-- No namespace that the statement declares has something else than blanks in front of the first
dot of its name. -/
def IsTight (source : List Char) (n : Node) : Prop :=
  ∀ c, n.Makes c → ∀ x ∈ c.ownNames source, x.form ≠ .dotted

variable {source : List Char} {n c : Node} {name : String} {value : Bool}

/-- The kinds of statements that declarations stand in. -/
def holdingKinds : List Kind := [.exportStatement, .ambientDeclaration, .expressionStatement]

theorem Makes.eq_of_kind? {k : Kind} (h : n.Makes c) (hk : n.kind? = some k)
    (hplain : k ∉ holdingKinds) : c = n := by
  cases h with
  | here => rfl
  | exported hkind | ambient hkind | space hkind =>
    rw [isA_iff, hk] at hkind
    exact absurd (Option.some.inj hkind ▸ by decide) hplain

theorem declares_of_kind? {k : Kind} (hk : n.kind? = some k) (hplain : k ∉ holdingKinds) :
    n.Declares source name value ↔
      n.isTypeDeclaration = !value ∧ ⟨.name, name⟩ ∈ n.ownNames source := by
  constructor
  · rintro ⟨c, hmakes, h⟩
    rwa [hmakes.eq_of_kind? hk hplain] at h
  · exact fun h => ⟨n, .here n, h⟩

theorem ownNames_of_holds {k : Kind} (hk : n.kind? = some k) (hholds : k ∈ holdingKinds) :
    n.ownNames source = [] := by
  cases n
  rw [ownNames, isA_eq_kind?, isA_eq_kind?, boundNames]
  dsimp only
  rw [hk]
  simp only [holdingKinds, List.mem_cons, List.not_mem_nil, or_false] at hholds
  rcases hholds with rfl | rfl | rfl <;> rfl

/-- The kinds of declarations that bind more or other names than the one that they have. -/
def manifoldKinds : List Kind :=
  [.lexicalDeclaration, .variableDeclaration, .internalModule, .module, .importAlias,
    .ambientDeclaration]

theorem boundNames_of_kind? {k : Kind} (hk : n.kind? = some k) (hplain : k ∉ manifoldKinds) :
    n.boundNames source = if namingKinds.contains k then
      ((n.child? .name).map fun name => ⟨.name, name.text source⟩).toList else [] := by
  cases n
  rw [boundNames]
  dsimp only
  rw [hk]
  split
  case h_1 heq | h_2 heq | h_3 heq | h_4 heq | h_5 heq | h_6 heq =>
    exact absurd (Option.some.inj heq ▸ by decide) hplain
  case h_7 heq => rw [Option.some.inj heq]
  case h_8 heq => cases heq

theorem ownNames_of_kind? {k : Kind} (hk : n.kind? = some k) (hplain : k ∉ manifoldKinds) :
    n.ownNames source = if (declarationKind? k).isSome then
      ((n.child? .name).map fun name => ⟨.name, name.text source⟩).toList else [] := by
  have hkinds :
      (declarationKind? k).isSome = (k == .classExpression || namingKinds.contains k) := by
    cases k <;> rfl
  have hambient : k ≠ .ambientDeclaration := by
    rintro rfl
    exact hplain (by decide)
  rw [ownNames, isA_eq_kind?, isA_eq_kind?, hk, hkinds, if_neg (by simpa using hambient)]
  by_cases hclass : k = .classExpression
  · simp [hclass]
  · rw [if_neg (by simpa using hclass), boundNames_of_kind? hk hplain]
    simp [hclass]

/-- Variables, namespaces and aliases bind by themselves what they bind. -/
theorem ownNames_eq_boundNames {k : Kind} (hk : n.kind? = some k)
    (hmanifold : k ∈ [.lexicalDeclaration, .variableDeclaration, .internalModule, .module,
      .importAlias]) :
    n.ownNames source = n.boundNames source := by
  rw [ownNames, isA_eq_kind?, isA_eq_kind?, hk]
  simp only [List.mem_cons, List.not_mem_nil, or_false] at hmanifold
  rcases hmanifold with rfl | rfl | rfl | rfl | rfl <;> rfl

theorem declares_export_iff (hk : n.kind? = some .exportStatement) :
    n.Declares source name value ↔ n.hasWord "=" = false ∧
      ∃ d, n.child? .declaration = some d ∧ d.Declares source name value := by
  constructor
  · rintro ⟨c, hmakes, htype, hname⟩
    cases hmakes with
    | here =>
      rw [ownNames_of_holds hk (by decide)] at hname
      cases hname
    | exported _ hplain hd h => exact ⟨hplain, _, hd, c, h, htype, hname⟩
    | ambient hkind | space hkind =>
      rw [isA_iff, hk] at hkind
      cases hkind
  · rintro ⟨hplain, d, hd, c, h, hc⟩
    exact ⟨c, .exported (isA_iff.mpr hk) hplain hd h, hc⟩

theorem declares_ambient_iff (hk : n.kind? = some .ambientDeclaration) :
    n.Declares source name value ↔ ∃ d ∈ n.children, d.Declares source name value := by
  constructor
  · rintro ⟨c, hmakes, htype, hname⟩
    cases hmakes with
    | here =>
      rw [ownNames_of_holds hk (by decide)] at hname
      cases hname
    | ambient _ hd h => exact ⟨_, hd, c, h, htype, hname⟩
    | exported hkind | space hkind =>
      rw [isA_iff, hk] at hkind
      cases hkind
  · rintro ⟨d, hd, c, h, hc⟩
    exact ⟨c, .ambient (isA_iff.mpr hk) hd h, hc⟩

theorem declares_expression_iff (hk : n.kind? = some .expressionStatement) :
    n.Declares source name value ↔ ∃ c,
      n.namedChildren.head?.filter (·.isA .internalModule) = some c ∧
        c.Declares source name value := by
  simp only [Option.filter_eq_some_iff]
  constructor
  · rintro ⟨c, hmakes, htype, hname⟩
    cases hmakes with
    | here =>
      rw [ownNames_of_holds hk (by decide)] at hname
      cases hname
    | space _ hc hspace => exact ⟨c, ⟨hc, hspace⟩, c, .here c, htype, hname⟩
    | exported hkind | ambient hkind =>
      rw [isA_iff, hk] at hkind
      cases hkind
  · rintro ⟨c, ⟨hc, hspace⟩, e, hmakes, he⟩
    rw [hmakes.eq_of_kind? (isA_iff.mp hspace) (by decide)] at he
    exact ⟨c, .space (isA_iff.mpr hk) hc hspace, he⟩

theorem boundNames_space (hspace : n.isSpace) :
    n.boundNames source =
      (((n.child? .name).filter (!·.isA .string)).map (spaceName source)).toList := by
  rw [isSpace_iff] at hspace
  cases n
  rw [boundNames]
  rcases hspace with hk | hk <;> simp only [hk]

theorem ownNames_space (hspace : n.isSpace) :
    n.ownNames source =
      (((n.child? .name).filter (!·.isA .string)).map (spaceName source)).toList := by
  rw [← boundNames_space hspace]
  rw [isSpace_iff] at hspace
  rcases hspace with hk | hk <;> exact ownNames_eq_boundNames hk (by decide)

theorem declares_space_iff (hspace : n.isSpace) :
    n.Declares source name value ↔ value = true ∧ ⟨.name, name⟩ ∈
      (((n.child? .name).filter (!·.isA .string)).map (spaceName source)).toList := by
  rw [← ownNames_space hspace]
  rw [isSpace_iff] at hspace
  rcases hspace with hk | hk <;>
    · rw [declares_of_kind? hk (by decide), isTypeDeclaration, isOneOf_of_kind? hk]
      cases value <;> simp

end Node

/-! ### What the analysis lists -/

namespace ModuleAnalysis

variable {source : List Char} {s : Setting} {a : ModuleAnalysis} {n : Node} {ns : List Node}
  {name : String} {value : Bool}

/-- The name is listed as that of a value or of a type. -/
def Lists (a : ModuleAnalysis) (name : String) (value : Bool) : Prop :=
  ∃ d ∈ a.declarations, d.name = name ∧ d.kind.isValue = value

theorem lists_addExport_iff {other : String} :
    (a.addExport other).Lists name value ↔ a.Lists name value := by
  rw [addExport]
  split <;> rfl

theorem lists_declare_iff {other : String} {kind : DeclarationKind} {node : Node} :
    (a.declare s other kind node).Lists name value ↔
      a.Lists name value ∨ kind.isValue = value ∧ name = other := by
  have hrest : (if s.exported then a.addExport other else a).Lists name value ↔
      a.Lists name value := by
    split
    · exact lists_addExport_iff
    · rfl
  rw [← hrest, declare, Lists, Lists, eq_comm (a := name), and_comm (a := kind.isValue = value)]
  simp only [List.mem_append, List.mem_singleton, or_and_right, exists_or, exists_eq_left]

theorem lists_declareVariables_iff :
    (a.declareVariables s source n).Lists name value ↔
      a.Lists name value ∨ value = true ∧ ⟨.name, name⟩ ∈
        ((n.children.filter (·.isA .variableDeclarator)).filterMap (·.child? .name)).flatMap
          (Node.variableNames source) := by
  refine declareVariables_iff (P := fun a => a.Lists name value) fun a kind text m hkind => ?_
  have hvalue : kind.isValue = true := by
    simp only [List.mem_cons, List.not_mem_nil, or_false] at hkind
    rcases hkind with rfl | rfl | rfl <;> rfl
  rw [lists_declare_iff, hvalue, eq_comm (a := value)]

theorem lists_exportClause_iff :
    (a.exportClause source n).Lists name value ↔ a.Lists name value := by
  rw [exportClause]
  split
  · rfl
  · refine List.foldlRecOn
      (motive := fun b : ModuleAnalysis => b.Lists name value ↔ a.Lists name value) _ _ Iff.rfl
      fun b hb _ _ => ?_
    exact lists_addExport_iff.trans hb

theorem lists_statements_iff
    (h : ∀ n ∈ ns, ∀ s a, (statement source s a n).Lists name value ↔
      a.Lists name value ∨ n.Declares source name value) :
    (statements source s a ns).Lists name value ↔
      a.Lists name value ∨ ∃ n ∈ ns, n.Declares source name value := by
  induction ns generalizing a with
  | nil =>
    rw [statements]
    simp
  | cons n ns ih =>
    rw [statements, ih fun m hm => h m (List.mem_cons_of_mem _ hm), h n List.mem_cons_self s a]
    simp only [List.mem_cons, exists_eq_or_imp]
    tauto

theorem firstModule_eq :
    firstModule source s a ns =
      (((ns.filter Node.isNamed).head?.filter (·.isA .internalModule)).map
        (statement source s a)).getD a := by
  induction ns with
  | nil => rw [firstModule]; rfl
  | cons n ns ih =>
    rw [firstModule]
    split
    case isTrue hmodule =>
      have hnamed : n.isNamed := by
        rw [← Bool.not_eq_false, ← Node.kind?_eq_none_iff, Node.isA_iff.mp hmodule]
        exact Option.some_ne_none _
      rw [List.filter_cons_of_pos hnamed, List.head?_cons, Option.filter_some, if_pos hmodule]
      rfl
    case isFalse hmodule =>
      split
      case isTrue hnamed =>
        rw [List.filter_cons_of_pos hnamed, List.head?_cons, Option.filter_some, if_neg hmodule]
        rfl
      case isFalse hnamed => rw [ih, List.filter_cons_of_neg hnamed]

theorem isValue_of_declarationKind? {k : Kind} {declared : DeclarationKind}
    (h : declarationKind? k = some declared) :
    declared.isValue = !([Kind.interfaceDeclaration, .typeAliasDeclaration].contains k) := by
  unfold declarationKind? at h
  split at h <;>
    · cases h
      try rfl

theorem statement_space (hspace : n.isSpace) :
    statement source s a n =
      match n.child? .name with
      | none => a
      | some name =>
        if name.isA .string then
          { a with ambientModules := a.ambientModules ++ [name.unquoted source] }
        else a.declare s (firstName (name.text source)) .nameSpace name := by
  rw [Node.isSpace_iff] at hspace
  cases n
  rw [statement]
  rcases hspace with hk | hk <;> simp only [hk] <;> rfl

/-- A namespace adds the first of its names. -/
theorem lists_space_iff (hspace : n.isSpace) (htight : n.IsTight source) :
    (statement source s a n).Lists name value ↔
      a.Lists name value ∨ n.Declares source name value := by
  have hdeclares : n.Declares source name value ↔ _ := Node.declares_space_iff hspace
  rw [statement_space hspace]
  split
  case h_1 hname => simp [hdeclares, hname]
  case h_2 m hname =>
    split
    case isTrue hstring => simp [hdeclares, hname, hstring, Lists]
    case isFalse hstring =>
      have hown : n.ownNames source = [Node.spaceName source m] := by
        rw [Node.ownNames_space hspace, hname, Option.filter_some, if_pos (by simpa using hstring)]
        rfl
      have hform : (Node.spaceName source m).form ≠ .dotted :=
        htight n (.here n) _ (by simp [hown])
      have hm : m.isTight source := by
        by_contra hloose
        exact hform (by simp [Node.spaceName, hloose])
      rw [lists_declare_iff, firstName_of_isTight hm, hdeclares, hname, Option.filter_some,
        if_pos (by simpa using hstring)]
      simp only [Node.spaceName, if_pos hm, Option.map_some, Option.toList_some,
        List.mem_singleton, ExportedName.mk.injEq, true_and]
      exact or_congr_right (and_congr_left fun _ => eq_comm)

/-- What is not about declarations leaves the list as it is. -/
theorem lists_iff_of_notMem {k : Kind} {b : ModuleAnalysis} (hk : n.kind? = some k)
    (hholds : k ∉ Node.holdingKinds) (hnames : ⟨.name, name⟩ ∉ n.ownNames source)
    (hb : b.declarations = a.declarations) :
    b.Lists name value ↔ a.Lists name value ∨ n.Declares source name value := by
  rw [Node.declares_of_kind? hk hholds, Lists, Lists, hb]
  simp [hnames]

theorem lists_word_iff (hk : n.kind? = none) :
    (statement source s a n).Lists name value ↔
      a.Lists name value ∨ n.Declares source name value := by
  have hdeclares : ¬ n.Declares source name value := by
    rintro ⟨c, hmakes, -, hname⟩
    cases hmakes with
    | here =>
      cases n
      rw [Node.ownNames, Node.isA_eq_kind?, Node.isA_eq_kind?, Node.boundNames] at hname
      simp [hk] at hname
    | exported hkind | ambient hkind | space hkind =>
      rw [Node.isA_iff, hk] at hkind
      cases hkind
  have hstatement : statement source s a n = a := by
    cases n
    rw [statement]
    simp only [hk]
  rw [hstatement, or_iff_left hdeclares]

/-- An alias binds another thing's name, and the list does not have it. -/
theorem lists_alias_iff (hk : n.kind? = some .importAlias) :
    (statement source s a n).Lists name value ↔
      a.Lists name value ∨ n.Declares source name value := by
  refine lists_iff_of_notMem hk (by decide) ?_ ?_
  · rw [Node.ownNames_eq_boundNames hk (by decide)]
    cases n
    rw [Node.boundNames]
    simp [hk]
  · cases n
    rw [statement]
    simp only [hk]

/-- An export adds what its declaration adds, unless it assigns. -/
theorem lists_export_iff (hk : n.kind? = some .exportStatement)
    (h : ∀ d, n.hasWord "=" = false → n.child? .declaration = some d → ∀ s a,
      (statement source s a d).Lists name value ↔
        a.Lists name value ∨ d.Declares source name value) :
    (statement source s a n).Lists name value ↔
      a.Lists name value ∨ n.Declares source name value := by
  rw [Node.declares_export_iff hk]
  obtain ⟨label, role, start, stop, missing, children⟩ := n
  rw [statement]
  simp only [hk]
  split
  case isTrue hassign => simp [hassign, Lists]
  case isFalse hassign =>
    rw [Bool.not_eq_true] at hassign
    split
    case isTrue hd =>
      obtain ⟨d, hd⟩ := Option.isSome_iff_exists.mp hd
      rw [declarationIn_eq hd, h d hassign hd]
      simp [hassign, hd, Lists]
    case isFalse hd =>
      rw [Option.not_isSome_iff_eq_none] at hd
      split
      · simp [hd, Lists]
      · rw [lists_exportClause_iff]
        simp [hd, Lists]

/-- An ambient declaration adds what is declared in it. -/
theorem lists_ambient_iff (hk : n.kind? = some .ambientDeclaration)
    (h : ∀ c ∈ n.children, ∀ s a, (statement source s a c).Lists name value ↔
      a.Lists name value ∨ c.Declares source name value) :
    (statement source s a n).Lists name value ↔
      a.Lists name value ∨ n.Declares source name value := by
  have hstatement : statement source s a n =
      statements source { s with ambient := true } a n.children := by
    cases n
    rw [statement]
    simp only [hk]
  rw [hstatement, Node.declares_ambient_iff hk, lists_statements_iff h]

/-- An expression adds what the namespace adds that it begins with. -/
theorem lists_expression_iff (hk : n.kind? = some .expressionStatement)
    (h : ∀ c, n.namedChildren.head? = some c → c.isA .internalModule → ∀ s a,
      (statement source s a c).Lists name value ↔
        a.Lists name value ∨ c.Declares source name value) :
    (statement source s a n).Lists name value ↔
      a.Lists name value ∨ n.Declares source name value := by
  have hstatement : statement source s a n =
      ((n.namedChildren.head?.filter (·.isA .internalModule)).map (statement source s a)).getD
        a := by
    obtain ⟨label, role, start, stop, missing, children⟩ := n
    rw [statement]
    simp only [hk]
    exact firstModule_eq
  rw [hstatement, Node.declares_expression_iff hk]
  cases hc : n.namedChildren.head?.filter (·.isA .internalModule) with
  | none => simp
  | some c =>
    obtain ⟨hhead, hmodule⟩ := Option.filter_eq_some_iff.mp hc
    rw [Option.map_some, Option.getD_some, h c hhead hmodule]
    simp

theorem lists_declaredVariables_iff {k : Kind} (hk : n.kind? = some k)
    (hvariable : k ∈ [.lexicalDeclaration, .variableDeclaration]) :
    (statement source s a n).Lists name value ↔
      a.Lists name value ∨ n.Declares source name value := by
  obtain ⟨label, role, start, stop, missing, children⟩ := n
  rw [statement]
  simp only [List.mem_cons, List.not_mem_nil, or_false] at hvariable
  rcases hvariable with rfl | rfl <;>
    · simp only [hk]
      rw [lists_declareVariables_iff, Node.declares_of_kind? hk (by decide),
        Node.ownNames_eq_boundNames hk (by decide), Node.boundNames,
        Node.isTypeDeclaration, Node.isOneOf_of_kind? hk]
      simp only [hk]
      cases value <;> simp

/-- A declaration of any other kind adds the name that it has. -/
theorem lists_named_iff {k : Kind} (hk : n.kind? = some k) (hmanifold : k ∉ Node.manifoldKinds)
    (hholds : k ∉ Node.holdingKinds) :
    (statement source s a n).Lists name value ↔
      a.Lists name value ∨ n.Declares source name value := by
  obtain ⟨label, role, start, stop, missing, children⟩ := n
  rw [statement]
  dsimp only
  split
  case h_1 himport =>
    refine lists_iff_of_notMem hk hholds ?_ rfl
    rw [Node.ownNames_of_kind? himport (by decide)]
    exact List.not_mem_nil
  case h_2 hother | h_4 hother | h_6 hother | h_7 hother | h_8 hother | h_9 hother =>
    exact absurd (Option.some.inj (hk.symm.trans hother) ▸ by decide) hmanifold
  case h_3 hother | h_5 hother =>
    exact absurd (Option.some.inj (hk.symm.trans hother) ▸ by decide) hholds
  case h_10 hkind =>
    obtain rfl := Option.some.inj (hk.symm.trans hkind)
    rw [Node.declares_of_kind? hk hholds, Node.ownNames_of_kind? hk hmanifold,
      Node.isTypeDeclaration, Node.isOneOf_of_kind? hk]
    split
    case h_1 declared m hdeclared hname =>
      rw [lists_declare_iff, isValue_of_declarationKind? hdeclared, hdeclared, hname]
      simp only [Option.isSome_some, if_true, Option.map_some, Option.toList_some,
        List.mem_singleton, ExportedName.mk.injEq, true_and]
      refine or_congr_right (and_congr_left fun _ => ?_)
      rw [Bool.not_eq_eq_eq_not]
    case h_2 hneither =>
      cases hdeclared : declarationKind? k with
      | none => simp
      | some declared =>
        cases hname : Node.child? ⟨label, role, start, stop, missing, children⟩ .name with
        | none => simp
        | some m => exact absurd hname (hneither declared m hdeclared)
  case h_11 hnone =>
    rw [hk] at hnone
    cases hnone

/-- A statement adds the names of the declarations that it makes. -/
theorem lists_statement_iff (htight : n.IsTight source) :
    (statement source s a n).Lists name value ↔
      a.Lists name value ∨ n.Declares source name value := by
  induction n using Node.induction_below generalizing s a with
  | step n ih =>
    cases hk : n.kind? with
    | none => exact lists_word_iff hk
    | some k =>
      by_cases hholds : k ∈ Node.holdingKinds
      · have hbelow {c : Node} (hc : c ∈ n.children) (hmakes : ∀ {e}, c.Makes e → n.Makes e)
            (s : Setting) (a : ModuleAnalysis) : (statement source s a c).Lists name value ↔
              a.Lists name value ∨ c.Declares source name value :=
          ih c hc fun e he => htight e (hmakes he)
        simp only [Node.holdingKinds, List.mem_cons, List.not_mem_nil, or_false] at hholds
        rcases hholds with rfl | rfl | rfl
        · exact lists_export_iff hk fun d hassign hd => hbelow (List.mem_of_find?_eq_some hd)
            (.exported (Node.isA_iff.mpr hk) hassign hd)
        · exact lists_ambient_iff hk fun c hc =>
            hbelow hc (.ambient (Node.isA_iff.mpr hk) hc)
        · refine lists_expression_iff hk fun c hc hspace =>
            hbelow (List.mem_filter.mp (List.mem_of_head? hc)).1 fun he => ?_
          rw [he.eq_of_kind? (Node.isA_iff.mp hspace) (by decide)]
          exact .space (Node.isA_iff.mpr hk) hc hspace
      by_cases hmanifold : k ∈ Node.manifoldKinds
      · simp only [Node.manifoldKinds, List.mem_cons, List.not_mem_nil, or_false] at hmanifold
        rcases hmanifold with rfl | rfl | rfl | rfl | rfl | rfl
        · exact lists_declaredVariables_iff hk (by decide)
        · exact lists_declaredVariables_iff hk (by decide)
        · exact lists_space_iff (Node.isSpace_iff.mpr (.inl hk)) htight
        · exact lists_space_iff (Node.isSpace_iff.mpr (.inr hk)) htight
        · exact lists_alias_iff hk
        · exact absurd (by decide) hholds
      · exact lists_named_iff hk hmanifold hholds

theorem mem_typeOnlyNames_iff :
    name ∈ a.typeOnlyNames ↔ a.Lists name false ∧ ¬ a.Lists name true := by
  rw [typeOnlyNames, List.mem_eraseDups]
  simp only [List.mem_map, List.mem_filter, Bool.and_eq_true, Bool.not_eq_true', Lists]
  constructor
  · rintro ⟨d, ⟨hd, htype, hvalues⟩, rfl⟩
    refine ⟨⟨d, hd, rfl, htype⟩, ?_⟩
    rintro ⟨e, he, hname, hvalue⟩
    have hmem : d.name ∈ (a.declarations.filter (·.kind.isValue)).map (·.name) :=
      List.mem_map.mpr ⟨e, List.mem_filter.mpr ⟨he, hvalue⟩, hname⟩
    rw [← List.contains_iff_mem, hvalues] at hmem
    cases hmem
  · rintro ⟨⟨d, hd, rfl, htype⟩, hvalues⟩
    refine ⟨d, ⟨hd, htype, ?_⟩, rfl⟩
    rw [← Bool.not_eq_true, List.contains_iff_mem]
    intro hmem
    obtain ⟨e, he, hname⟩ := List.mem_map.mp hmem
    obtain ⟨he, hvalue⟩ := List.mem_filter.mp he
    exact hvalues ⟨e, he, hname, hvalue⟩

end ModuleAnalysis

/-- A module's names for types alone are those that it declares as types and not as values. -/
theorem ModuleRecord.mem_typeOnlyNames_iff {r : ModuleRecord} {name : String}
    (htight : ∀ n ∈ r.tree.children, n.IsTight r.text.toList) :
    name ∈ r.analysis.typeOnlyNames ↔
      (∃ n ∈ r.tree.children, n.Declares r.text.toList name false) ∧
        ¬ ∃ n ∈ r.tree.children, n.Declares r.text.toList name true := by
  have hlists : ∀ value, r.analysis.Lists name value ↔
      ∃ n ∈ r.tree.children, n.Declares r.text.toList name value := by
    intro value
    have hdeclarations : r.analysis.Lists name value ↔
        (ModuleAnalysis.statements r.text.toList {} {} r.tree.children).Lists name value := Iff.rfl
    rw [hdeclarations, ModuleAnalysis.lists_statements_iff fun n hn s a =>
      ModuleAnalysis.lists_statement_iff (htight n hn)]
    simp [ModuleAnalysis.Lists]
  rw [ModuleAnalysis.mem_typeOnlyNames_iff, hlists, hlists]

end CompilingProxy
