import CompilingProxy.Proofs.Analysis.ImportOrder
import CompilingProxy.Proofs.Analysis.Kept
import CompilingProxy.Proofs.Text.Split
import Mathlib.Data.List.TakeWhile

/-!
# What a module exports by itself

The names that a module's own declarations and clauses export, told from the declarations alone: a
declaration binds names, an export passes them on. The analysis lists them, but for some of those
that are not bound by a plain name.
-/

namespace CompilingProxy

open Text

/-- How an exported name is bound. -/
inductive ExportForm where
  /-- As what the module exports by default. -/
  | default
  /-- By the name of a declaration, or in a list of names. -/
  | name
  /-- By the first name of a dotted one, with something else than blanks in front of the dot. -/
  | dotted
  /-- In a pattern that takes values apart. -/
  | pattern
  /-- By `import A = B.C`. -/
  | alias
deriving DecidableEq, Repr

/-- A name that a module exports, as it is written. -/
structure ExportedName where
  form : ExportForm
  name : String
deriving DecidableEq, Repr

namespace Node

mutual

/-- The names that a pattern binds. -/
def patternNames (source : List Char) (n : Node) : List String :=
  match n with
  | ⟨label, role, start, stop, missing, children⟩ =>
    let n : Node := ⟨label, role, start, stop, missing, children⟩
    match n.kind? with
    | some .identifier | some .shorthandPropertyIdentifierPattern => [n.text source]
    | some .arrayPattern | some .objectPattern | some .restPattern =>
      patternNamesOf source none children
    | some .pairPattern => patternNamesOf source (some .value) children
    | some .assignmentPattern | some .objectAssignmentPattern =>
      patternNamesOf source (some .left) children
    | _ => []

/-- The names that the parts of a pattern bind, of those with the role if one is given. -/
def patternNamesOf (source : List Char) (role : Option Role) : List Node → List String
  | [] => []
  | n :: ns =>
    (if role.isNone || n.role == role then n.patternNames source else []) ++
      patternNamesOf source role ns

end

mutual

/-- The first of the leaves of the tree. -/
def firstLeaf (n : Node) : Node :=
  match n with
  | ⟨label, role, start, stop, missing, children⟩ =>
    firstLeafOf ⟨label, role, start, stop, missing, children⟩ children

def firstLeafOf (n : Node) : List Node → Node
  | [] => n
  | c :: _ => c.firstLeaf

end

/-- Whether nothing but blanks stands between the first of the names and the dot behind it. -/
def isTight (source : List Char) (name : Node) : Bool :=
  let first := slice source name.firstLeaf.start name.firstLeaf.stop
  first.all (fun c => !isBlank c && c != '.') &&
    (dropFront? first (slice source name.start name.stop)).any fun rest =>
      (rest.dropWhile isBlank).head?.all (· == '.')

/-- The name that a namespace is bound by, which is the first one of a dotted name. -/
def spaceName (source : List Char) (name : Node) : ExportedName :=
  ⟨if name.isTight source then .name else .dotted, name.firstLeaf.text source⟩

/-- The names that a variable is declared by. -/
def variableNames (source : List Char) (name : Node) : List ExportedName :=
  if name.isA .identifier then [⟨.name, name.text source⟩]
  else (name.patternNames source).map (⟨.pattern, ·⟩)

/-- The kinds of declarations that bind the name that they have. -/
def namingKinds : List Kind :=
  [.functionDeclaration, .generatorFunctionDeclaration, .functionSignature, .classDeclaration,
    .abstractClassDeclaration, .enumDeclaration, .interfaceDeclaration, .typeAliasDeclaration]

mutual

/-- The names that a declaration binds. -/
def boundNames (source : List Char) (n : Node) : List ExportedName :=
  match n with
  | ⟨label, role, start, stop, missing, children⟩ =>
    let n : Node := ⟨label, role, start, stop, missing, children⟩
    match n.kind? with
    | some .lexicalDeclaration | some .variableDeclaration =>
      ((n.children.filter (·.isA .variableDeclarator)).filterMap (·.child? .name)).flatMap
        (variableNames source)
    | some .internalModule | some .module =>
      (((n.child? .name).filter (!·.isA .string)).map (spaceName source)).toList
    | some .importAlias =>
      ((n.childOf? .identifier).map fun name => ⟨.alias, name.text source⟩).toList
    | some .ambientDeclaration => boundNamesOf source children
    | some kind =>
      if namingKinds.contains kind then
        ((n.child? .name).map fun name => ⟨.name, name.text source⟩).toList
      else []
    | none => []

/-- The names that the declarations bind. -/
def boundNamesOf (source : List Char) : List Node → List ExportedName
  | [] => []
  | n :: ns => n.boundNames source ++ boundNamesOf source ns

end

/-- The name that a specifier in a list of names exports. -/
def specifierName? (source : List Char) (spec : Node) : Option ExportedName := do
  let name ← spec.child? .name
  let exported := ((spec.child? .alias).getD name).unquoted source
  return ⟨if exported = "default" then .default else .name, exported⟩

/-- The names that a statement exports, other than from another module. -/
def exportedNames (source : List Char) (n : Node) : List ExportedName :=
  if !n.isA .exportStatement || n.hasWord "=" || (n.child? .source).isSome then []
  else if n.hasWord "default" then [⟨.default, "default"⟩]
  else
    match n.child? .declaration with
    | some d => d.boundNames source
    | none =>
      (((n.childOf? .exportClause).map fun clause =>
        clause.children.filter (·.isA .exportSpecifier)).getD []).filterMap (specifierName? source)

theorem boundNamesOf_eq (source : List Char) (ns : List Node) :
    boundNamesOf source ns = ns.flatMap (boundNames source) := by
  induction ns with
  | nil => rw [boundNamesOf, List.flatMap_nil]
  | cons n ns ih => rw [boundNamesOf, List.flatMap_cons, ih]

end Node

/-- The names that a module exports by itself. -/
def ModuleRecord.exportedNames (r : ModuleRecord) : List ExportedName :=
  r.tree.children.flatMap (·.exportedNames r.text.toList)

/-! ### Dotted names -/

section

variable {source : List Char} {name : Node}

theorem trim_append {own blanks : List Char} (hown : ∀ c ∈ own, isBlank c = false)
    (hblanks : ∀ c ∈ blanks, isBlank c) : trim (own ++ blanks) = own := by
  have hdrop : ∀ {cs rest : List Char}, (∀ c ∈ cs, isBlank c = false) → cs ≠ [] →
      (cs ++ rest).dropWhile isBlank = cs ++ rest := by
    intro cs rest hcs hne
    cases cs with
    | nil => exact absurd rfl hne
    | cons c cs =>
      rw [List.cons_append, List.dropWhile_cons_of_neg (by simp [hcs c List.mem_cons_self])]
  cases hempty : own with
  | nil =>
    rw [trim, trimBy, List.nil_append, List.dropWhile_eq_nil_iff.mpr hblanks]
    rfl
  | cons c cs =>
    rw [← hempty]
    have hne : own ≠ [] := by simp [hempty]
    have hback : (blanks.reverse ++ own.reverse).dropWhile isBlank = own.reverse := by
      rw [List.dropWhile_append_of_pos (by simpa using hblanks)]
      have hkept : (own.reverse ++ []).dropWhile isBlank = own.reverse ++ [] :=
        hdrop (by simpa using hown) (by simpa using hne)
      rwa [List.append_nil] at hkept
    rw [trim, trimBy, hdrop hown hne, List.reverse_append, hback, List.reverse_reverse]

/-- The first of the names that dots divide is the first leaf of a tight name. -/
theorem firstName_of_isTight (h : name.isTight source) :
    firstName (name.text source) = name.firstLeaf.text source := by
  rw [Node.isTight, Bool.and_eq_true, List.all_eq_true, Option.any_eq_true] at h
  obtain ⟨hown, rest, hrest, hdot⟩ := h
  rw [firstName, Node.text, Node.text, String.toList_ofList, eq_of_dropFront? hrest]
  generalize slice source name.firstLeaf.start name.firstLeaf.stop = own at hown
  have hplain : ∀ c ∈ own, isBlank c = false ∧ c ≠ '.' := by simpa using hown
  have hblanks : ∀ c ∈ rest.takeWhile isBlank, isBlank c := fun c hc => List.mem_takeWhile_imp hc
  have hsplit : rest = rest.takeWhile isBlank ++ rest.dropWhile isBlank :=
    List.takeWhile_append_dropWhile.symm
  generalize rest.takeWhile isBlank = blanks at hblanks hsplit
  generalize rest.dropWhile isBlank = behind at hdot hsplit
  subst hsplit
  have hundotted : '.' ∉ own ++ blanks := by
    rw [List.mem_append, not_or]
    refine ⟨fun hmem => (hplain _ hmem).2 rfl, fun hmem => ?_⟩
    have hblank := hblanks _ hmem
    revert hblank
    decide
  have hfirst : (splitOnChar '.' (own ++ (blanks ++ behind))).headD [] = own ++ blanks := by
    rw [← List.append_assoc]
    cases behind with
    | nil =>
      rw [List.append_nil, splitOnChar_of_notMem hundotted]
      rfl
    | cons c behind =>
      obtain rfl : c = '.' := by simpa using hdot
      rw [splitOnChar_append_cons, splitOnChar_of_notMem hundotted]
      rfl
  rw [hfirst, trim_append (fun c hc => (hplain c hc).1) hblanks]

end

/-! ### What the analysis lists -/

namespace ModuleAnalysis

variable {source : List Char} {s : Setting} {a : ModuleAnalysis} {n : Node} {name : String}
  {x : ExportedName}

theorem mem_localExports_addExport_iff {other : String} :
    name ∈ (a.addExport other).localExports ↔ name ∈ a.localExports ∨ name = other := by
  rw [addExport]
  split
  case isTrue h =>
    rw [List.contains_iff_mem] at h
    refine ⟨.inl, ?_⟩
    rintro (hmem | rfl)
    · exact hmem
    · exact h
  case isFalse => simp

theorem mem_localExports_declare_iff {other : String} {kind : DeclarationKind} {node : Node} :
    name ∈ (a.declare s other kind node).localExports ↔
      name ∈ a.localExports ∨ s.exported ∧ name = other := by
  rw [declare]
  split
  case isTrue h => simp [mem_localExports_addExport_iff, h]
  case isFalse h => simp [h]

theorem addExport_hasDefaultExport :
    (a.addExport name).hasDefaultExport = a.hasDefaultExport := by
  rw [addExport]
  split <;> rfl

/-- A name that is listed stays listed. -/
theorem localExports_kept (source : List Char) (name : String) :
    IsKept source (fun _ => True) fun a => name ∈ a.localExports where
  below _ _ := trivial
  module h := h
  importing _ h := h
  assignment h := h
  default h := h
  reExport h := h
  ambient h := h
  exported h := mem_localExports_addExport_iff.mpr (.inl h)
  declare _ _ h := mem_localExports_declare_iff.mpr (.inl h)

theorem hasDefaultExport_kept (source : List Char) :
    IsKept source (fun _ => True) fun a => a.hasDefaultExport where
  below _ _ := trivial
  module h := h
  importing _ h := h
  assignment h := h
  default h := by
    dsimp only at h ⊢
    rw [h, Bool.true_or]
  reExport h := h
  ambient h := h
  exported h := addExport_hasDefaultExport.trans h
  declare {a s name kind n node} _ _ h := by
    rw [declare]
    split
    · exact addExport_hasDefaultExport.trans h
    · exact h

/-- What one step of a fold brings about and the others keep holds in the end. -/
theorem foldl_reaches {α : Type} {f : ModuleAnalysis → α → ModuleAnalysis}
    {P : ModuleAnalysis → Prop} (hkept : ∀ a y, P a → P (f a y)) {y : α} (hy : ∀ a, P (f a y))
    {ys : List α} (hmem : y ∈ ys) : P (ys.foldl f a) := by
  obtain ⟨front, back, rfl⟩ := List.append_of_mem hmem
  rw [List.foldl_append, List.foldl_cons]
  exact List.foldlRecOn _ _ (hy _) fun a ha z _ => hkept a z ha

theorem statements_reach {P : ModuleAnalysis → Prop} (h : IsKept source (fun _ => True) P)
    {ns : List Node} (hmem : n ∈ ns) (hn : ∀ a, P (statement source s a n)) :
    P (statements source s a ns) := by
  induction ns generalizing a with
  | nil => cases hmem
  | cons m ns ih =>
    rw [statements]
    rcases List.mem_cons.mp hmem with rfl | hmem
    · exact statements_kept (fun _ _ _ _ => h.statement trivial) (hn a)
    · exact ih hmem

/-- Exactly the first part that is a declaration is what an export declares. -/
theorem declarationIn_eq {ns : List Node} {d : Node}
    (h : ns.find? (·.role == some .declaration) = some d) :
    declarationIn source s a ns = statement source s a d := by
  induction ns with
  | nil => cases h
  | cons n ns ih =>
    rw [declarationIn]
    rw [List.find?_cons] at h
    split
    case isTrue hrole =>
      rw [hrole] at h
      rw [Option.some.inj h]
    case isFalse hrole =>
      rw [Bool.not_eq_true] at hrole
      rw [hrole] at h
      exact ih h

/-- If a declaration adds the name that it is of, variables add those that they bind by themselves.
-/
theorem declareVariables_iff {P : ModuleAnalysis → Prop} {added : Prop}
    (hdeclare : ∀ a kind text node, kind ∈ [DeclarationKind.let, .const, .var] →
      (P (a.declare s text kind node) ↔ P a ∨ added ∧ name = text)) :
    P (a.declareVariables s source n) ↔ P a ∨ added ∧ ⟨.name, name⟩ ∈
      ((n.children.filter (·.isA .variableDeclarator)).filterMap (·.child? .name)).flatMap
        (Node.variableNames source) := by
  obtain ⟨kind, hkind, hvariables⟩ : ∃ kind ∈ [DeclarationKind.let, .const, .var],
      a.declareVariables s source n =
        (((n.children.filter (·.isA .variableDeclarator)).filterMap (·.child? .name)).filter
          (·.isA .identifier)).foldl (fun a m => a.declare s (m.text source) kind m) a :=
    ⟨_, by split <;> simp, rfl⟩
  rw [hvariables]
  clear hvariables
  generalize (n.children.filter (·.isA .variableDeclarator)).filterMap (·.child? .name) = names
  induction names generalizing a with
  | nil => simp
  | cons m names ih =>
    rw [List.flatMap_cons, List.mem_append, List.filter_cons, Node.variableNames]
    by_cases hidentifier : m.isA .identifier
    · rw [if_pos hidentifier, if_pos hidentifier, List.foldl_cons, ih, hdeclare _ _ _ _ hkind]
      simp only [List.mem_singleton, ExportedName.mk.injEq, true_and]
      tauto
    · rw [if_neg hidentifier, if_neg hidentifier, ih]
      simp

theorem exists_declarationKind? {k : Kind} (h : Node.namingKinds.contains k) :
    ∃ declared, declarationKind? k = some declared := by
  rw [Node.namingKinds] at h
  simp only [List.contains_cons, List.contains_nil, Bool.or_false, Bool.or_eq_true,
    beq_iff_eq] at h
  rcases h with rfl | rfl | rfl | rfl | rfl | rfl | rfl | rfl <;> exact ⟨_, rfl⟩

/-- No declaration binds what a module exports by default. -/
theorem boundNames_ne_default (hx : x ∈ n.boundNames source) : x.form ≠ .default := by
  induction n using Node.induction_below with
  | step n ih =>
    obtain ⟨label, role, start, stop, missing, children⟩ := n
    rw [Node.boundNames] at hx
    dsimp only at hx
    split at hx
    case h_1 | h_2 =>
      obtain ⟨name, -, hx⟩ := List.mem_flatMap.mp hx
      rw [Node.variableNames] at hx
      split at hx
      case isTrue =>
        obtain rfl := List.mem_singleton.mp hx
        exact ExportForm.noConfusion
      case isFalse =>
        obtain ⟨y, -, rfl⟩ := List.mem_map.mp hx
        exact ExportForm.noConfusion
    case h_3 | h_4 =>
      obtain ⟨name, -, rfl⟩ := Option.map_eq_some_iff.mp (Option.mem_toList.mp hx)
      rw [Node.spaceName]
      split <;> exact ExportForm.noConfusion
    case h_5 =>
      obtain ⟨name, -, rfl⟩ := Option.map_eq_some_iff.mp (Option.mem_toList.mp hx)
      exact ExportForm.noConfusion
    case h_6 =>
      rw [Node.boundNamesOf_eq] at hx
      obtain ⟨c, hc, hx⟩ := List.mem_flatMap.mp hx
      exact ih c hc hx
    case h_7 =>
      split at hx
      case isTrue =>
        obtain ⟨name, -, rfl⟩ := Option.map_eq_some_iff.mp (Option.mem_toList.mp hx)
        exact ExportForm.noConfusion
      case isFalse => cases hx
    case h_8 => cases hx

/-- What a declaration binds by a name is listed when the declaration is exported. -/
theorem statement_lists (hs : s.exported) (hx : x ∈ n.boundNames source)
    (hform : x.form = .name) : x.name ∈ (statement source s a n).localExports := by
  induction n using Node.induction_below generalizing s a with
  | step n ih =>
    obtain ⟨label, role, start, stop, missing, children⟩ := n
    rw [Node.boundNames] at hx
    rw [statement]
    dsimp only at hx ⊢
    split
    case h_1 hk | h_3 hk | h_5 hk =>
      rw [hk] at hx
      cases hx
    case h_2 hk =>
      rw [hk] at hx
      obtain ⟨name, -, rfl⟩ := Option.map_eq_some_iff.mp (Option.mem_toList.mp hx)
      cases hform
    case h_4 hk =>
      rw [hk] at hx
      dsimp only at hx
      rw [Node.boundNamesOf_eq] at hx
      obtain ⟨c, hc, hx⟩ := List.mem_flatMap.mp hx
      exact statements_reach (localExports_kept source x.name) hc fun a => ih c hc hs hx
    case h_6 hk | h_7 hk =>
      rw [hk] at hx
      obtain ⟨name, hname, rfl⟩ := Option.map_eq_some_iff.mp (Option.mem_toList.mp hx)
      obtain ⟨hname, hstring⟩ := Option.filter_eq_some_iff.mp hname
      have htight : name.isTight source := by
        by_contra hloose
        simp [Node.spaceName, hloose] at hform
      rw [hname]
      dsimp only
      rw [if_neg (by simpa using hstring), firstName_of_isTight htight]
      exact mem_localExports_declare_iff.mpr (.inr ⟨hs, rfl⟩)
    case h_8 hk | h_9 hk =>
      rw [hk] at hx
      rw [declareVariables_iff (P := fun a => x.name ∈ a.localExports)
        fun _ _ _ _ _ => mem_localExports_declare_iff, ← hform]
      exact .inr ⟨hs, hx⟩
    case h_10 _ halias _ hambient _ hmodule hinternal hlexical hvariable hk =>
      rw [hk] at hx
      split at hx
      case h_1 heq => exact (hlexical (Option.some.inj heq)).elim
      case h_2 heq => exact (hvariable (Option.some.inj heq)).elim
      case h_3 heq => exact (hinternal (Option.some.inj heq)).elim
      case h_4 heq => exact (hmodule (Option.some.inj heq)).elim
      case h_5 heq => exact (halias (Option.some.inj heq)).elim
      case h_6 heq => exact (hambient (Option.some.inj heq)).elim
      case h_7 heq =>
        obtain rfl := Option.some.inj heq
        split at hx
        case isTrue hnaming =>
          obtain ⟨name, hname, rfl⟩ := Option.map_eq_some_iff.mp (Option.mem_toList.mp hx)
          obtain ⟨declared, hdeclared⟩ := exists_declarationKind? hnaming
          rw [hname, hdeclared]
          exact mem_localExports_declare_iff.mpr (.inr ⟨hs, rfl⟩)
        case isFalse => cases hx
      case h_8 heq => cases heq
    case h_11 hk =>
      rw [hk] at hx
      cases hx

/-- The name that a specifier exports is one of those that the analysis reads in its clause. -/
theorem mem_exportedNames_of_specifierName? {clause spec : Node} (hspec : spec ∈ clause.children)
    (hkind : spec.isA .exportSpecifier) (hx : Node.specifierName? source spec = some x) :
    x.form = (if x.name = "default" then .default else .name) ∧
      ∃ localName, (localName, x.name) ∈ exportedNames source clause := by
  obtain ⟨name, hname, hx⟩ := Option.bind_eq_some_iff.mp hx
  cases hx
  refine ⟨rfl, name.unquoted source, ?_⟩
  refine List.mem_filterMap.mpr ⟨spec, List.mem_filter.mpr ⟨hspec, hkind⟩, ?_⟩
  refine Option.bind_eq_some_iff.mpr ⟨name, hname, ?_⟩
  cases spec.child? .alias <;> rfl

theorem exportClause_lists {spec : Node}
    (hspec : spec ∈ ((n.childOf? .exportClause).map fun clause =>
      clause.children.filter (·.isA .exportSpecifier)).getD [])
    (hx : Node.specifierName? source spec = some x) (hsource : n.child? .source = none) :
    (x.form = .default → (a.exportClause source n).hasDefaultExport) ∧
      (x.form = .name → x.name ∈ (a.exportClause source n).localExports) := by
  rw [exportClause, hsource]
  cases hclause : n.childOf? .exportClause with
  | none =>
    rw [hclause] at hspec
    cases hspec
  | some clause =>
    rw [hclause] at hspec
    obtain ⟨hspec, hkind⟩ := List.mem_filter.mp hspec
    obtain ⟨hform, localName, hmem⟩ := mem_exportedNames_of_specifierName? hspec hkind hx
    rw [Option.map_some, Option.getD_some]
    dsimp only
    constructor
    · intro hdefault
      have hname : x.name = "default" := by
        by_contra hne
        rw [if_neg hne, hdefault] at hform
        cases hform
      refine List.foldlRecOn (motive := fun a : ModuleAnalysis => a.hasDefaultExport = true) _ _ ?_
        fun a ha y _ => addExport_hasDefaultExport.trans ha
      dsimp only
      rw [Bool.or_eq_true]
      exact .inr (List.any_eq_true.mpr ⟨_, hmem, by rw [hname]; rfl⟩)
    · intro hname
      have hne : x.name ≠ "default" := by
        intro heq
        rw [if_pos heq, hname] at hform
        cases hform
      refine foldl_reaches (P := fun a => x.name ∈ a.localExports)
        (fun _ _ h => ?_) (fun _ => ?_) (List.mem_filter.mpr ⟨hmem, ?_⟩)
      · exact mem_localExports_addExport_iff.mpr (.inl h)
      · exact mem_localExports_addExport_iff.mpr (.inr rfl)
      · exact bne_iff_ne.mpr hne

/-- What an export statement exports by a name is listed, and a default export is noted. -/
theorem export_lists (hx : x ∈ n.exportedNames source) :
    (x.form = .default → (statement source s a n).hasDefaultExport) ∧
      (x.form = .name → x.name ∈ (statement source s a n).localExports) := by
  rw [Node.exportedNames] at hx
  split at hx
  case isTrue => cases hx
  case isFalse hown =>
    simp only [Bool.or_eq_true, Bool.not_eq_true', not_or, Bool.not_eq_false,
      Bool.not_eq_true] at hown
    obtain ⟨⟨hkind, hassignment⟩, hsource⟩ := hown
    rw [statement_export (Node.isA_iff.mp hkind), if_neg (by simp [hassignment])]
    split at hx
    case isTrue hdefault =>
      obtain rfl := List.mem_singleton.mp hx
      refine ⟨fun _ => ?_, fun hname => by cases hname⟩
      rw [if_pos hdefault]
      split
      · exact declarationIn_kept (P := fun a => a.hasDefaultExport)
          (fun _ _ _ _ => (hasDefaultExport_kept source).statement trivial) (by simp [hdefault])
      · rfl
    case isFalse hdefault =>
      rw [Bool.not_eq_true] at hdefault
      rw [hdefault]
      cases hdeclaration : n.child? .declaration with
      | some d =>
        rw [hdeclaration] at hx
        rw [Option.isSome_some, if_pos rfl, declarationIn_eq hdeclaration]
        refine ⟨fun hform => absurd hform (boundNames_ne_default hx), fun hform => ?_⟩
        exact statement_lists rfl hx hform
      | none =>
        rw [hdeclaration] at hx
        obtain ⟨spec, hspec, hx⟩ := List.mem_filterMap.mp hx
        rw [Option.isSome_none, if_neg Bool.false_ne_true, if_neg Bool.false_ne_true]
        exact exportClause_lists hspec hx (by simpa using hsource)

end ModuleAnalysis

/-- What a module exports is listed, unless it is bound by something else than a plain name. -/
theorem ModuleRecord.exports_listed {r : ModuleRecord} {x : ExportedName}
    (hx : x ∈ r.exportedNames) :
    (x.form = .default → r.analysis.hasDefaultExport) ∧
      (x.form = .name → x.name ∈ r.analysis.localExports) := by
  obtain ⟨n, hn, hx⟩ := List.mem_flatMap.mp hx
  constructor
  · intro hform
    exact ModuleAnalysis.statements_reach (ModuleAnalysis.hasDefaultExport_kept _) hn fun _ =>
      (ModuleAnalysis.export_lists hx).1 hform
  · intro hform
    exact ModuleAnalysis.statements_reach (ModuleAnalysis.localExports_kept _ _) hn fun _ =>
      (ModuleAnalysis.export_lists hx).2 hform

end CompilingProxy
