import CompilingProxy.Proofs.Emit.Elision

/-!
# Names that are used only as types

What a type is written with stands in a type of its own, and the kinds of its nodes are listed here
without regard to how the analysis finds them. The main result is that an import whose names occur
only in types and in exports of types goes, but for the names that such an export lists.
-/

namespace CompilingProxy

open Emit Text

/-- The kinds of nodes that stand only where a type or a part of one is expected. -/
def Kind.innerTypeKinds : List Kind :=
  [.omittingTypeClause, .addingTypeClause, .optingTypeClause, .asserts, .typePredicate,
    .typeParameter, .constraint, .defaultType, .parenthesizedType, .functionType,
    .constructorType, .readonlyType, .inferType, .genericType, .nestedTypeIdentifier, .objectType,
    .interfaceBody, .propertySignature, .callSignature, .constructSignature, .mappedTypeClause,
    .arrayType, .tupleType, .optionalType, .restType, .flowMaybeType, .typeQuery,
    .indexTypeQuery, .literalType, .lookupType, .conditionalType, .templateLiteralType,
    .templateType, .unionType, .intersectionType]

/-- The kinds of nodes that a value may have a part of, in which everything is a type. -/
def Kind.outerTypeKinds : List Kind :=
  [.typeClause, .assertsClause, .typePredicateClause, .typeParameters, .typeArguments,
    .implementsClause, .extendsTypeClause, .interfaceDeclaration, .typeAliasDeclaration,
    .functionSignature, .methodSignature, .abstractMethodSignature, .indexSignature,
    .ambientDeclaration]

namespace Node

def isInnerType (n : Node) : Bool := n.isOneOf Kind.innerTypeKinds

def isOuterType (n : Node) : Bool := n.isOneOf Kind.outerTypeKinds

def isAscription (n : Node) : Bool := n.isOneOf [.asExpression, .satisfiesExpression]

/-- Whether the parts of types among the children stand in a type. -/
def placesTypes (n : Node) : Bool :=
  n.isInnerType || n.isOuterType ||
    (if n.isAscription then n.children.takeWhile (!·.opensType) else n.children).all
      (!·.isInnerType)

namespace Descent

/-- Whether the step enters a type. -/
def intoTypeSpace (d : Descent) : Bool :=
  d.parent.isInnerType || d.parent.isOuterType || (d.parent.isAscription && d.front.any opensType)

/-- Whether the step enters an export of types. -/
def intoTypeExport (d : Descent) : Bool :=
  d.parent.isOneOf [.exportStatement, .exportSpecifier] && d.parent.hasWord "type"

/-- Whether the step enters neither a type nor an import, nor an export from elsewhere. -/
def keepsUse (d : Descent) : Bool := !d.intoImport && !d.intoAlias && !d.intoTypeSpace

end Descent

/-- Every use of the name is in a type or in an export of types. -/
def UsesAsType (n : Node) (source : List Char) (name : String) : Prop :=
  ∀ way target, n.Reaches way target → target.isName → target.text source = name →
    ∃ d ∈ way, d.keepsUse = false ∨ d.intoTypeExport

/-- The name is listed in an export of types of the module's own. -/
def ListsAsType (n : Node) (source : List Char) (name : String) : Prop :=
  ∃ way target, n.Reaches way target ∧ target.isName ∧ target.text source = name ∧
    (∀ d ∈ way, d.keepsUse) ∧ ∃ d ∈ way, d.intoTypeExport

/-! ### Where types stand -/

theorem isTypeContext_eq_isOuterType {n : Node} :
    n.kind?.any Kind.isTypeContext = n.isOuterType := by
  obtain ⟨label, role, start, stop, missing, children⟩ := n
  cases label with
  | word => rfl
  | kind k => cases k <;> rfl

theorem Descent.intoType_eq {d : Descent} :
    d.intoType = (d.parent.isOuterType || (d.parent.isAscription && d.front.any opensType)) := by
  rw [intoType, isTypeContext_eq_isOuterType]
  rfl

theorem Descent.intoTypeSpace_eq {d : Descent} :
    d.intoTypeSpace = (d.parent.isInnerType || d.intoType) := by
  rw [intoTypeSpace, intoType_eq, Bool.or_assoc]

theorem Descent.keepsUse_iff {d : Descent} :
    d.keepsUse ↔ d.keepsValue ∧ d.parent.isInnerType = false := by
  rw [keepsUse, keepsValue, intoTypeSpace_eq]
  cases d.parent.isInnerType <;> simp

/-- A part of a type that stands where types do is entered through one. -/
theorem isInnerType_or_intoType {n c : Node} {front back : List Node} (h : n.placesTypes)
    (hchildren : n.children = front ++ c :: back) (hc : c.isInnerType) :
    n.isInnerType ∨ (Descent.mk n front).intoType := by
  have hword : c.opensType = false := by
    obtain ⟨label, role, start, stop, missing, children⟩ := c
    cases label with
    | kind => rfl
    | word => cases hc
  rw [Descent.intoType_eq]
  cases hinner : n.isInnerType with
  | true => exact .inl rfl
  | false =>
    refine .inr ?_
    by_contra hno
    obtain ⟨houter, hassertion⟩ := Bool.or_eq_false_iff.mp (Bool.eq_false_iff.mpr hno)
    rw [placesTypes, hinner, houter, Bool.or_self, Bool.false_or, List.all_eq_true] at h
    refine absurd (h c ?_) (by simp [hc])
    split
    case isTrue hn =>
      -- no word of the assertion stands in front of the child
      have hfront : ∀ m ∈ front, (!m.opensType) = true := by simpa [hn] using hassertion
      rw [hchildren, List.takeWhile_append_of_pos hfront, List.takeWhile_cons_of_pos (by simpa)]
      simp
    case isFalse => simp [hchildren]

/-- In a tree that has types only where types stand, a way into a type goes through one that the
analysis sees. -/
theorem Reaches.intoType_of_isInnerType {n target : Node} {way : List Descent}
    (h : n.Reaches way target) (hplaced : n.everywhere placesTypes)
    (hinner : ∃ d ∈ way, d.parent.isInnerType) :
    n.isInnerType ∨ ∃ d ∈ way, d.intoType := by
  induction h with
  | here => simp at hinner
  | @down n child target front back way hchildren _ ih =>
    obtain ⟨d, hd, htype⟩ := hinner
    rcases List.mem_cons.mp hd with rfl | hd
    · exact .inl htype
    · obtain ⟨hn, hbelow⟩ := everywhere_iff.mp hplaced
      rcases ih (hbelow child (by simp [hchildren])) ⟨d, hd, htype⟩ with hchild | ⟨e, he, htype⟩
      · exact (isInnerType_or_intoType hn hchildren hchild).imp_right fun h =>
          ⟨_, List.mem_cons_self, h⟩
      · exact .inr ⟨e, List.mem_cons_of_mem _ he, htype⟩

/-- Of a name that is used as a type alone the analysis finds the uses that an export of types
lists. -/
theorem occursAsValue_iff_listsAsType {n : Node} {source : List Char} {name : String}
    (hroot : n.isInnerType = false) (hplaced : n.everywhere placesTypes)
    (huses : n.UsesAsType source name) :
    n.OccursAsValue source name ↔ n.ListsAsType source name := by
  constructor
  · rintro ⟨way, target, hway, hname, htext, hkeeps⟩
    have hinner : ¬ ∃ d ∈ way, d.parent.isInnerType := by
      intro hinner
      rcases hway.intoType_of_isInnerType hplaced hinner with h | ⟨d, hd, htype⟩
      · rw [hroot] at h
        cases h
      · simpa [Descent.keepsValue, htype] using hkeeps d hd
    have hall : ∀ d ∈ way, d.keepsUse := fun d hd =>
      Descent.keepsUse_iff.mpr ⟨hkeeps d hd, Bool.eq_false_iff.mpr fun h => hinner ⟨d, hd, h⟩⟩
    obtain ⟨d, hd, hno | hexport⟩ := huses way target hway hname htext
    · rw [hall d hd] at hno
      cases hno
    · exact ⟨way, target, hway, hname, htext, hall, d, hd, hexport⟩
  · rintro ⟨way, target, hway, hname, htext, hkeeps, -⟩
    exact ⟨way, target, hway, hname, htext, fun d hd => (Descent.keepsUse_iff.mp (hkeeps d hd)).1⟩

/-! ### All ways at once -/

mutual

/-- The ways down a tree with the nodes that they lead to. -/
def ways (n : Node) : List (List Descent × Node) :=
  match n with
  | ⟨label, role, start, stop, missing, children⟩ =>
    ([], ⟨label, role, start, stop, missing, children⟩) ::
      waysIn ⟨label, role, start, stop, missing, children⟩ [] children

/-- The ways of a node through its children behind those in front. -/
def waysIn (n : Node) (front : List Node) : List Node → List (List Descent × Node)
  | [] => []
  | c :: cs =>
    c.ways.map (fun (way, target) => (⟨n, front⟩ :: way, target)) ++ waysIn n (front ++ [c]) cs

end

theorem ways_eq (n : Node) : n.ways = ([], n) :: waysIn n [] n.children := by
  cases n
  rw [ways]

theorem mem_waysIn_iff {n target : Node} {front cs : List Node} {way : List Descent} :
    (way, target) ∈ waysIn n front cs ↔ ∃ first c back rest, cs = first ++ c :: back ∧
      (rest, target) ∈ c.ways ∧ way = ⟨n, front ++ first⟩ :: rest := by
  induction cs generalizing front with
  | nil => simp [waysIn]
  | cons c cs ih =>
    rw [waysIn, List.mem_append, ih]
    constructor
    · rintro (h | ⟨first, d, back, rest, rfl, hrest, rfl⟩)
      · obtain ⟨⟨rest, _⟩, hrest, heq⟩ := List.mem_map.mp h
        cases heq
        exact ⟨[], c, cs, rest, rfl, hrest, by simp⟩
      · exact ⟨c :: first, d, back, rest, rfl, hrest, by simp⟩
    · rintro ⟨first, d, back, rest, heq, hrest, rfl⟩
      cases first with
      | nil =>
        obtain ⟨rfl, rfl⟩ := List.cons.inj heq
        exact .inl (List.mem_map.mpr ⟨_, hrest, by simp⟩)
      | cons first firsts =>
        obtain ⟨rfl, rfl⟩ := List.cons.inj heq
        exact .inr ⟨firsts, d, back, rest, rfl, hrest, by simp⟩

theorem mem_ways_iff {n target : Node} {way : List Descent} :
    (way, target) ∈ n.ways ↔ n.Reaches way target := by
  induction n using induction_below generalizing way with
  | step n ih =>
    rw [ways_eq, List.mem_cons, mem_waysIn_iff, Reaches.cases_iff]
    refine or_congr (by simp [Prod.ext_iff]) ?_
    constructor
    · rintro ⟨front, c, back, rest, hchildren, hrest, rfl⟩
      exact ⟨front, c, back, rest, hchildren, (ih c (by simp [hchildren])).mp hrest, rfl⟩
    · rintro ⟨front, c, back, rest, hchildren, hrest, rfl⟩
      exact ⟨front, c, back, rest, hchildren, (ih c (by simp [hchildren])).mpr hrest, rfl⟩

/-- Whether every use of a name is in a type can be read off the tree. -/
instance (n : Node) (source : List Char) (name : String) :
    Decidable (n.UsesAsType source name) :=
  decidable_of_iff (∀ w ∈ n.ways, w.2.isName → w.2.text source = name →
      w.1.any fun d => !d.keepsUse || d.intoTypeExport) <| by
    simp only [UsesAsType, ← mem_ways_iff, Prod.forall, List.any_eq_true, Bool.or_eq_true,
      Bool.not_eq_true']

end Node

/-- When a module is compiled in which the name of an import is used only as a type, the import
keeps the name if an export of types lists it, and else loses it. -/
theorem ModuleRecord.emit_keeps_listed_types {r : ModuleRecord} {o : CompilerOptions}
    {out : String} (hkind : r.kind.isTypeScript) (hverbatim : o.verbatimModuleSyntax = false)
    (hordered : r.tree.isOrdered) (hbare : r.tree.tokensAreBare)
    (hroot : r.tree.isA .program) (hplaced : r.tree.everywhere Node.placesTypes)
    (hemit : r.emit r.analysis o = .ok out) {n : Node} {i : ImportDecl}
    (hmem : n ∈ r.tree.children) (himport : n.isA .importStatement)
    (hdecl : importDecl? r.text.toList n = some i) {b : ImportBinding} (hb : b ∈ i.bindings)
    (huses : r.tree.UsesAsType r.text.toList b.localName) :
    ∃ kept, r.EmitsImport out n i kept ∧
      (b ∈ kept ↔ b.typeOnly = false ∧ r.tree.ListsAsType r.text.toList b.localName) := by
  obtain ⟨fuel, p, scope, own, -, hown, edits, text, offsets, gone, happly, hout, hedits, hgone⟩ :=
    r.exists_compiles hkind hemit hmem
  rw [visit_importStatement himport, hverbatim] at hown
  cases hown
  have hleaves : Leaves (.ofModule r r.analysis false) n i _
      (importStatement _ ⟨[], ⟨0, width r.text.toList⟩⟩ p scope n) :=
    importStatement_leaves rfl (r.find?_imports hordered hmem himport hdecl)
      (importDecl?_typeOnly hdecl)
  refine ⟨_, ⟨edits, text, offsets, gone, _, happly, hout, hedits, hgone, hleaves⟩, ?_⟩
  have hinner : r.tree.isInnerType = false := by
    rw [Node.isA_iff] at hroot
    rw [Node.isInnerType, Bool.eq_false_iff, ne_eq, Node.isOneOf_iff, hroot]
    rintro ⟨k, hk, h⟩
    cases h
    revert hk
    decide
  rw [← Node.occursAsValue_iff_listsAsType hinner hplaced huses,
    ← r.mem_analysis_valueRefs_iff hbare, List.mem_filter, and_iff_right hb]
  simp [isElided, Setting.ofModule]

section

open Node

/-- `import { T } from './t';` -/
def importOfOne : Node :=
  branch .importStatement
    [word 0 "import",
      branch .importClause
        [branch .namedImports
          [word 7 "\x7b", branch .importSpecifier [playing .name (leaf .identifier 9 10)],
            word 11 "\x7d"]],
      word 13 "from", playing .source (literal 18 3), word 23 ";"]

/-- What is imported is asked for its type. -/
def queriesType : ModuleRecord :=
  .ofTree "m.ts" "import \x7b T \x7d from './t';\nlet x: typeof T;\n" <|
    script 42
      [importOfOne,
        branch .lexicalDeclaration
          [playing .kind (word 25 "let"),
            branch .variableDeclarator
              [playing .name (leaf .identifier 29 30),
                playing .type <| branch .typeClause
                  [word 30 ":", branch .typeQuery [word 32 "typeof", leaf .identifier 39 40]]],
            word 40 ";"]]

theorem queriesType_emit :
    queriesType.emit queriesType.analysis {} = .ok "let x;\nexport \x7b\x7d;\n" := by
  cbv

theorem queriesType_elides :
    ∃ i b, importDecl? queriesType.text.toList importOfOne = some i ∧ b ∈ i.bindings ∧
      b.localName = "T" ∧ queriesType.tree.UsesAsType queriesType.text.toList "T" ∧
      ∃ kept, queriesType.EmitsImport "let x;\nexport \x7b\x7d;\n" importOfOne i kept ∧
        (b ∈ kept ↔ b.typeOnly = false ∧
          queriesType.tree.ListsAsType queriesType.text.toList b.localName) := by
  have huses : queriesType.tree.UsesAsType queriesType.text.toList "T" := by decide +kernel
  exact ⟨_, _, rfl, List.mem_cons_self, rfl, huses,
    queriesType.emit_keeps_listed_types (o := {}) rfl rfl (by decide) (by decide) rfl
      (by decide) queriesType_emit List.mem_cons_self rfl rfl List.mem_cons_self huses⟩

/-- What is imported is exported as a type. -/
def exportsType : ModuleRecord :=
  .ofTree "m.ts" "import \x7b T \x7d from './t';\nexport type \x7b T \x7d;\n" <|
    script 44
      [importOfOne,
        branch .exportStatement
          [word 25 "export", word 32 "type",
            branch .exportClause
              [word 37 "\x7b", branch .exportSpecifier [playing .name (leaf .identifier 39 40)],
                word 41 "\x7d"],
            word 42 ";"]]

/-- A name that an export of types lists and nothing else uses is imported by the compiled text. -/
theorem exportsType_keeps_import :
    exportsType.tree.hasError = false ∧
      (∃ i ∈ exportsType.analysis.imports, ∃ b ∈ i.bindings, b.localName = "T") ∧
      exportsType.tree.UsesAsType exportsType.text.toList "T" ∧
      exportsType.emit exportsType.analysis {} = .ok "import \x7b T \x7d from './t';\n" := by
  refine ⟨by decide, ⟨_, List.mem_cons_self, _, List.mem_cons_self, rfl⟩, ?_, by cbv⟩
  decide +kernel

end

end CompilingProxy
