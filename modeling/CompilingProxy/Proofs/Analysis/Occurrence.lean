import CompilingProxy.Analysis.Basic
import CompilingProxy.Proofs.Grammar.Regular

/-!
# Where names occur as values

`Node.OccursAsValue` says where a name stands in a tree without saying how a tree is searched: a way
leads down to an identifier and enters no import, no alias of an import, no export from elsewhere
and no type. The main result is that the names which the analysis collects are those which occur so.
-/

namespace CompilingProxy

namespace Node

/-- One step down a tree: the node, and those of its children in front of the one that is entered.
-/
structure Descent where
  parent : Node
  front : List Node

/-- The way leads from the first node down to the last one. -/
inductive Reaches : Node → List Descent → Node → Prop
  | here (n : Node) : Reaches n [] n
  | down {n child target : Node} {front back : List Node} {way : List Descent}
      (hchildren : n.children = front ++ child :: back) (hway : Reaches child way target) :
      Reaches n (⟨n, front⟩ :: way) target

/-- Whether the node exports something from elsewhere. -/
def isReExport (n : Node) : Bool := n.isA .exportStatement && (n.child? .source).isSome

/-- The words behind which a type stands. -/
def opensType (n : Node) : Bool := n.isWord "as" || n.isWord "satisfies"

/-- Identifiers and shorthand properties, which name what they stand for. -/
def isName (n : Node) : Bool := n.isOneOf [.identifier, .shorthandPropertyIdentifier]

namespace Descent

def intoImport (d : Descent) : Bool := d.parent.isA .importStatement || d.parent.isReExport

def intoAlias (d : Descent) : Bool := d.parent.isA .importAlias

def intoType (d : Descent) : Bool :=
  d.parent.kind?.any Kind.isTypeContext ||
    (d.parent.isOneOf [.asExpression, .satisfiesExpression] && d.front.any opensType)

/-- Whether the step leaves neither the values nor the module's own text. -/
def keepsValue (d : Descent) : Bool := !d.intoImport && !d.intoAlias && !d.intoType

end Descent

/-- The name stands somewhere in the tree as a value. -/
def OccursAsValue (n : Node) (source : List Char) (name : String) : Prop :=
  ∃ way target, n.Reaches way target ∧ target.isName ∧ target.text source = name ∧
    ∀ d ∈ way, d.keepsValue

/-- Words and names, which end a tree. -/
def isToken (n : Node) : Bool := !n.isNamed || n.isName || n.isA .typeIdentifier

mutual

/-- Whether no named node stands below words and names. -/
def tokensAreBare (n : Node) : Bool :=
  match n with
  | ⟨label, role, start, stop, missing, children⟩ =>
    (!isToken ⟨label, role, start, stop, missing, children⟩ || children.all (!·.isNamed)) &&
      allTokensAreBare children

/-- Whether no named node stands below words and names of the trees. -/
def allTokensAreBare : List Node → Bool
  | [] => true
  | n :: ns => n.tokensAreBare && allTokensAreBare ns

end

theorem allTokensAreBare_iff {ns : List Node} :
    allTokensAreBare ns ↔ ∀ n ∈ ns, n.tokensAreBare := by
  induction ns with
  | nil => simp [allTokensAreBare]
  | cons n ns ih => simp [allTokensAreBare, ih]

theorem tokensAreBare_iff {n : Node} :
    n.tokensAreBare ↔
      (n.isToken → ∀ c ∈ n.children, c.isNamed = false) ∧
        ∀ c ∈ n.children, c.tokensAreBare := by
  cases n
  rw [tokensAreBare, Bool.and_eq_true, allTokensAreBare_iff]
  refine and_congr_left fun _ => ?_
  cases isToken _ <;> simp

/-! ### Ways -/

theorem isName_iff {n : Node} :
    n.isName ↔ n.kind? = some .identifier ∨ n.kind? = some .shorthandPropertyIdentifier := by
  simp [isName, isOneOf_iff]

theorem Reaches.cases_iff {n target : Node} {way : List Descent} :
    n.Reaches way target ↔
      (way = [] ∧ target = n) ∨ ∃ front child back rest,
        n.children = front ++ child :: back ∧ child.Reaches rest target ∧
          way = ⟨n, front⟩ :: rest := by
  constructor
  · intro h
    cases h with
    | here => exact .inl ⟨rfl, rfl⟩
    | down hchildren hway => exact .inr ⟨_, _, _, _, hchildren, hway, rfl⟩
  · rintro (⟨rfl, rfl⟩ | ⟨front, child, back, rest, hchildren, hway, rfl⟩)
    · exact .here _
    · exact .down hchildren hway

theorem Reaches.exists_of_mem {n child target : Node} (hchild : child ∈ n.children)
    (h : ∃ way, child.Reaches way target) : ∃ way, n.Reaches way target := by
  obtain ⟨front, back, hchildren⟩ := List.append_of_mem hchild
  obtain ⟨way, hway⟩ := h
  exact ⟨_, .down hchildren hway⟩

/-- What holds at every node of a tree holds at every node below one of them. -/
theorem Reaches.everywhere {n target : Node} {way : List Descent} {p : Node → Bool}
    (h : n.Reaches way target) (hn : n.everywhere p) : target.everywhere p := by
  induction h with
  | here => exact hn
  | down hchildren _ ih =>
    refine ih ((everywhere_iff.mp hn).2 _ ?_)
    rw [hchildren]
    exact List.mem_append_right _ List.mem_cons_self

/-- A name that occurs in a tree is the tree itself or occurs below one of its children. -/
theorem occursAsValue_iff {n : Node} {source : List Char} {name : String} :
    n.OccursAsValue source name ↔
      (n.isName ∧ n.text source = name) ∨ ∃ front child back,
        n.children = front ++ child :: back ∧ (Descent.mk n front).keepsValue ∧
          child.OccursAsValue source name := by
  constructor
  · rintro ⟨way, target, hway, hname, htext, hkeeps⟩
    rcases Reaches.cases_iff.mp hway with
      ⟨rfl, rfl⟩ | ⟨front, child, back, rest, hchildren, hrest, rfl⟩
    · exact .inl ⟨hname, htext⟩
    · have hfirst := hkeeps _ List.mem_cons_self
      exact .inr ⟨front, child, back, hchildren, hfirst, rest, target, hrest, hname, htext,
        fun d hd => hkeeps d (List.mem_cons_of_mem _ hd)⟩
  · rintro (⟨hname, htext⟩ | ⟨front, child, back, hchildren, hfirst, rest, target, hrest, h⟩)
    · exact ⟨[], n, .here n, hname, htext, by simp⟩
    · obtain ⟨hname, htext, hkeeps⟩ := h
      refine ⟨_, target, .down hchildren hrest, hname, htext, fun d hd => ?_⟩
      rcases List.mem_cons.mp hd with rfl | hd
      · exact hfirst
      · exact hkeeps d hd

/-- A way from a word leads to words. -/
theorem Reaches.isNamed_eq_false {n target : Node} {way : List Descent}
    (h : n.Reaches way target) (hbare : n.tokensAreBare) (hword : n.isNamed = false) :
    target.isNamed = false := by
  induction h with
  | here => exact hword
  | down hchildren hway ih =>
    obtain ⟨htoken, hbelow⟩ := tokensAreBare_iff.mp hbare
    have hmem := hchildren ▸ List.mem_append_right _ List.mem_cons_self
    exact ih (hbelow _ hmem) (htoken (by simp [isToken, hword]) _ hmem)

/-- No name occurs in a word. -/
theorem OccursAsValue.isNamed {n : Node} {source : List Char} {name : String}
    (h : n.OccursAsValue source name) (hbare : n.tokensAreBare) : n.isNamed := by
  obtain ⟨way, target, hway, hname, -⟩ := h
  cases hword : n.isNamed with
  | true => rfl
  | false =>
    rw [isName_iff] at hname
    rw [kind?_eq_none_iff.mpr (hway.isNamed_eq_false hbare hword)] at hname
    rcases hname with h | h <;> cases h

theorem opensType_eq_false {n : Node} (h : n.isNamed) : n.opensType = false := by
  obtain ⟨label, role, start, stop, missing, children⟩ := n
  cases label with
  | kind => rfl
  | word => cases h

/-- A name that occurs in a word or name is that name. -/
theorem occursAsValue_token_iff {n : Node} {source : List Char} {name : String}
    (hbare : n.tokensAreBare) (htoken : n.isToken) :
    n.OccursAsValue source name ↔ n.isName ∧ n.text source = name := by
  rw [occursAsValue_iff]
  refine or_iff_left ?_
  rintro ⟨front, child, back, hchildren, -, hoccurs⟩
  obtain ⟨hwords, hbelow⟩ := tokensAreBare_iff.mp hbare
  have hmem : child ∈ n.children := by simp [hchildren]
  have hnamed := hoccurs.isNamed (hbelow child hmem)
  rw [hwords htoken child hmem] at hnamed
  cases hnamed

end Node

/-! ### What the analysis collects -/

theorem references_eq (source : List Char) (inType : Bool) (n : Node) :
    references source inType n =
      match n.kind? with
      | some .importStatement | some .importAlias => {}
      | some .identifier | some .shorthandPropertyIdentifier =>
        if inType then { types := [n.text source] } else { values := [n.text source] }
      | some .typeIdentifier => { types := [n.text source] }
      | some .asExpression | some .satisfiesExpression =>
        typedReferences source inType n.children
      | some kind =>
        if kind == .exportStatement && (n.child? .source).isSome then {}
        else referencesInAll source (inType || kind.isTypeContext) n.children
      | none => {} := by
  cases n
  unfold references
  rfl

theorem mem_referencesInAll_values {source : List Char} {inType : Bool} {name : String}
    {ns : List Node} :
    name ∈ (referencesInAll source inType ns).values ↔
      ∃ front child back, ns = front ++ child :: back ∧
        name ∈ (references source inType child).values := by
  induction ns with
  | nil => simp [referencesInAll]
  | cons n ns ih =>
    rw [referencesInAll, References.append, List.mem_append, ih]
    constructor
    · rintro (h | ⟨front, child, back, rfl, h⟩)
      · exact ⟨[], n, ns, rfl, h⟩
      · exact ⟨n :: front, child, back, rfl, h⟩
    · rintro ⟨front, child, back, heq, h⟩
      cases front with
      | nil =>
        obtain ⟨rfl, rfl⟩ := List.cons.inj heq
        exact .inl h
      | cons first front =>
        obtain ⟨rfl, rfl⟩ := List.cons.inj heq
        exact .inr ⟨front, child, back, rfl, h⟩

/-- Behind the word of an assertion everything is collected as a type. -/
theorem mem_typedReferences_values {source : List Char} {inType : Bool} {name : String}
    {ns : List Node} :
    name ∈ (typedReferences source inType ns).values ↔
      ∃ front child back, ns = front ++ child :: back ∧ child.opensType = false ∧
        name ∈ (references source (inType || front.any Node.opensType) child).values := by
  induction ns generalizing inType with
  | nil => simp [typedReferences]
  | cons n ns ih =>
    rw [typedReferences]
    by_cases hword : n.opensType
    · rw [if_pos (by simpa [Node.opensType] using hword), ih]
      constructor
      · rintro ⟨front, child, back, rfl, hchild, h⟩
        exact ⟨n :: front, child, back, rfl, hchild, by simpa [hword] using h⟩
      · rintro ⟨front, child, back, heq, hchild, h⟩
        cases front with
        | nil =>
          obtain ⟨rfl, rfl⟩ := List.cons.inj heq
          simp [hword] at hchild
        | cons first front =>
          obtain ⟨rfl, rfl⟩ := List.cons.inj heq
          exact ⟨front, child, back, rfl, hchild, by simpa [hword] using h⟩
    · rw [if_neg (by simpa [Node.opensType] using hword), References.append, List.mem_append, ih]
      constructor
      · rintro (h | ⟨front, child, back, rfl, hchild, h⟩)
        · exact ⟨[], n, ns, rfl, by simpa using hword, by simpa using h⟩
        · exact ⟨n :: front, child, back, rfl, hchild, by simpa [hword] using h⟩
      · rintro ⟨front, child, back, heq, hchild, h⟩
        cases front with
        | nil =>
          obtain ⟨rfl, rfl⟩ := List.cons.inj heq
          exact .inl (by simpa using h)
        | cons first front =>
          obtain ⟨rfl, rfl⟩ := List.cons.inj heq
          exact .inr ⟨front, child, back, rfl, hchild, by simpa [hword] using h⟩

theorem Node.Descent.keepsValue_iff {n : Node} {front : List Node} :
    (Node.Descent.mk n front).keepsValue ↔
      n.kind? ≠ some .importStatement ∧ n.isReExport = false ∧ n.kind? ≠ some .importAlias ∧
        n.kind?.any Kind.isTypeContext = false ∧
        (n.isOneOf [.asExpression, .satisfiesExpression] →
          front.any Node.opensType = false) := by
  have himport := Node.isA_iff (n := n) (k := .importStatement)
  have halias := Node.isA_iff (n := n) (k := .importAlias)
  simp only [Node.Descent.keepsValue, Node.Descent.intoImport, Node.Descent.intoAlias,
    Node.Descent.intoType]
  rw [ne_eq, ne_eq, ← himport, ← halias]
  cases n.isA .importStatement <;> cases n.isReExport <;> cases n.isA .importAlias <;>
    cases n.kind?.any Kind.isTypeContext <;>
    cases n.isOneOf [.asExpression, .satisfiesExpression] <;> simp

/-- What `mem_references_values_iff` says of the children of an assertion, for the assertion. -/
theorem mem_assertion_values_iff {source : List Char} {name : String} {n : Node} {inType : Bool}
    (hbelow : ∀ c ∈ n.children, c.tokensAreBare)
    (ih : ∀ c ∈ n.children, c.tokensAreBare → ∀ inType,
      name ∈ (references source inType c).values ↔
        inType = false ∧ c.OccursAsValue source name)
    (hkind : n.kind? = some .asExpression ∨ n.kind? = some .satisfiesExpression) :
    name ∈ (typedReferences source inType n.children).values ↔
      inType = false ∧ n.OccursAsValue source name := by
  have hname : ¬ n.isName := by rcases hkind with h | h <;> simp [Node.isName_iff, h]
  have hkeeps : ∀ front, (Node.Descent.mk n front).keepsValue ↔
      front.any Node.opensType = false := by
    intro front
    rw [Node.Descent.keepsValue_iff, Node.isOneOf_iff]
    rcases hkind with h | h <;> simp [h, Node.isReExport, Node.isA_iff, Kind.isTypeContext,
      Kind.typeContexts]
  rw [mem_typedReferences_values, Node.occursAsValue_iff]
  constructor
  · rintro ⟨front, child, back, hchildren, -, h⟩
    have hmem : child ∈ n.children := by simp [hchildren]
    obtain ⟨hvalue, hoccurs⟩ := (ih child hmem (hbelow child hmem) _).mp h
    obtain ⟨rfl, hfront⟩ := Bool.or_eq_false_iff.mp hvalue
    exact ⟨rfl, .inr ⟨front, child, back, hchildren, (hkeeps front).mpr hfront, hoccurs⟩⟩
  · rintro ⟨rfl, h | ⟨front, child, back, hchildren, hfront, hoccurs⟩⟩
    · exact absurd h.1 hname
    · have hmem : child ∈ n.children := by simp [hchildren]
      refine ⟨front, child, back, hchildren, ?_, ?_⟩
      · exact Node.opensType_eq_false (hoccurs.isNamed (hbelow child hmem))
      · exact (ih child hmem (hbelow child hmem) _).mpr
          ⟨by simpa using (hkeeps front).mp hfront, hoccurs⟩

/-- What `mem_references_values_iff` says of the children of a node without a word of its own, for
the node. -/
theorem mem_inner_values_iff {source : List Char} {name : String} {n : Node} {kind : Kind}
    {inType : Bool} (hbelow : ∀ c ∈ n.children, c.tokensAreBare)
    (ih : ∀ c ∈ n.children, c.tokensAreBare → ∀ inType,
      name ∈ (references source inType c).values ↔
        inType = false ∧ c.OccursAsValue source name)
    (hkind : n.kind? = some kind)
    (hplain : kind ∉ [.importStatement, .importAlias, .identifier, .shorthandPropertyIdentifier,
      .typeIdentifier, .asExpression, .satisfiesExpression]) :
    name ∈ (if kind == .exportStatement && (n.child? .source).isSome then {}
        else referencesInAll source (inType || kind.isTypeContext) n.children :
        References).values ↔
      inType = false ∧ n.OccursAsValue source name := by
  have hname : ¬ n.isName := by
    rw [Node.isName_iff, hkind]
    rintro (h | h) <;> cases h <;> simp at hplain
  have hreExport : n.isReExport = (kind == .exportStatement && (n.child? .source).isSome) := by
    rw [Node.isReExport, Node.isA_eq_kind?, hkind]
    rfl
  have hkeeps : ∀ front, (Node.Descent.mk n front).keepsValue ↔
      n.isReExport = false ∧ kind.isTypeContext = false := by
    intro front
    have hassertion : n.isOneOf [.asExpression, .satisfiesExpression] = false := by
      rw [Bool.eq_false_iff, ne_eq, Node.isOneOf_iff, hkind]
      rintro ⟨k, hk, h⟩
      cases h
      simp_all
    rw [Node.Descent.keepsValue_iff, hkind]
    simp_all
  rw [Node.occursAsValue_iff, or_iff_right (fun h => hname h.1), ← hreExport]
  split
  case isTrue hskip => simp [hkeeps, hskip]
  case isFalse hskip =>
    rw [mem_referencesInAll_values]
    constructor
    · rintro ⟨front, child, back, hchildren, h⟩
      have hmem : child ∈ n.children := by simp [hchildren]
      obtain ⟨hvalue, hoccurs⟩ := (ih child hmem (hbelow child hmem) _).mp h
      obtain ⟨rfl, htype⟩ := Bool.or_eq_false_iff.mp hvalue
      have hfirst := (hkeeps front).mpr ⟨by simpa using hskip, htype⟩
      exact ⟨rfl, front, child, back, hchildren, hfirst, hoccurs⟩
    · rintro ⟨rfl, front, child, back, hchildren, hfirst, hoccurs⟩
      have hmem : child ∈ n.children := by simp [hchildren]
      refine ⟨front, child, back, hchildren, ?_⟩
      rw [ih child hmem (hbelow child hmem)]
      exact ⟨by simpa using ((hkeeps front).mp hfirst).2, hoccurs⟩

/-- What the analysis collects as values of a tree are the names that occur in it as values. -/
theorem mem_references_values_iff {source : List Char} {name : String} (n : Node)
    (hbare : n.tokensAreBare) (inType : Bool) :
    name ∈ (references source inType n).values ↔
      inType = false ∧ n.OccursAsValue source name := by
  induction n using Node.induction_below generalizing inType with
  | step n ih =>
    have hbelow := (Node.tokensAreBare_iff.mp hbare).2
    have hskipped : ∀ kind ∈ [Kind.importStatement, .importAlias], n.kind? = some kind →
        ¬ n.OccursAsValue source name := by
      intro kind hmem hkind hoccurs
      rcases Node.occursAsValue_iff.mp hoccurs with ⟨hname, -⟩ | ⟨_, _, _, -, hfirst, -⟩
      · rw [Node.isName_iff, hkind] at hname
        rcases hname with h | h <;> cases h <;> simp at hmem
      · rw [Node.Descent.keepsValue_iff, hkind] at hfirst
        simp_all
    rw [references_eq]
    split
    case h_1 hkind => simp [hskipped _ (by simp) hkind]
    case h_2 hkind => simp [hskipped _ (by simp) hkind]
    case h_3 hkind =>
      have hname : n.isName := by simp [Node.isName_iff, hkind]
      rw [Node.occursAsValue_token_iff hbare (by simp [Node.isToken, hname])]
      cases inType <;> simp [hname, eq_comm (a := name)]
    case h_4 hkind =>
      have hname : n.isName := by simp [Node.isName_iff, hkind]
      rw [Node.occursAsValue_token_iff hbare (by simp [Node.isToken, hname])]
      cases inType <;> simp [hname, eq_comm (a := name)]
    case h_5 hkind =>
      have hname : ¬ n.isName := by simp [Node.isName_iff, hkind]
      rw [Node.occursAsValue_token_iff hbare (by simp [Node.isToken, Node.isA_iff, hkind])]
      simp [hname]
    case h_6 hkind => exact mem_assertion_values_iff hbelow ih (.inl hkind)
    case h_7 hkind => exact mem_assertion_values_iff hbelow ih (.inr hkind)
    case h_8 hkind => exact mem_inner_values_iff hbelow ih hkind (by simp_all)
    case h_9 hkind =>
      have hname : ¬ n.isName := by simp [Node.isName_iff, hkind]
      have htoken : n.isToken := by simp [Node.isToken, Node.kind?_eq_none_iff.mp hkind]
      rw [Node.occursAsValue_token_iff hbare htoken]
      simp [hname]

end CompilingProxy
