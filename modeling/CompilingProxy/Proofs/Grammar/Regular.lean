import CompilingProxy.Emit.Basic
import CompilingProxy.Proofs.Grammar.Tree

/-!
# What the trees of the grammar are like

A node is compiled without a look at most of what is around it, which the shape of the trees makes
good. What stands side by side is told apart by characters that are no blanks, what is deleted with
the blanks around it stands in a row that goes on with something else, and bodies are in braces.
-/

namespace CompilingProxy.Node

open Emit

/-! ### Every node -/

mutual

/-- Whether the test holds of the node and of all below it. -/
def everywhere (p : Node → Bool) (n : Node) : Bool :=
  match n with
  | ⟨label, role, start, stop, missing, children⟩ =>
    p ⟨label, role, start, stop, missing, children⟩ && everywhereIn p children

def everywhereIn (p : Node → Bool) : List Node → Bool
  | [] => true
  | n :: ns => n.everywhere p && everywhereIn p ns

end

theorem everywhereIn_iff {p : Node → Bool} {ns : List Node} :
    everywhereIn p ns ↔ ∀ n ∈ ns, n.everywhere p := by
  induction ns with
  | nil => simp [everywhereIn]
  | cons n ns ih => simp [everywhereIn, ih]

theorem everywhere_iff {p : Node → Bool} {n : Node} :
    n.everywhere p ↔ p n ∧ ∀ c ∈ n.children, c.everywhere p := by
  cases n
  rw [everywhere, Bool.and_eq_true, everywhereIn_iff]

theorem everywhere_mono {p q : Node → Bool} (hpq : ∀ n, p n → q n) {n : Node}
    (h : n.everywhere p) : n.everywhere q := by
  induction n using induction_below with
  | step n ih =>
    obtain ⟨hn, hbelow⟩ := everywhere_iff.mp h
    exact everywhere_iff.mpr ⟨hpq n hn, fun c hc => ih c hc (hbelow c hc)⟩

/-! ### Ends of nodes -/

/-- Whether nothing of the namespace stays. -/
def leavesNothing (n : Node) : Bool :=
  n.isOneOf [.internalModule, .module] &&
    (n.child? .name).any fun name =>
      name.isA .string || !n.isInstantiated || (n.child? .body).isNone

/-- The kinds of statements and members that may be deleted with the lines that they stand on. -/
def erasableKinds : List Kind :=
  erasedDeclarations ++ [.methodSignature, .abstractMethodSignature, .indexSignature,
    .publicFieldDefinition, .importStatement, .exportStatement]

/-- Whether the node may be deleted with the lines that it stands on. -/
def isErasable (n : Node) : Bool :=
  n.isOneOf erasableKinds || n.leavesNothing ||
    n.isA .expressionStatement && n.namedChildren.head?.any leavesNothing

/-- Whether the node may be deleted with the blanks behind it. -/
def trails (n : Node) : Bool :=
  n.isErasable || n.isOneOf [.accessibilityModifier, .overrideModifier, .requiredParameter] ||
    n.isWord "readonly" || n.isWord "abstract"

mutual

/-- Whether no node that may be deleted with its lines begins where the node does. -/
def beginsPlainly (n : Node) : Bool :=
  match n with
  | ⟨label, role, start, stop, missing, children⟩ =>
    !isErasable ⟨label, role, start, stop, missing, children⟩ && headBeginsPlainly children

def headBeginsPlainly : List Node → Bool
  | [] => true
  | n :: _ => n.beginsPlainly

end

mutual

/-- Whether no node that may be deleted with the blanks behind it ends where the node does. -/
def endsPlainly (n : Node) : Bool :=
  match n with
  | ⟨label, role, start, stop, missing, children⟩ =>
    !trails ⟨label, role, start, stop, missing, children⟩ && lastEndsPlainly children

def lastEndsPlainly : List Node → Bool
  | [] => true
  | [n] => n.endsPlainly
  | _ :: n :: ns => lastEndsPlainly (n :: ns)

end

theorem headBeginsPlainly_iff {ns : List Node} :
    headBeginsPlainly ns ↔ ∀ n, ns.head? = some n → n.beginsPlainly := by
  cases ns <;> simp [headBeginsPlainly]

theorem beginsPlainly_iff {n : Node} :
    n.beginsPlainly ↔ n.isErasable = false ∧
      ∀ c, n.children.head? = some c → c.beginsPlainly := by
  cases n
  rw [beginsPlainly, Bool.and_eq_true, headBeginsPlainly_iff, Bool.not_eq_true']

theorem lastEndsPlainly_iff {ns : List Node} :
    lastEndsPlainly ns ↔ ∀ n, ns.getLast? = some n → n.endsPlainly := by
  induction ns with
  | nil => simp [lastEndsPlainly]
  | cons n ns ih =>
    cases ns with
    | nil => simp [lastEndsPlainly]
    | cons m ns => rw [lastEndsPlainly, ih, List.getLast?_cons_cons]

theorem endsPlainly_iff {n : Node} :
    n.endsPlainly ↔ n.trails = false ∧ ∀ c, n.children.getLast? = some c → c.endsPlainly := by
  cases n
  rw [endsPlainly, Bool.and_eq_true, lastEndsPlainly_iff, Bool.not_eq_true']

/-! ### Rows -/

/-- Whether the node is a clause that is deleted from where the node in front of it ends. -/
def isHeritage (n : Node) : Bool := n.isOneOf [.implementsClause, .classHeritage]

/-- Whether the node is a mark between others. -/
def isSeparator (n : Node) : Bool := n.isWord ";" || n.isWord ","

/-- Whether the mark behind a part of the node is deleted along with it. -/
def takes (n part mark : Node) : Bool :=
  n.isA .classBody && part.isErasable && mark.isWord ";" ||
    part.isA .requiredParameter && mark.isWord ","

/-- Whether the node's text begins with a character that is no blank, and its last line has one. -/
def isSolid (source : List Char) (n : Node) : Bool :=
  let text := Text.slice source n.start n.stop
  text.head?.any (!Text.isBlank ·) && (Text.lastLine text).any (!Text.isBlank ·)

/-- Whether nothing of the node is deleted with blanks around the node. -/
def isPlain (n : Node) : Bool := n.beginsPlainly && n.endsPlainly && !n.isHeritage

/-- Whether no clause of heritage stands behind a mark, and the node ends with no mark that may be
deleted along with a part of it. -/
def isAligned (n : Node) : List Node → Bool
  | c :: d :: rest =>
    !(d.isHeritage && c.isSeparator) && !(rest.isEmpty && n.takes c d) && n.isAligned (d :: rest)
  | _ => true

/-- Whether the clauses of heritage stand behind what ends plainly. -/
def heritageIsFirm : List Node → Bool
  | c :: d :: rest => (!d.isHeritage || c.endsPlainly) && heritageIsFirm (d :: rest)
  | _ => true

/-- Whether the node is a block of statements in braces. -/
def isBlock (n : Node) : Bool :=
  n.isA .statementBlock &&
  (n.children.head?.any fun brace =>
    brace.isWord "\x7b" && brace.start == n.start && brace.stop == n.start + 1) &&
  n.children.all fun c => !(c.isHeritage || c.isSeparator || c.isA .requiredParameter)

/-! ### Kinds -/

/-- Whether what the compiler asks of the parts of a node of its kind is so. -/
def holdsPlainly (n : Node) : Bool :=
  match n.kind? with
  | some .exportStatement =>
    (n.child? .declaration).all fun d =>
      d.isOneOf (.internalModule :: .module :: erasedDeclarations) || d.beginsPlainly
  | some .methodDefinition =>
    (n.child? .body).all fun body =>
      body.isBlock && body.children.all fun s => !isSuperCall s || s.endsPlainly
  | some .internalModule | some .module => (n.child? .body).all isBlock
  | _ => true

/-- Whether the node lies in the text as the nodes of the grammar do. -/
def isRegular (source : List Char) (n : Node) : Bool :=
  Text.isBoundary source n.start && Text.isBoundary source n.stop &&
  (n.isNamed || n.children.isEmpty) &&
  (n.children.all (isSolid source) || n.children.all isPlain) && n.isAligned n.children &&
  (!n.isHeritage || n.beginsPlainly) && n.holdsPlainly

theorem isRegular_iff {source : List Char} {n : Node} :
    n.isRegular source ↔ (Text.isBoundary source n.start ∧ Text.isBoundary source n.stop) ∧
      (n.isNamed ∨ n.children = []) ∧
      ((∀ c ∈ n.children, c.isSolid source) ∨ ∀ c ∈ n.children, c.isPlain) ∧
      n.isAligned n.children ∧ (n.isHeritage → n.beginsPlainly) ∧ n.holdsPlainly := by
  simp only [isRegular, Bool.and_eq_true, Bool.or_eq_true, List.isEmpty_iff, List.all_eq_true,
    Bool.not_eq_true', and_assoc]
  cases n.isHeritage <;> simp

theorem isPlain_iff {n : Node} :
    n.isPlain ↔ n.beginsPlainly ∧ n.endsPlainly ∧ n.isHeritage = false := by
  rw [isPlain, Bool.and_eq_true, Bool.and_eq_true, Bool.not_eq_true', and_assoc]

theorem isAligned_cons_iff {n c d : Node} {rest : List Node} :
    n.isAligned (c :: d :: rest) ↔ (d.isHeritage → c.isSeparator = false) ∧
      (rest = [] → n.takes c d = false) ∧ n.isAligned (d :: rest) := by
  simp only [isAligned, Bool.and_eq_true, Bool.not_eq_true', Bool.and_eq_false_iff,
    List.isEmpty_eq_false_iff, and_assoc]
  cases d.isHeritage <;> cases rest <;> simp

theorem heritageIsFirm_cons_iff {c d : Node} {rest : List Node} :
    heritageIsFirm (c :: d :: rest) ↔
      (d.isHeritage → c.endsPlainly) ∧ heritageIsFirm (d :: rest) := by
  rw [heritageIsFirm, Bool.and_eq_true]
  cases d.isHeritage <;> simp

theorem heritageIsFirm_tail {c : Node} {rest : List Node} (h : heritageIsFirm (c :: rest)) :
    heritageIsFirm rest := by
  cases rest with
  | nil => rfl
  | cons d rest => exact (heritageIsFirm_cons_iff.mp h).2

theorem isAligned_tail {n c : Node} {rest : List Node} (h : n.isAligned (c :: rest)) :
    n.isAligned rest := by
  cases rest with
  | nil => rfl
  | cons d rest => exact (isAligned_cons_iff.mp h).2.2

theorem isBlock_iff {n : Node} :
    n.isBlock ↔ n.isA .statementBlock ∧
      (∃ brace rest, n.children = brace :: rest ∧ brace.isWord "\x7b" ∧ brace.start = n.start ∧
        brace.stop = n.start + 1) ∧
      ∀ c ∈ n.children, c.isHeritage = false ∧ c.isSeparator = false ∧
        c.isA .requiredParameter = false := by
  simp only [isBlock, Bool.and_eq_true, List.all_eq_true, Bool.not_eq_true', Bool.or_eq_false_iff,
    and_assoc]
  refine and_congr_right fun _ => and_congr_left fun _ => ?_
  cases n.children <;> simp [and_assoc]

theorem isErasable_of_kind? {n : Node} {k : Kind} (h : n.kind? = some k)
    (hk : k ∈ erasableKinds) : n.isErasable := by
  rw [isErasable, isOneOf_iff.mpr ⟨k, hk, h⟩]
  rfl

theorem isHeritage_of_isErasable {n : Node} (h : n.isErasable) : n.isHeritage = false := by
  rw [Bool.eq_false_iff]
  intro hheritage
  obtain ⟨k, hk, hkind⟩ := isOneOf_iff.mp hheritage
  rw [isErasable, leavesNothing, isOneOf_of_kind? hkind, isOneOf_of_kind? hkind,
    isA_of_kind? hkind] at h
  simp only [List.mem_cons, List.not_mem_nil, or_false] at hk
  rcases hk with rfl | rfl <;> cases h

theorem trails_of_isErasable {n : Node} (h : n.isErasable) : n.trails := by
  rw [trails, h]
  rfl

theorem isSeparator_of_kind? {n : Node} {k : Kind} (h : n.kind? = some k) :
    n.isSeparator = false := by
  rw [isSeparator, isWord_of_kind? h, isWord_of_kind? h]
  rfl

theorem isSeparator_of_takes {n part mark : Node} (h : n.takes part mark) : mark.isSeparator := by
  rw [takes, Bool.or_eq_true, Bool.and_eq_true, Bool.and_eq_true, Bool.and_eq_true] at h
  rw [isSeparator, Bool.or_eq_true]
  rcases h with ⟨-, h⟩ | ⟨-, h⟩
  · exact .inl h
  · exact .inr h

theorem trails_of_takes {n part mark : Node} (h : n.takes part mark) : part.trails := by
  rw [takes, Bool.or_eq_true, Bool.and_eq_true, Bool.and_eq_true, Bool.and_eq_true] at h
  rw [trails]
  rcases h with ⟨⟨-, h⟩, -⟩ | ⟨h, -⟩
  · rw [h]
    rfl
  · have hkind : part.isOneOf [.accessibilityModifier, .overrideModifier, .requiredParameter] :=
      isOneOf_iff.mpr ⟨_, by simp, isA_iff.mp h⟩
    rw [hkind]
    simp

/-- Whether whatever text is deleted behind, or put behind, ends with nothing that is deleted with
the blanks behind it. A namespace of types alone that stands as an operand is deleted so. -/
def isFirm (n : Node) : Bool :=
  heritageIsFirm n.children &&
  match n.kind? with
  | some .asExpression | some .satisfiesExpression | some .nonNullExpression =>
    n.namedChildren.head?.all endsPlainly
  | some .exportStatement =>
    (n.child? .declaration).all fun d =>
      d.isOneOf (.internalModule :: .module :: erasedDeclarations) || d.endsPlainly
  | _ => true

/-- Whether the last character of the body of a namespace takes one byte, unless the body stands on
one line. -/
def endsInByte (source : List Char) (n : Node) : Bool :=
  match n.kind? with
  | some .internalModule | some .module =>
    (n.child? .body).all fun body =>
      !(Text.slice source body.start body.stop).contains '\n' ||
        Text.isBoundary source (body.stop - 1)
  | _ => true

end CompilingProxy.Node
