import CompilingProxy.Module.Dependency
import CompilingProxy.Proofs.Grammar.Tree
import CompilingProxy.Proofs.Module.Path
import CompilingProxy.Proofs.Module.Registry
import CompilingProxy.Proofs.Text.Edit

/-!
# Specifiers in their text

Where a tree lies in its text as the trees of a parser do, the edits that make its specifiers
canonical can be performed.
-/

namespace CompilingProxy

namespace Node

def isImportOrExport (n : Node) : Bool := n.isA .importStatement || n.isA .exportStatement

mutual

/-- Whether an import or export stands in the tree. -/
def holdsStatement (n : Node) : Bool :=
  match n with
  | ⟨label, role, start, stop, missing, children⟩ =>
    isImportOrExport ⟨label, role, start, stop, missing, children⟩ || anyHoldsStatement children

/-- Whether an import or export stands in one of the trees. -/
def anyHoldsStatement : List Node → Bool
  | [] => false
  | n :: ns => n.holdsStatement || anyHoldsStatement ns

end

theorem anyHoldsStatement_eq_false_iff {ns : List Node} :
    anyHoldsStatement ns = false ↔ ∀ n ∈ ns, n.holdsStatement = false := by
  induction ns with
  | nil => simp [anyHoldsStatement]
  | cons n ns ih => simp [anyHoldsStatement, ih]

theorem holdsStatement_eq_false_iff {n : Node} :
    n.holdsStatement = false ↔
      n.isImportOrExport = false ∧ ∀ c ∈ n.children, c.holdsStatement = false := by
  cases n
  rw [holdsStatement, Bool.or_eq_false_iff, anyHoldsStatement_eq_false_iff]

mutual

/-- Whether the nodes of the tree begin and end between characters of the text, and no specifier
holds a statement. -/
def isPlaced (text : List Char) (n : Node) : Bool :=
  match n with
  | ⟨label, role, start, stop, missing, children⟩ =>
    Text.isBoundary text start && Text.isBoundary text stop &&
      ((child? ⟨label, role, start, stop, missing, children⟩ .source).all
        fun literal => !literal.holdsStatement) && allPlaced text children

/-- Whether the trees are placed so. -/
def allPlaced (text : List Char) : List Node → Bool
  | [] => true
  | n :: ns => n.isPlaced text && allPlaced text ns

end

theorem allPlaced_iff {text : List Char} {ns : List Node} :
    allPlaced text ns ↔ ∀ n ∈ ns, n.isPlaced text := by
  induction ns with
  | nil => simp [allPlaced]
  | cons n ns ih => simp [allPlaced, ih]

theorem isPlaced_iff {text : List Char} {n : Node} :
    n.isPlaced text ↔ Text.isBoundary text n.start ∧ Text.isBoundary text n.stop ∧
      (∀ literal, n.child? .source = some literal → literal.holdsStatement = false) ∧
      ∀ c ∈ n.children, c.isPlaced text := by
  cases n
  rw [isPlaced, Bool.and_eq_true, Bool.and_eq_true, Bool.and_eq_true, allPlaced_iff, and_assoc,
    and_assoc]
  refine and_congr_right fun _ => and_congr_right fun _ => and_congr_left fun _ => ?_
  cases child? _ .source <;> simp

end Node

/-- The trees that a reader makes lie in their texts, and no text as a whole is an import. -/
structure TreeReader.IsFaithful (read : TreeReader) : Prop where
  isWhole (kind : ScriptKind) (text : String) : (read kind text).isA .importStatement = false
  isOrdered (kind : ScriptKind) (text : String) : (read kind text).isOrdered
  isPlaced (kind : ScriptKind) (text : String) : (read kind text).isPlaced text.toList

/-! ### What specifiers come to -/

mutual

/-- The literals in the tree that name other modules, in the order of the text. -/
def Node.sources (n : Node) : List Node :=
  match n with
  | ⟨label, role, start, stop, missing, children⟩ =>
    let n : Node := ⟨label, role, start, stop, missing, children⟩
    (if n.isImportOrExport then (n.child? .source).toList else []) ++
      if n.isA .importStatement then [] else sourcesOfAll children

def Node.sourcesOfAll : List Node → List Node
  | [] => []
  | n :: ns => n.sources ++ sourcesOfAll ns

end

theorem Node.sourcesOfAll_eq (ns : List Node) : Node.sourcesOfAll ns = ns.flatMap Node.sources := by
  induction ns with
  | nil => rw [Node.sourcesOfAll, List.flatMap_nil]
  | cons n ns ih => rw [Node.sourcesOfAll, List.flatMap_cons, ih]

theorem Node.sources_eq (n : Node) :
    n.sources = (if n.isImportOrExport then (n.child? .source).toList else []) ++
      if n.isA .importStatement then [] else n.children.flatMap Node.sources := by
  cases n
  rw [Node.sources, Node.sourcesOfAll_eq]

section

variable {path : ModulePath} {source : List Char}

theorem specifiersIn_eq (n : Node) :
    specifiersIn path source n =
      (if n.isImportOrExport then
        ((n.child? .source).bind (specifierDependency? path source)).toList else []) ++
      if n.isA .importStatement then [] else specifiersInAll path source n.children := by
  cases n
  rw [specifiersIn]
  dsimp only [Node.isImportOrExport]
  split <;> simp

theorem specifiersInAll_eq (ns : List Node) :
    specifiersInAll path source ns = ns.flatMap (specifiersIn path source) := by
  induction ns with
  | nil => rw [specifiersInAll, List.flatMap_nil]
  | cons n ns ih => rw [specifiersInAll, List.flatMap_cons, ih]

/-- What the literals come to that name a path, one after the other. -/
theorem specifiersIn_sources (n : Node) :
    specifiersIn path source n = n.sources.filterMap (specifierDependency? path source) := by
  induction n using Node.induction_below with
  | step n ih =>
    rw [specifiersIn_eq, Node.sources_eq, List.filterMap_append]
    congr 1
    · split
      · cases n.child? .source with
        | none => rfl
        | some literal =>
          rw [Option.bind_some, Option.toList_some]
          cases hfound : specifierDependency? path source literal <;> simp [hfound]
      · rfl
    · split
      · rfl
      · rw [specifiersInAll_eq, List.filterMap_flatMap]
        exact List.flatMap_congr fun c hc => ih c hc

/-- The edits of what the tree's specifiers come to. -/
def specifierEdits (path : ModulePath) (source : List Char) (n : Node) : List TextEdit :=
  (specifiersIn path source n).flatMap (·.2)

theorem specifierEdits_eq (n : Node) :
    specifierEdits path source n =
      (if n.isImportOrExport then
        ((n.child? .source).bind (specifierDependency? path source)).toList.flatMap (·.2)
        else []) ++
      if n.isA .importStatement then [] else n.children.flatMap (specifierEdits path source) := by
  rw [specifierEdits, specifiersIn_eq, List.flatMap_append, specifiersInAll_eq]
  congr 1
  · split <;> simp
  · split
    · simp
    · rw [List.flatMap_assoc]
      rfl

/-- What a specifier comes to is written in canonical form. -/
theorem isCanonical_of_specifierDependency? {literal : Node} {x : Dependency × List TextEdit}
    (h : specifierDependency? path source literal = some x) : x.1.path.IsCanonical := by
  rw [specifierDependency?] at h
  split at h
  · obtain ⟨target, htarget, rfl⟩ := Option.map_eq_some_iff.mp h
    exact (ModulePath.isSource_of_resolve? htarget).isCanonical
  · cases h

theorem isCanonical_of_mem_specifiersIn {n : Node} {x : Dependency × List TextEdit}
    (hx : x ∈ specifiersIn path source n) : x.1.path.IsCanonical := by
  induction n using Node.induction_below with
  | step n ih =>
    rw [specifiersIn_eq, List.mem_append] at hx
    rcases hx with hx | hx
    · split at hx
      · obtain ⟨literal, -, hliteral⟩ := Option.bind_eq_some_iff.mp (Option.mem_toList.mp hx)
        exact isCanonical_of_specifierDependency? hliteral
      · cases hx
    · split at hx
      · cases hx
      · rw [specifiersInAll_eq] at hx
        obtain ⟨c, hc, hx⟩ := List.mem_flatMap.mp hx
        exact ih c hc hx

theorem isCanonical_of_directiveDependency? {comment : List Char} {d : Dependency}
    (h : directiveDependency? path comment = some d) : d.path.IsCanonical := by
  rw [directiveDependency?] at h
  obtain ⟨⟨kind, name⟩, -, h⟩ := Option.bind_eq_some_iff.mp h
  dsimp only at h
  split at h
  · rw [← Option.some.inj h]
    exact .inl ⟨_, rfl⟩
  · obtain ⟨target, htarget, h⟩ := Option.bind_eq_some_iff.mp h
    split at h
    · cases h
    · rw [← Option.some.inj h]
      exact ModulePath.isCanonical_of_resolve? htarget

theorem isCanonical_of_mem_directives {ns : List Node} {d : Dependency}
    (hd : d ∈ directives path source ns) : d.path.IsCanonical := by
  induction ns with
  | nil => cases hd
  | cons n ns ih =>
    rw [directives] at hd
    split at hd
    · rcases List.mem_append.mp hd with hd | hd
      · exact isCanonical_of_directiveDependency? (Option.mem_toList.mp hd)
      · exact ih hd
    · split at hd
      · exact ih hd
      · cases hd

/-- A literal is edited as a whole. -/
theorem range_of_specifierDependency? {literal : Node} {d : Dependency} {edits : List TextEdit}
    (h : specifierDependency? path source literal = some (d, edits)) :
    edits = [] ∨ ∃ text, edits = [.replace literal.start literal.stop text] := by
  rw [specifierDependency?] at h
  split at h
  · obtain ⟨target, -, heq⟩ := Option.map_eq_some_iff.mp h
    obtain ⟨-, rfl⟩ := Prod.mk.inj heq
    split
    · exact .inl rfl
    · exact .inr ⟨_, rfl⟩
  · cases h

theorem specifierEdits_of_not_holdsStatement {n : Node} (h : n.holdsStatement = false) :
    specifierEdits path source n = [] := by
  induction n using Node.induction_below with
  | step n ih =>
    obtain ⟨hown, hbelow⟩ := Node.holdsStatement_eq_false_iff.mp h
    rw [specifierEdits_eq, if_neg (by simp [hown]), List.nil_append]
    split
    · rfl
    · exact List.flatMap_eq_nil_iff.mpr fun c hc => ih c hc (hbelow c hc)

/-- Edits between two offsets that fit the text and are apart from each other. -/
structure Within (text : List Char) (start stop : Nat) (es : List TextEdit) : Prop where
  fits : ∀ e ∈ es, e.range.Fits text
  inside : ∀ e ∈ es, start ≤ e.range.start ∧ e.range.stop ≤ stop
  apart : es.Pairwise fun a b => a.range.Apart b.range

namespace Within

variable {text : List Char} {start stop start' stop' : Nat} {es ds : List TextEdit}

theorem nil : Within text start stop [] := ⟨by simp, by simp, .nil⟩

theorem widen (h : Within text start stop es) (hstart : start' ≤ start) (hstop : stop ≤ stop') :
    Within text start' stop' es := by
  refine ⟨h.fits, fun e he => ?_, h.apart⟩
  have hinside := h.inside e he
  omega

theorem append (hes : Within text start stop es) (hds : Within text start stop ds)
    (hapart : ∀ e ∈ es, ∀ d ∈ ds, e.range.Apart d.range) : Within text start stop (es ++ ds) := by
  refine ⟨fun e he => ?_, fun e he => ?_, List.pairwise_append.mpr ⟨hes.apart, hds.apart, hapart⟩⟩
  · exact (List.mem_append.mp he).elim (hes.fits e) (hds.fits e)
  · exact (List.mem_append.mp he).elim (hes.inside e) (hds.inside e)

/-- Edits of what stands in a row. -/
theorem flatMap {f : Node → List TextEdit} {ns : List Node} (h : Node.allOrdered start stop ns)
    (hf : ∀ n ∈ ns, Within text n.start n.stop (f n)) :
    Within text start stop (ns.flatMap f) := by
  induction ns generalizing start with
  | nil => exact nil
  | cons n ns ih =>
    obtain ⟨hstart, hn, hns⟩ := Node.allOrdered_cons_iff.mp h
    have hwidth := Node.start_le_stop_of_isOrdered hn
    have hrest := Node.start_le_stop_of_allOrdered hns
    have hfirst := hf n List.mem_cons_self
    have hothers := ih hns fun m hm => hf m (List.mem_cons_of_mem _ hm)
    rw [List.flatMap_cons]
    refine (hfirst.widen hstart hrest).append (hothers.widen (by omega) (Nat.le_refl _)) ?_
    intro e he d hd
    have hbefore := (hfirst.inside e he).2
    have hbehind := (hothers.inside d hd).1
    exact .inl (by omega)

end Within

/-- The edits of a specifier stay in it. -/
theorem specifier_within {literal : Node} (hordered : literal.isOrdered)
    (hplaced : literal.isPlaced source) :
    Within source literal.start literal.stop
      ((specifierDependency? path source literal).toList.flatMap (·.2)) := by
  obtain ⟨hstart, hstop, -, -⟩ := Node.isPlaced_iff.mp hplaced
  cases hfound : specifierDependency? path source literal with
  | none => exact .nil
  | some found =>
    obtain ⟨d, edits⟩ := found
    rcases range_of_specifierDependency? hfound with rfl | ⟨text, rfl⟩
    · exact .nil
    · have hfits : Range.Fits source ⟨literal.start, literal.stop⟩ :=
        ⟨Node.start_le_stop_of_isOrdered hordered, hstart, hstop⟩
      refine ⟨fun e he => ?_, fun e he => ?_, ?_⟩
      · rw [List.mem_singleton.mp he]
        exact hfits
      · rw [List.mem_singleton.mp he]
        exact ⟨Nat.le_refl _, Nat.le_refl _⟩
      · exact List.pairwise_singleton _ _

/-- The edits of a tree stay in it, apart from each other. -/
theorem specifierEdits_within {n : Node} (hordered : n.isOrdered) (hplaced : n.isPlaced source) :
    Within source n.start n.stop (specifierEdits path source n) := by
  induction n using Node.induction_below with
  | step n ih =>
    have hrow := (Node.isOrdered_iff.mp hordered).2
    obtain ⟨-, -, hplain, hbelow⟩ := Node.isPlaced_iff.mp hplaced
    have hordered' : ∀ c ∈ n.children, c.isOrdered := fun c hc => Node.isOrdered_of_mem hrow hc
    have hchildren : ∀ c ∈ n.children,
        Within source c.start c.stop (specifierEdits path source c) :=
      fun c hc => ih c hc (hordered' c hc) (hbelow c hc)
    rw [specifierEdits_eq]
    cases hliteral : n.child? .source with
    | none =>
      have hown : (if n.isImportOrExport then
          ((none : Option Node).bind (specifierDependency? path source)).toList.flatMap (·.2)
          else []) = [] := by split <;> rfl
      rw [hown, List.nil_append]
      split
      · exact .nil
      · exact .flatMap hrow hchildren
    | some literal =>
      obtain ⟨-, front, back, hsplit, -⟩ := List.find?_eq_some_iff_append.mp hliteral
      have hmem : literal ∈ n.children := by simp [hsplit]
      rw [hsplit] at hrow hchildren
      obtain ⟨hfront, hback⟩ := Node.allOrdered_append_cons hrow
      have hfrontEnd := Node.start_le_stop_of_allOrdered hfront
      have hbackStart := Node.start_le_stop_of_allOrdered hback
      have hwidth := Node.start_le_stop_of_isOrdered (hordered' _ hmem)
      have hown : Within source literal.start literal.stop
          (if n.isImportOrExport then
            ((some literal).bind (specifierDependency? path source)).toList.flatMap (·.2)
            else []) := by
        split
        · exact specifier_within (hordered' _ hmem) (hbelow _ hmem)
        · exact .nil
      have hbefore : Within source n.start literal.start
          (front.flatMap (specifierEdits path source)) :=
        .flatMap hfront fun c hc => hchildren c (List.mem_append_left _ hc)
      have hbehind : Within source literal.stop n.stop
          (back.flatMap (specifierEdits path source)) :=
        .flatMap hback fun c hc =>
          hchildren c (List.mem_append_right _ (List.mem_cons_of_mem _ hc))
      refine (hown.widen hfrontEnd hbackStart).append ?_ fun e he d hd => ?_
      · split
        · exact .nil
        · rw [hsplit, List.flatMap_append, List.flatMap_cons,
            specifierEdits_of_not_holdsStatement (hplain literal hliteral), List.nil_append]
          refine (hbefore.widen (Nat.le_refl _) (by omega)).append
            (hbehind.widen (by omega) (Nat.le_refl _)) fun e he d hd => ?_
          have hleft := (hbefore.inside e he).2
          have hright := (hbehind.inside d hd).1
          exact .inl (by omega)
      · split at hd
        · cases hd
        · rw [hsplit, List.flatMap_append, List.flatMap_cons,
            specifierEdits_of_not_holdsStatement (hplain literal hliteral), List.nil_append] at hd
          have hinside := hown.inside e he
          rcases List.mem_append.mp hd with hd | hd
          · have hleft := (hbefore.inside d hd).2
            exact .inr (by omega)
          · have hright := (hbehind.inside d hd).1
            exact .inl (by omega)

end

/-- What a module's specifiers come to can be written into its text. -/
theorem ModuleRecord.discover_applies {r : ModuleRecord} (hordered : r.tree.isOrdered)
    (hplaced : r.tree.isPlaced r.text.toList) :
    ∃ out, applyEdits r.text.toList r.discover.edits = .ok out := by
  have hwithin : Within r.text.toList r.tree.start r.tree.stop r.discover.edits :=
    specifierEdits_within hordered hplaced
  exact applyEdits_isOk hwithin.fits hwithin.apart

/-- Everything that a module depends on is written in canonical form. -/
theorem ModuleRecord.isCanonical_of_mem_discover {r : ModuleRecord} {p : ModulePath}
    (hp : p ∈ r.discover.paths) : p.IsCanonical := by
  obtain ⟨d, hd, rfl⟩ := Discovery.mem_paths_iff.mp hp
  rcases List.mem_append.mp hd with hd | hd
  · exact isCanonical_of_mem_directives hd
  · obtain ⟨x, hx, rfl⟩ := List.mem_map.mp hd
    exact isCanonical_of_mem_specifiersIn hx

end CompilingProxy
