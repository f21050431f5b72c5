import CompilingProxy.Grammar.Node

/-!
# The shape of syntax trees

Induction on trees, and what the trees of a parser are like: what is below a node lies in it, each
piece behind the one before.
-/

namespace CompilingProxy

namespace Node

/-- What holds of a node whenever it holds of the nodes below it holds of all. -/
theorem induction_below {motive : Node → Prop}
    (step : ∀ n : Node, (∀ c ∈ n.children, motive c) → motive n) (n : Node) : motive n :=
  step n fun c _ => induction_below step c
termination_by sizeOf n
decreasing_by
  obtain ⟨label, role, start, stop, missing, children⟩ := n
  have hsize : sizeOf c < sizeOf children := List.sizeOf_lt_of_mem (by assumption)
  simp only [Node.mk.sizeOf_spec]
  omega

/-! ### Kinds -/

theorem isA_iff {n : Node} {k : Kind} : n.isA k ↔ n.kind? = some k := by
  obtain ⟨label, role, start, stop, missing, children⟩ := n
  cases label <;> simp [isA, kind?]

theorem isA_eq_kind? {n : Node} {k : Kind} : n.isA k = (n.kind? == some k) := by
  rw [Bool.eq_iff_iff, isA_iff, beq_iff_eq]

theorem kind?_eq_none_iff {n : Node} : n.kind? = none ↔ n.isNamed = false := by
  obtain ⟨label, role, start, stop, missing, children⟩ := n
  cases label <;> simp [isNamed, kind?]

theorem isOneOf_iff {n : Node} {kinds : List Kind} :
    n.isOneOf kinds ↔ ∃ k ∈ kinds, n.kind? = some k := by
  obtain ⟨label, role, start, stop, missing, children⟩ := n
  cases label <;> simp [isOneOf, kind?]

theorem isOneOf_nil {n : Node} : n.isOneOf [] = false := by
  obtain ⟨label, role, start, stop, missing, children⟩ := n
  cases label <;> rfl

theorem isOneOf_cons {n : Node} {k : Kind} {kinds : List Kind} :
    n.isOneOf (k :: kinds) = (n.isA k || n.isOneOf kinds) := by
  rw [Bool.eq_iff_iff, Bool.or_eq_true, isOneOf_iff, isOneOf_iff, isA_iff]
  simp

theorem isA_of_kind? {n : Node} {k : Kind} (h : n.kind? = some k) (l : Kind) :
    n.isA l = (k == l) := by
  rw [isA_eq_kind?, h]
  exact Option.some_beq_some

theorem isOneOf_of_kind? {n : Node} {k : Kind} (h : n.kind? = some k) (kinds : List Kind) :
    n.isOneOf kinds = kinds.contains k := by
  obtain ⟨label, role, start, stop, missing, children⟩ := n
  cases label with
  | kind l =>
    cases h
    rfl
  | word text => cases h

theorem isWord_of_kind? {n : Node} {k : Kind} (h : n.kind? = some k) (text : String) :
    n.isWord text = false := by
  obtain ⟨label, role, start, stop, missing, children⟩ := n
  cases label with
  | kind l => rfl
  | word text => cases h

/-! ### Order -/

mutual

/-- Whether what is below the node lies in it, each piece behind the one before, and imports take
text. -/
def isOrdered (n : Node) : Bool :=
  match n with
  | ⟨label, _, start, stop, _, children⟩ =>
    (label != .kind .importStatement || decide (start < stop)) && allOrdered start stop children

/-- Whether the trees lie between the offsets, each behind the one before. -/
def allOrdered (start stop : Nat) : List Node → Bool
  | [] => decide (start ≤ stop)
  | n :: ns => decide (start ≤ n.start) && n.isOrdered && allOrdered n.stop stop ns

end

theorem isOrdered_iff {n : Node} :
    n.isOrdered ↔ (n.isA .importStatement → n.start < n.stop) ∧
      allOrdered n.start n.stop n.children := by
  cases n
  rw [isOrdered, Bool.and_eq_true]
  refine and_congr_left fun _ => ?_
  simp only [isA, bne, Bool.or_eq_true, decide_eq_true_eq, Bool.not_eq_true']
  cases _ == Label.kind .importStatement <;> simp

theorem allOrdered_cons_iff {start stop : Nat} {n : Node} {ns : List Node} :
    allOrdered start stop (n :: ns) ↔
      start ≤ n.start ∧ n.isOrdered ∧ allOrdered n.stop stop ns := by
  rw [allOrdered, Bool.and_eq_true, Bool.and_eq_true, decide_eq_true_eq, and_assoc]

theorem start_le_stop_of_isOrdered {n : Node} (h : n.isOrdered) : n.start ≤ n.stop := by
  induction n using induction_below with
  | step n ih =>
    have hbetween : ∀ ns start, (∀ c ∈ ns, c.isOrdered → c.start ≤ c.stop) →
        allOrdered start n.stop ns → start ≤ n.stop := by
      intro ns
      induction ns with
      | nil => intro start _ h; simpa [allOrdered] using h
      | cons c ns ihns =>
        intro start hmem h
        obtain ⟨hstart, hc, hns⟩ := allOrdered_cons_iff.mp h
        have hrest := ihns c.stop (fun d hd => hmem d (List.mem_cons_of_mem _ hd)) hns
        have hwidth := hmem c List.mem_cons_self hc
        omega
    exact hbetween _ _ ih (isOrdered_iff.mp h).2

theorem start_le_stop_of_allOrdered {start stop : Nat} {ns : List Node}
    (h : allOrdered start stop ns) : start ≤ stop := by
  induction ns generalizing start with
  | nil => simpa [allOrdered] using h
  | cons n ns ih =>
    obtain ⟨hstart, hn, hns⟩ := allOrdered_cons_iff.mp h
    have hwidth := start_le_stop_of_isOrdered hn
    have hrest := ih hns
    omega

theorem isOrdered_of_mem {start stop : Nat} {n : Node} {ns : List Node}
    (h : allOrdered start stop ns) (hn : n ∈ ns) : n.isOrdered := by
  induction ns generalizing start with
  | nil => cases hn
  | cons m ns ih =>
    obtain ⟨-, hm, hns⟩ := allOrdered_cons_iff.mp h
    rcases List.mem_cons.mp hn with rfl | hn
    · exact hm
    · exact ih hns hn

theorem bounds_of_mem {start stop : Nat} {n : Node} {ns : List Node}
    (h : allOrdered start stop ns) (hn : n ∈ ns) : start ≤ n.start ∧ n.stop ≤ stop := by
  induction ns generalizing start with
  | nil => cases hn
  | cons m ns ih =>
    obtain ⟨hstart, hm, hns⟩ := allOrdered_cons_iff.mp h
    have hwidth := start_le_stop_of_isOrdered hm
    rcases List.mem_cons.mp hn with rfl | hn
    · exact ⟨hstart, start_le_stop_of_allOrdered hns⟩
    · have := ih hns hn
      omega

theorem allOrdered_append_cons {start stop : Nat} {n : Node} {front back : List Node}
    (h : allOrdered start stop (front ++ n :: back)) :
    allOrdered start n.start front ∧ allOrdered n.stop stop back := by
  induction front generalizing start with
  | nil =>
    obtain ⟨hstart, -, hback⟩ := allOrdered_cons_iff.mp h
    exact ⟨by simpa [allOrdered] using hstart, hback⟩
  | cons m front ih =>
    obtain ⟨hstart, hm, hrest⟩ := allOrdered_cons_iff.mp h
    obtain ⟨hfront, hback⟩ := ih hrest
    exact ⟨allOrdered_cons_iff.mpr ⟨hstart, hm, hfront⟩, hback⟩

end Node

end CompilingProxy
