import Mathlib.Data.List.Pairwise
import CompilingProxy.Proofs.Emit.Declared
import CompilingProxy.Proofs.Emit.Row
import CompilingProxy.Proofs.Outcome

/-!
# Where a name is declared

An enum or a namespace is written out as a call, with a declaration of its name in front unless its
scope has one. A module keeps one list of names for all that stands outside of its namespaces, and
one for the inside of each namespace. Here stands what such a list holds when a node is compiled,
and what that makes of the node.
-/

namespace CompilingProxy

open Text

/-- The computations come to the same, and to nothing but results of the kind. -/
def Concur {ε α : Type} (kind : α → Prop) (x y : Except ε α) : Prop := x = y ∧ Yields kind x

namespace Concur

variable {ε α β : Type} {kind kind' : α → Prop} {x y : Except ε α}

theorem refl (h : Yields kind x) : Concur kind x x := ⟨rfl, h⟩

theorem pure {a : α} (h : kind a) : Concur kind (pure a : Except ε α) (pure a) :=
  refl (Yields.pure h)

theorem imp (hxy : Concur kind x y) (h : ∀ a, kind a → kind' a) : Concur kind' x y :=
  ⟨hxy.1, fun a ha => h a (hxy.2 a ha)⟩

/-- A second step may count on what the first ones come to. -/
theorem andThen {kind' : β → Prop} {f g : α → Except ε β} (hxy : Concur kind x y)
    (hfg : ∀ a, kind a → Concur kind' (f a) (g a)) : Concur kind' (x >>= f) (y >>= g) := by
  obtain ⟨rfl, hx⟩ := hxy
  refine ⟨?_, hx.andThen fun a ha => (hfg a ha).2⟩
  cases x with
  | error e => rfl
  | ok a => exact (hfg a (hx a rfl)).1

end Concur

namespace Emit

variable {t : Setting} {v v' : Visit} {f : Frame} {p : Place} {scope names : List String}
  {n c d statement : Node} {source : List Char} {name : String}

/-! ### Checks along the way -/

/-- A visit that fails where what comes of a node is not as it should be. -/
def Visit.guarded (check : Frame → Place → Node → Emission → Bool) (v : Visit) : Visit :=
  fun f p scope n => do
    let out ← v f p scope n
    if check f p n out then return out else .error (.unreadable n.range)

/-- Compiles a node as `visit` does, with the check at every node. -/
def guardedVisit (check : Frame → Place → Node → Emission → Bool) (t : Setting) :
    (fuel : Nat) → Visit
  | 0 => fun _ _ scope _ => .ok ⟨[], false, scope⟩
  | fuel + 1 => (visitNode t (guardedVisit check t fuel)).guarded check

theorem concur_guarded {kind : Emission → Prop} {check : Frame → Place → Node → Emission → Bool}
    (h : Concur (fun out => kind out ∧ check f p n out) (v f p scope n) (v' f p scope n)) :
    Concur kind (v f p scope n) (v'.guarded check f p scope n) := by
  obtain ⟨heq, hyields⟩ := h
  refine ⟨?_, fun out hout => (hyields out hout).1⟩
  rw [Visit.guarded, ← heq]
  cases hout : v f p scope n with
  | error e => rfl
  | ok out =>
    have hcheck := (hyields out hout).2
    simp [bind, Except.bind, hcheck]
    rfl

/-! ### Declarations -/

/-- The word by which an object is declared in front of its call. -/
def Frame.keyword (f : Frame) (n : Node) : String :=
  if !f.namespaces.isEmpty then "let" else if n.isA .exportStatement then "export var" else "var"

/-- Whether a text that begins like that takes the place of the node, and nothing else comes of
it. -/
def Emission.opensWith (out : Emission) (n : Node) (front : String) : Bool :=
  match out.edits with
  | [e] => e.range == n.range && front.toList.isPrefixOf e.replacement.toList
  | _ => false

/-- Whether the innermost of the nodes is a scope: a module, or a block in it. -/
def opensScope : (around : List Node) → Bool
  | [] => false
  | block :: outer => outer.isEmpty || block.isA .statementBlock

/-- The nodes that stand side by side inside the innermost node. -/
def siblings (around : List Node) : List Node := (around.head?.map (·.children)).getD []

/-- The objects that are filled in front of the offset, in the same namespace or module. -/
def callsBefore (source : List Char) (offset : Nat) : (around : List Node) → List String
  | [] => []
  | m :: around =>
    if m.isSpace then []
    else (m.children.filter (·.stop ≤ offset)).flatMap (Node.calls source) ++
      callsBefore source offset around

/-- Whether the name is used in no other scope of the namespace or module that could be mistaken for
the node's own: for no object that is filled before, and for no value but those of the node's scope.
In the outermost scope, no pattern may have it. -/
def Place.standsApart (source : List Char) (p : Place) (n : Node) (name : String) : Bool :=
  !(callsBefore source n.start p.around).contains name &&
  !(n.container?.any fun d => (d.innerCalls source).contains name) &&
  match p.around with
  | [] => true
  | [root] => !root.unpacks source name
  | block :: outer =>
    !block.declares source name &&
      (outer.any Node.isSpace || !(outer.getLast?.any (·.declares source name)))

/-- Whether an enum or namespace that stands directly in a scope is declared there once: the first
of a name that stands apart is written out with a declaration in front, unless the scope has a value
of that name, and those behind it are written out without one. -/
def Place.declaresOnce (source : List Char) (f : Frame) (p : Place) (n : Node) (out : Emission) :
    Bool :=
  match n.called? source with
  | none => true
  | some name =>
    let call := opening name
    let declaration := f.keyword n ++ " " ++ name ++ ";\n" ++
      String.ofList (Layout.indentAt source n.start) ++ call
    !opensScope p.around ||
      if (siblings p.around).any fun c => c.start < n.start && c.called? source == some name then
        out.opensWith n call
      else if p.standsApart source n name then
        out.opensWith n
          (if p.around.head?.any (·.declares source name) then call else declaration)
      else out.opensWith n call || out.opensWith n declaration

/-! ### Lists of names -/

/-- The list of names grows by nothing but some of those. -/
structure Grown (scope names scope' : List String) : Prop where
  kept : scope ⊆ scope'
  added : scope' ⊆ scope ++ names

namespace Grown

variable {scope' scope'' names' : List String}

theorem refl : Grown scope names scope := ⟨fun _ => id, List.subset_append_left _ _⟩

theorem mono (h : Grown scope names scope') (hsub : names ⊆ names') :
    Grown scope names' scope' := by
  refine ⟨h.kept, fun x hx => ?_⟩
  rcases List.mem_append.mp (h.added hx) with hx | hx
  · exact List.mem_append_left _ hx
  · exact List.mem_append_right _ (hsub hx)

theorem trans (h : Grown scope names scope') (h' : Grown scope' names scope'') :
    Grown scope names scope'' := by
  refine ⟨fun x hx => h'.kept (h.kept hx), fun x hx => ?_⟩
  rcases List.mem_append.mp (h'.added hx) with hx | hx
  · exact h.added hx
  · exact List.mem_append_right _ hx

end Grown

/-! ### What is known where a node stands -/

/-- The list of names fits the node's place: it holds the names that the module starts out with,
outside of namespaces, and those of the objects that are filled in the same scope before; every name
in it is one of the former or of an object that is filled before. -/
structure Standing (source : List Char) (root : Node) (seed : List String) (around : List Node)
    (scope : List String) (n : Node) : Prop where
  ordered : n.isOrdered
  bodied : n.everywhere Node.hasOwnBody
  last : around.getLast? = some root
  known : ∀ x ∈ scope, x ∈ callsBefore source n.start around ∨
    x ∈ seed ∧ ∀ m ∈ around, m.isSpace = false
  seeded : (∀ m ∈ around, m.isSpace = false) → seed ⊆ scope
  filled : opensScope around → ∀ c ∈ siblings around, c.start < n.start →
    ∀ x, c.called? source = some x → x ∈ scope

/-- The list of names fits the places of nodes that are to be compiled one after another: the names
of objects that are filled before any of them are in it, but for those of nodes that are to come. -/
structure Queue (source : List Char) (root : Node) (seed : List String) (around : List Node)
    (scope : List String) (ns : List Node) : Prop where
  inside : ns ⊆ siblings around
  ordered : ∀ n ∈ ns, n.isOrdered
  bodied : ∀ n ∈ ns, n.everywhere Node.hasOwnBody
  sorted : ns.Pairwise fun a b => a.stop ≤ b.start
  last : around.getLast? = some root
  head : around.head?.all fun m => !m.isSpace
  known : ∀ x ∈ scope, (∀ n ∈ ns, x ∈ callsBefore source n.start around) ∨
    x ∈ seed ∧ ∀ m ∈ around, m.isSpace = false
  seeded : (∀ m ∈ around, m.isSpace = false) → seed ⊆ scope
  filled : opensScope around → ∀ n ∈ ns, ∀ c ∈ siblings around, c.start < n.start →
    ∀ x, c.called? source = some x → x ∈ scope ∨ c ∈ ns

variable {root : Node} {seed scope' : List String} {around ns : List Node} {x : String}

theorem callsBefore_mono {a b : Nat} (h : a ≤ b) :
    callsBefore source a around ⊆ callsBefore source b around := by
  induction around with
  | nil => exact fun _ => id
  | cons m around ih =>
    intro x hx
    rw [callsBefore] at hx ⊢
    split at hx
    case isTrue => cases hx
    case isFalse hspace =>
      rw [if_neg hspace]
      rcases List.mem_append.mp hx with hx | hx
      · obtain ⟨c, hc, hx⟩ := List.mem_flatMap.mp hx
        obtain ⟨hc, hstop⟩ := List.mem_filter.mp hc
        have hstop : c.stop ≤ a := by simpa using hstop
        refine List.mem_append_left _ (List.mem_flatMap.mpr ⟨c, List.mem_filter.mpr ⟨hc, ?_⟩, hx⟩)
        rw [decide_eq_true_eq]
        omega
      · exact List.mem_append_right _ (ih hx)

theorem callsBefore_cons_subset {offset : Nat} (hspace : n.isSpace = false) :
    callsBefore source offset around ⊆ callsBefore source offset (n :: around) := by
  rw [callsBefore, if_neg (by simp [hspace])]
  exact List.subset_append_right _ _

theorem mem_callsBefore {offset : Nat} (hhead : around.head?.all fun m => !m.isSpace)
    (hc : c ∈ siblings around) (hstop : c.stop ≤ offset) (hx : x ∈ c.calls source) :
    x ∈ callsBefore source offset around := by
  cases around with
  | nil => cases hc
  | cons m around =>
    have hspace : m.isSpace = false := by simpa using hhead
    rw [callsBefore, if_neg (by simp [hspace])]
    refine List.mem_append_left _ (List.mem_flatMap.mpr ⟨c, List.mem_filter.mpr ⟨hc, ?_⟩, hx⟩)
    rwa [decide_eq_true_eq]

namespace Queue

/-- Of two nodes, the one that begins first ends in front of the other. -/
theorem stop_le_start (h : Queue source root seed around scope ns) (hc : c ∈ ns) (hn : n ∈ ns)
    (hlt : c.start < n.start) : c.stop ≤ n.start := by
  have hsymm : Std.Symm fun a b : Node => a.stop ≤ b.start ∨ b.stop ≤ a.start :=
    ⟨fun _ _ => Or.symm⟩
  have hboth : ns.Pairwise fun a b => a.stop ≤ b.start ∨ b.stop ≤ a.start := h.sorted.imp Or.inl
  have hne : c ≠ n := by
    rintro rfl
    exact Nat.lt_irrefl _ hlt
  rcases hboth.forall hc hn hne with hle | hle
  · exact hle
  · have hwidth := Node.start_le_stop_of_isOrdered (h.ordered n hn)
    omega

theorem standing (h : Queue source root seed around scope (n :: ns)) :
    Standing source root seed around scope n where
  ordered := h.ordered n List.mem_cons_self
  bodied := h.bodied n List.mem_cons_self
  last := h.last
  known x hx := (h.known x hx).imp_left fun hbefore => hbefore n List.mem_cons_self
  seeded := h.seeded
  filled hscope c hc hlt x hx := by
    -- No node that is yet to come stands in front of the first one.
    refine (h.filled hscope n List.mem_cons_self c hc hlt x hx).resolve_right fun hmem => ?_
    rcases List.mem_cons.mp hmem with rfl | hmem
    · exact Nat.lt_irrefl _ hlt
    · have hwidth := Node.start_le_stop_of_isOrdered (h.ordered n List.mem_cons_self)
      have hafter := (List.pairwise_cons.mp h.sorted).1 c hmem
      omega

/-- The list fits the rest of the nodes when the first one is compiled. -/
theorem next (h : Queue source root seed around scope (n :: ns))
    (hgrown : Grown scope (n.calls source) scope')
    (hfilled : opensScope around → ∀ x, n.called? source = some x → x ∈ scope') :
    Queue source root seed around scope' ns where
  inside _ hm := h.inside (List.mem_cons_of_mem _ hm)
  ordered m hm := h.ordered m (List.mem_cons_of_mem _ hm)
  bodied m hm := h.bodied m (List.mem_cons_of_mem _ hm)
  sorted := (List.pairwise_cons.mp h.sorted).2
  last := h.last
  head := h.head
  known x hx := by
    rcases List.mem_append.mp (hgrown.added hx) with hx | hx
    · exact (h.known x hx).imp_left fun hbefore m hm => hbefore m (List.mem_cons_of_mem _ hm)
    · refine .inl fun m hm => mem_callsBefore h.head (h.inside List.mem_cons_self) ?_ hx
      exact (List.pairwise_cons.mp h.sorted).1 m hm
  seeded hplain _ hx := hgrown.kept (h.seeded hplain hx)
  filled hscope m hm c hc hlt x hx := by
    rcases h.filled hscope m (List.mem_cons_of_mem _ hm) c hc hlt x hx with hmem | hmem
    · exact .inl (hgrown.kept hmem)
    · rcases List.mem_cons.mp hmem with rfl | hmem
      · exact .inl (hfilled hscope x hx)
      · exact .inr hmem

/-- Nodes may be left out, but not one of an object that is filled in front of another node. -/
theorem filter (h : Queue source root seed around scope ns) (q : Node → Bool)
    (hq : opensScope around → ∀ c ∈ ns, ∀ n ∈ ns, q n → c.start < n.start →
      ∀ x, c.called? source = some x → q c) :
    Queue source root seed around scope (ns.filter q) where
  inside _ hm := h.inside (List.mem_filter.mp hm).1
  ordered m hm := h.ordered m (List.mem_filter.mp hm).1
  bodied m hm := h.bodied m (List.mem_filter.mp hm).1
  sorted := h.sorted.filter _
  last := h.last
  head := h.head
  known x hx := (h.known x hx).imp_left fun hbefore m hm => hbefore m (List.mem_filter.mp hm).1
  seeded := h.seeded
  filled hscope n hn c hc hlt x hx := by
    obtain ⟨hn, hqn⟩ := List.mem_filter.mp hn
    refine (h.filled hscope n hn c hc hlt x hx).imp_right fun hmem => ?_
    exact List.mem_filter.mpr ⟨hmem, hq hscope c hmem n hn hqn hlt x hx⟩

theorem named (h : Queue source root seed around scope ns) :
    Queue source root seed around scope (ns.filter Node.isNamed) :=
  h.filter _ fun _ _ _ _ _ _ _ _ => Node.isNamed_of_called?

/-- What stands between the braces of a block; the rest of it fills no object, or stands behind. -/
theorem inBraces (h : Queue source root seed around scope n.children) (hblock : n.isBlock) :
    Queue source root seed around scope (n.children.filter fun c =>
      decide (n.start + 1 ≤ c.start) && decide (c.stop ≤ max (n.stop - 1) (n.start + 1))) := by
  refine h.filter _ fun _ c hc m hm hinside hlt x hx => ?_
  obtain ⟨-, ⟨brace, rest, hchildren, hbrace, -, hstop⟩, -⟩ := Node.isBlock_iff.mp hblock
  have hbefore := h.stop_le_start hc hm hlt
  have hwidth := Node.start_le_stop_of_isOrdered (h.ordered m hm)
  have hstart : brace.stop ≤ c.start := by
    have hsorted := h.sorted
    rw [hchildren] at hc hsorted
    rcases List.mem_cons.mp hc with rfl | hc
    · have hnamed := Node.isNamed_of_called? hx
      rw [Node.isWord, beq_iff_eq] at hbrace
      simp [Node.isNamed, hbrace] at hnamed
    · exact (List.pairwise_cons.mp hsorted).1 c hc
  rw [Bool.and_eq_true, decide_eq_true_eq, decide_eq_true_eq] at hinside ⊢
  omega

end Queue

theorem map_snd_row (around : List Node) (before : Option Node) (ns : List Node) :
    (Place.row around before ns).map (·.2) = ns := by
  induction ns generalizing before with
  | nil => rfl
  | cons n ns ih => rw [Place.row, List.map_cons, ih]

theorem map_snd_filter_children (q : Node → Bool) :
    ((p.children n).filter fun x => q x.2).map (·.2) = n.children.filter q := by
  conv_rhs => rw [← map_snd_row (n :: p.around) none n.children, List.filter_map]
  rfl

theorem pairwise_of_allOrdered {start stop : Nat} (h : Node.allOrdered start stop ns) :
    ns.Pairwise fun a b => a.stop ≤ b.start := by
  induction ns generalizing start with
  | nil => exact .nil
  | cons n ns ih =>
    obtain ⟨-, -, hrest⟩ := Node.allOrdered_cons_iff.mp h
    exact List.pairwise_cons.mpr ⟨fun m hm => (Node.bounds_of_mem hrest hm).1, ih hrest⟩

namespace Standing

theorem ne_nil (h : Standing source root seed around scope n) : around ≠ [] := by
  rintro rfl
  cases h.last

theorem getLast?_cons (h : Standing source root seed around scope n) (m : Node) :
    (m :: around).getLast? = some root := by
  rw [List.getLast?_cons_of_ne_nil h.ne_nil, h.last]

theorem bodied_child (h : Standing source root seed around scope n) (hc : c ∈ n.children) :
    c.everywhere Node.hasOwnBody := (Node.everywhere_iff.mp h.bodied).2 c hc

/-- The list of names that fits a node fits its parts at first. -/
theorem queue (h : Standing source root seed around scope n) (hspace : n.isSpace = false) :
    Queue source root seed (n :: around) scope n.children where
  inside _ hm := hm
  ordered _ := Node.isOrdered_of_mem (Node.isOrdered_iff.mp h.ordered).2
  bodied _ := h.bodied_child
  sorted := pairwise_of_allOrdered (Node.isOrdered_iff.mp h.ordered).2
  last := h.getLast?_cons n
  head := by simp [hspace]
  known x hx := by
    refine (h.known x hx).imp (fun hbefore c hc => ?_) fun ⟨hseed, hplain⟩ => ⟨hseed, ?_⟩
    · have hstart := (Node.bounds_of_mem (Node.isOrdered_iff.mp h.ordered).2 hc).1
      exact callsBefore_cons_subset hspace (callsBefore_mono hstart hbefore)
    · exact List.forall_mem_cons.mpr ⟨hspace, hplain⟩
  seeded hplain := h.seeded fun m hm => hplain m (List.mem_cons_of_mem _ hm)
  filled _ _ _ c hc _ _ _ := .inr hc

/-- A part of a node that is no block is compiled with the names that the node is compiled with. -/
theorem part (h : Standing source root seed around scope n) (hspace : n.isSpace = false)
    (hblock : n.isA .statementBlock = false) (hc : c ∈ n.children) :
    Standing source root seed (n :: around) scope c where
  ordered := (h.queue hspace).ordered c hc
  bodied := h.bodied_child hc
  last := h.getLast?_cons n
  known x hx := ((h.queue hspace).known x hx).imp_left fun hbefore => hbefore c hc
  seeded := (h.queue hspace).seeded
  filled hscope := by
    rw [opensScope, hblock, Bool.or_false, List.isEmpty_iff] at hscope
    exact absurd hscope h.ne_nil

/-- Inside a namespace, no names are known at first. -/
theorem body {outer : Node} (h : Standing source root seed around scope statement)
    (hordered : d.isOrdered) (hbodied : d.everywhere Node.hasOwnBody) (hspace : d.isSpace = false)
    (houter : outer.isSpace) :
    Queue source root seed (d :: outer :: around) [] d.children where
  inside _ hm := hm
  ordered _ := Node.isOrdered_of_mem (Node.isOrdered_iff.mp hordered).2
  bodied := (Node.everywhere_iff.mp hbodied).2
  sorted := pairwise_of_allOrdered (Node.isOrdered_iff.mp hordered).2
  last := by rw [List.getLast?_cons_cons, h.getLast?_cons]
  head := by simp [hspace]
  known x hx := by cases hx
  seeded hplain := by
    have := hplain outer (by simp)
    rw [houter] at this
    cases this
  filled _ _ _ c hc _ _ _ := .inr hc

end Standing

/-! ### What is written out -/

theorem innerCalls_subset (h : n.container? = some d) : d.innerCalls source ⊆ n.calls source := by
  rw [Node.innerCalls, Node.callsOf_eq]
  split
  case isFalse => exact List.nil_subset _
  case isTrue henum =>
    have hkind := Node.isA_iff.mp henum
    have hown : d.children.flatMap (Node.calls source) ⊆ d.calls source :=
      Node.calls_subset (Node.isOneOf_of_kind? hkind _) (Node.isA_of_kind? hkind _)
    rw [Node.container?] at h
    split at h
    case h_1 | h_2 | h_3 =>
      obtain rfl := Option.some.inj h
      exact hown
    case h_4 =>
      have hmodule := (Option.filter_eq_some_iff.mp h).2
      rw [Node.isA_of_kind? hkind] at hmodule
      cases hmodule
    case h_5 hexport =>
      split at h
      · cases h
      · have hd := List.mem_of_find?_eq_some (Option.filter_eq_some_iff.mp h).1
        exact fun x hx => Node.calls_subset_of_mem hd (Node.isOneOf_of_kind? hexport _)
          (Node.isA_of_kind? hexport _) (hown hx)
    case h_6 => cases h

theorem wrap_snd {exported : Bool} {body indent : String} :
    (wrap f scope name exported body indent).2 =
      if scope.contains name then scope else name :: scope := by
  rw [wrap.eq_def]

theorem grown_wrap {exported : Bool} {body indent : String} (hname : name ∈ names) :
    Grown scope names (wrap f scope name exported body indent).2 := by
  rw [wrap_snd]
  split
  · exact .refl
  · refine ⟨List.subset_cons_self _ _, List.cons_subset.mpr ⟨?_, List.subset_append_left _ _⟩⟩
    exact List.mem_append_right _ hname

theorem mem_wrap {exported : Bool} {body indent : String} :
    name ∈ (wrap f scope name exported body indent).2 := by
  rw [wrap_snd]
  split
  case isTrue h => exact List.contains_iff_mem.mp h
  case isFalse => exact List.mem_cons_self

/-- A call around a body is written with a declaration in front if the list lacks its name. -/
theorem exists_wrap_eq (f : Frame) (scope : List String) (name : String) (n : Node)
    (body indent : String) :
    ∃ binding, (wrap f scope name (n.isA .exportStatement) body indent).1 =
      (if scope.contains name then "" else f.keyword n ++ " " ++ name ++ ";\n" ++ indent) ++
        opening name ++ (body ++ "\x7d)(" ++ binding) := by
  have hsplit (head binding : String) :
      head ++ callText name body binding =
        head ++ opening name ++ (body ++ "\x7d)(" ++ (binding ++ ");")) := by
    simp only [callText, String.append_assoc]
  rw [wrap.eq_def, Frame.keyword]
  cases f.namespaces <;> cases n.isA .exportStatement <;> exact ⟨_, hsplit _ _⟩

theorem opensWith_wrap (f : Frame) (scope : List String) (name : String) (n : Node)
    (body indent : String) {scope' : List String} {removed : Bool} :
    Emission.opensWith ⟨[.replace n.start n.stop
        (wrap f scope name (n.isA .exportStatement) body indent).1], removed, scope'⟩ n
      ((if scope.contains name then "" else f.keyword n ++ " " ++ name ++ ";\n" ++ indent) ++
        opening name) := by
  obtain ⟨binding, hcall⟩ := exists_wrap_eq f scope name n body indent
  rw [Emission.opensWith, hcall]
  dsimp only [TextEdit.replace]
  rw [Bool.and_eq_true]
  exact ⟨beq_self_eq_true _, List.isPrefixOf_iff_prefix.mpr ⟨_, String.toList_append.symm⟩⟩

/-- Where a name stands apart, the list has it just if the scope declares a value by it. -/
theorem mem_iff_declares {p : Place} (hn : Standing source root seed p.around scope n)
    (hroot : root.isSpace = false)
    (hseed : ∀ x, x ∈ seed ↔ ∃ c ∈ root.children, ⟨.name, x⟩ ∈ c.valueNames source)
    (hcontainer : n.container? = some d) (hgrown : Grown scope (d.innerCalls source) scope')
    (happart : p.standsApart source n name) :
    name ∈ scope' ↔ p.around.head?.any (·.declares source name) := by
  simp only [Place.standsApart, hcontainer, Option.any_some, Bool.and_eq_true, Bool.not_eq_true',
    List.contains_eq_mem, decide_eq_false_iff_not] at happart
  obtain ⟨⟨hbefore, hinner⟩, happart⟩ := happart
  have hlist : name ∈ scope' ↔ name ∈ scope := by
    refine ⟨fun h => ?_, fun h => hgrown.kept h⟩
    exact (List.mem_append.mp (hgrown.added h)).resolve_right hinner
  have hknown : name ∈ scope ↔ name ∈ seed ∧ ∀ m ∈ p.around, m.isSpace = false := by
    refine ⟨fun h => (hn.known name h).resolve_left hbefore, fun ⟨h, hplain⟩ => ?_⟩
    exact hn.seeded hplain h
  rw [hlist, hknown, hseed]
  have hlast := hn.last
  obtain ⟨around, before, behind⟩ := p
  match around with
  | [] => cases hlast
  | [block] =>
    obtain rfl : block = root := Option.some.inj hlast
    refine ⟨fun ⟨⟨c, hc, hx⟩, _⟩ => Node.declares_of_mem hc hx, fun h => ⟨?_, ?_⟩⟩
    · exact Node.exists_of_declares h (by simpa using happart)
    · simpa using hroot
  | block :: m :: outer =>
    rw [List.getLast?_cons_cons] at hlast
    rw [Bool.and_eq_true, Bool.or_eq_true, Bool.not_eq_true', Bool.not_eq_true', hlast] at happart
    have hblock : ((block :: m :: outer).head?.any (·.declares source name)) = false := happart.1
    rw [hblock]
    refine iff_of_false ?_ Bool.false_ne_true
    rintro ⟨⟨c, hc, hx⟩, hplain⟩
    rcases happart.2 with hspace | hvalue
    · obtain ⟨k, hk, hspace⟩ := List.any_eq_true.mp hspace
      rw [hplain k (List.mem_cons_of_mem _ hk)] at hspace
      cases hspace
    · have hdeclares : root.declares source name := Node.declares_of_mem hc hx
      rw [Option.any_some, hdeclares] at hvalue
      cases hvalue

/-- What a call is written with is what the scope asks for. -/
theorem declaresOnce_of_wrap {p : Place} {body : String} {removed : Bool} {names : List String}
    (hn : Standing source root seed p.around scope n) (hroot : root.isSpace = false)
    (hseed : ∀ x, x ∈ seed ↔ ∃ c ∈ root.children, ⟨.name, x⟩ ∈ c.valueNames source)
    (hcontainer : n.container? = some d) (hname : n.called? source = some name)
    (hgrown : Grown scope (d.innerCalls source) scope') :
    p.declaresOnce source f n ⟨[.replace n.start n.stop
      (wrap f scope' name (n.isA .exportStatement) body
        (String.ofList (Layout.indentAt source n.start))).1], removed, names⟩ := by
  have hopens : Emission.opensWith ⟨_, removed, names⟩ n _ :=
    opensWith_wrap f scope' name n body (String.ofList (Layout.indentAt source n.start))
  rw [Place.declaresOnce, hname]
  dsimp only
  by_cases hscope : opensScope p.around
  swap
  · simp [hscope]
  rw [hscope, Bool.not_true, Bool.false_or]
  split
  case isTrue hfirst =>
    obtain ⟨c, hc, htest⟩ := List.any_eq_true.mp hfirst
    rw [Bool.and_eq_true, decide_eq_true_eq, beq_iff_eq] at htest
    have hmem : name ∈ scope' := hgrown.kept (hn.filled hscope c hc htest.1 name htest.2)
    rwa [if_pos (List.contains_iff_mem.mpr hmem), String.empty_append] at hopens
  case isFalse =>
    split
    case isTrue happart =>
      have hiff := mem_iff_declares hn hroot hseed hcontainer hgrown happart
      split
      case isTrue hdeclares =>
        rwa [if_pos (List.contains_iff_mem.mpr (hiff.mpr hdeclares)), String.empty_append] at hopens
      case isFalse hdeclares =>
        rwa [if_neg fun h => hdeclares (hiff.mp (List.contains_iff_mem.mp h))] at hopens
    case isFalse =>
      rw [Bool.or_eq_true]
      split at hopens
      · exact .inl (by rwa [String.empty_append] at hopens)
      · exact .inr hopens

end Emit

end CompilingProxy
