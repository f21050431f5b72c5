import Mathlib.Data.List.Pairwise
import CompilingProxy.Proofs.Emit.Row
import CompilingProxy.Proofs.Text.Edit

/-!
# Visits that stay between the edges

A visit is complete when every node comes to edits that stay between the edges of the node. Then
nodes that stand in a row come to edits that are apart from each other, and the edits of a span can
be performed.
-/

namespace CompilingProxy.Emit

open Text Layout

variable {source : List Char} {bounds : Range} {t : Setting} {v : Visit} {f : Frame}
  {p : Place} {scope : List String} {n c d : Node} {es ds : List TextEdit} {start stop : Nat}

/-! ### Performing edits -/

theorem within_replace {a b : Nat} (ha : isBoundary source a) (hb : isBoundary source b)
    (hle : a ≤ b) (hstart : start ≤ a) (hstop : b ≤ stop) (text : String) :
    Within source start stop [.replace a b text] := by
  refine ⟨fun e he => ?_, fun e he => ?_, List.pairwise_singleton _ _⟩
  · rw [List.mem_singleton.mp he]
    exact ⟨hle, ha, hb⟩
  · rw [List.mem_singleton.mp he]
    exact ⟨hstart, hstop⟩

/-- Edits in front of an offset and edits behind it. -/
theorem within_append {x : Nat} (hes : Within source start x es) (hds : Within source x stop ds)
    (hstart : start ≤ x) (hstop : x ≤ stop) : Within source start stop (es ++ ds) := by
  refine (hes.widen (Nat.le_refl _) hstop).append (hds.widen hstart (Nat.le_refl _))
    fun e he d hd => .inl ?_
  exact Nat.le_trans (hes.inside e he).2 (hds.inside d hd).1

/-- In which order edits are given does not matter. -/
theorem within_of_perm (h : Within source start stop es) (hperm : es.Perm ds) :
    Within source start stop ds :=
  ⟨fun e he => h.fits e (hperm.mem_iff.mpr he), fun e he => h.inside e (hperm.mem_iff.mpr he),
    (hperm.pairwise_iff Range.Apart.symm).mp h.apart⟩

theorem isBoundary_slice {x : Nat} (hstart : isBoundary source start)
    (hstop : isBoundary source stop) (hx : isBoundary source x) (hle : start ≤ x) (hlt : x ≤ stop) :
    isBoundary (slice source start stop) (x - start) := by
  obtain ⟨-, -, -, -, -, hwidth⟩ := exists_slice hstart hx hle
  rw [slice_split hstart hx hstop hle hlt]
  exact isBoundary_iff.mpr ⟨_, _, rfl, by omega⟩

/-- Edits of a span are performed in it. -/
theorem edited_gives {span : Range} (hspan : span.IsCut source) (hle : span.start ≤ span.stop)
    (h : Within source span.start span.stop es) : Gives (fun _ => True) (edited source span es) := by
  obtain ⟨hslice, -⟩ := exists_slice hspan.start hspan.stop hle
  have hnone : es.find? (·.range.start < span.start) = none := by
    refine List.find?_eq_none.mpr fun e he => ?_
    have := (h.inside e he).1
    simpa using this
  obtain ⟨out, hout⟩ : ∃ out, applyEdits (slice source span.start span.stop)
      (es.map fun e => TextEdit.replace (e.range.start - span.start) (e.range.stop - span.start)
        e.replacement) = .ok out := by
    refine applyEdits_isOk ?_ ?_
    · intro d hd
      obtain ⟨e, he, rfl⟩ := List.mem_map.mp hd
      obtain ⟨hwidth, hstart, hstop⟩ := h.fits e he
      obtain ⟨hfirst, hlast⟩ := h.inside e he
      exact ⟨Nat.sub_le_sub_right hwidth _,
        isBoundary_slice hspan.start hspan.stop hstart hfirst (by omega),
        isBoundary_slice hspan.start hspan.stop hstop (by omega) hlast⟩
    · refine List.pairwise_map.mpr (h.apart.imp fun hapart => ?_)
      rcases hapart with hapart | hapart
      · exact .inl (Nat.sub_le_sub_right hapart _)
      · exact .inr (Nat.sub_le_sub_right hapart _)
  refine ⟨out.1, ?_, trivial⟩
  rw [edited, hnone, hslice]
  dsimp only
  rw [hout]
  rfl

/-! ### Nodes -/

/-- What comes of a node stays between its edges. Of a mark between others nothing comes, and no
edit of a block reaches over the end of a part of it that ends plainly. -/
structure Stays (source : List Char) (bounds : Range) (p : Place) (n : Node)
    (es : List TextEdit) : Prop where
  within : Within source (p.startEdge source bounds n) (p.stopEdge source bounds n) es
  marks : n.isSeparator → es = []
  cuts : n.isBlock → ∀ s ∈ n.children, s.endsPlainly →
    ∀ e ∈ es, e.range.stop ≤ s.stop ∨ s.stop ≤ e.range.start

namespace Stays

theorem nil : Stays source bounds p n [] :=
  ⟨.nil, fun _ => rfl, fun _ _ _ _ e he => by cases he⟩

theorem of_kind? {k : Kind} (h : n.kind? = some k) (hk : k ≠ .statementBlock)
    (hwithin : Within source (p.startEdge source bounds n) (p.stopEdge source bounds n) es) :
    Stays source bounds p n es := by
  refine ⟨hwithin, fun hmark => ?_, fun hblock => ?_⟩
  · rw [Node.isSeparator_of_kind? h] at hmark
    cases hmark
  · have hkind := Node.isA_iff.mp (Node.isBlock_iff.mp hblock).1
    rw [h] at hkind
    exact absurd (Option.some.inj hkind) hk

end Stays

/-- The visit compiles every node that stands in the bounds. -/
def IsComplete (source : List Char) (v : Visit) : Prop :=
  ∀ (f : Frame) (p : Place) (scope : List String) (n : Node), f.bounds.IsCut source →
    n.IsSound source → p.IsWithin source f.bounds n →
    Gives (fun out => Stays source f.bounds p n out.edits) (v f p scope n)

/-- The compiled text of one node. -/
theorem render_gives (hv : IsComplete t.source v) (hn : n.IsSound t.source)
    (hp : p.IsWithin t.source n.range n) :
    Gives (fun _ => True) (render t v f p scope n) := by
  have hrange : n.range.IsCut t.source := ⟨hn.isBoundary_start, hn.isBoundary_stop⟩
  refine (hv { f with bounds := n.range } p scope n hrange hn hp).andThen fun out hout => ?_
  have hwithin : Within t.source n.range.start n.range.stop out.edits :=
    hout.within.widen (hp.bounds_le hrange hn) (hp.le_bounds hrange hn)
  exact (edited_gives hrange hn.start_le_stop hwithin).andThen fun _ _ => .pure trivial

/-! ### Rows -/

/-- Of two nodes in a row that are clear of each other, one stands in front of the other. -/
theorem eq_or_isClear {ps : List (Place × Node)} (hclear : ps.Pairwise (IsClear source bounds))
    {x y : Place × Node} (hx : x ∈ ps) (hy : y ∈ ps) :
    x = y ∨ IsClear source bounds x y ∨ IsClear source bounds y x := by
  have hsymm : Std.Symm fun x y => IsClear source bounds x y ∨ IsClear source bounds y x :=
    ⟨fun _ _ => Or.symm⟩
  have hboth : ps.Pairwise fun x y => IsClear source bounds x y ∨ IsClear source bounds y x :=
    hclear.imp Or.inl
  by_cases heq : x = y
  · exact .inl heq
  · exact .inr (hboth.forall hx hy heq)

/-- The edits are those of the nodes, one node's behind the other's, each node's of the kind. -/
inductive Collects (kind : Place → Node → List TextEdit → Prop) :
    List (Place × Node) → List TextEdit → Prop
  | nil : Collects kind [] []
  | cons {p : Place} {n : Node} {es : List TextEdit} {ps : List (Place × Node)}
      {ds : List TextEdit} (head : kind p n es) (tail : Collects kind ps ds) :
      Collects kind ((p, n) :: ps) (es ++ ds)

namespace Collects

variable {kind : Place → Node → List TextEdit → Prop} {ps : List (Place × Node)}

theorem eq_nil (h : Collects kind [] es) : es = [] := by
  cases h
  rfl

theorem exists_of_mem (h : Collects kind ps es) {e : TextEdit} (he : e ∈ es) :
    ∃ q m own, (q, m) ∈ ps ∧ kind q m own ∧ e ∈ own := by
  induction h with
  | nil => cases he
  | cons head tail ih =>
    rcases List.mem_append.mp he with he | he
    · exact ⟨_, _, _, List.mem_cons_self, head, he⟩
    · obtain ⟨q, m, own, hmem, hkind, he⟩ := ih he
      exact ⟨q, m, own, List.mem_cons_of_mem _ hmem, hkind, he⟩

/-- The edits of nodes that are clear of each other are apart. -/
theorem within (h : Collects (Stays source bounds) ps es)
    (hclear : ps.Pairwise (IsClear source bounds))
    (hedges : ∀ x ∈ ps, start ≤ x.1.startEdge source bounds x.2 ∧
      x.1.stopEdge source bounds x.2 ≤ stop) : Within source start stop es := by
  induction h with
  | nil => exact .nil
  | cons head tail ih =>
    obtain ⟨hbefore, hclear⟩ := List.pairwise_cons.mp hclear
    obtain ⟨hstart, hstop⟩ := hedges _ List.mem_cons_self
    have hothers := ih hclear fun x hx => hedges x (List.mem_cons_of_mem _ hx)
    refine (head.within.widen hstart hstop).append hothers fun e he d hd => ?_
    obtain ⟨q, m, own, hmem, hstays, hd⟩ := tail.exists_of_mem hd
    rcases hbefore _ hmem with hmark | hle
    · rw [hstays.marks hmark] at hd
      cases hd
    · have hend := (head.within.inside e he).2
      have hbegin := (hstays.within.inside d hd).1
      exact .inl (by dsimp only at hle; omega)

/-- No edit of a row reaches over an offset between the edges of a node in it, if none of the edits
of that node does. -/
theorem cuts (h : Collects (Stays source bounds) ps es)
    (hclear : ps.Pairwise (IsClear source bounds)) (hmem : (p, n) ∈ ps)
    (hmark : n.isSeparator = false) {x : Nat} (hstart : p.startEdge source bounds n ≤ x)
    (hstop : x ≤ p.stopEdge source bounds n)
    (hown : ∀ own, Stays source bounds p n own →
      ∀ e ∈ own, e.range.stop ≤ x ∨ x ≤ e.range.start) :
    ∀ e ∈ es, e.range.stop ≤ x ∨ x ≤ e.range.start := by
  intro e he
  obtain ⟨q, m, own, hother, hstays, he⟩ := h.exists_of_mem he
  obtain ⟨hbegin, hend⟩ := hstays.within.inside e he
  rcases eq_or_isClear hclear hother hmem with heq | hle | hle
  · cases heq
    exact hown own hstays e he
  · rcases hle with hseparator | hle
    · rw [hmark] at hseparator
      cases hseparator
    · exact .inl (by dsimp only at hle; omega)
  · rcases hle with hseparator | hle
    · rw [hstays.marks hseparator] at he
      cases he
    · exact .inr (by dsimp only at hle; omega)

end Collects

/-- Nodes in a row are compiled one after another. -/
theorem visitAll_gives (kind : Place → Node → List TextEdit → Prop) {ps : List (Place × Node)}
    (hvisit : ∀ x ∈ ps, ∀ scope, Gives (fun out => kind x.1 x.2 out.edits) (v f x.1 scope x.2))
    (scope : List String) :
    Gives (fun out => Collects kind ps out.1) (visitAll v f scope ps) := by
  induction ps generalizing scope with
  | nil => exact .pure .nil
  | cons x ps ih =>
    refine (hvisit x List.mem_cons_self scope).andThen fun out hout => ?_
    refine (ih (fun y hy => hvisit y (List.mem_cons_of_mem _ hy)) out.scope).andThen
      fun rest hrest => ?_
    exact .pure (.cons hout hrest)

end CompilingProxy.Emit
