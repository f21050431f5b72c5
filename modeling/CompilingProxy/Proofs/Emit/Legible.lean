import CompilingProxy.Proofs.Emit.Visit

/-!
# The text that is looked at

Compiling a node looks at pieces of the text around it. A checked visit fails at a piece that is no
text because its ends are out of order, split a character or lie past the text.
-/

namespace CompilingProxy

/-- Whether there is text of that range. -/
def Range.isLegible (source : List Char) (r : Range) : Bool :=
  (Text.slice? source r.start r.stop).isSome

namespace Emit

open Text Layout

variable {source : List Char} {bounds r : Range} {t : Setting} {v : Visit} {p : Place} {n c : Node}

/-- The pieces that deleting a range looks at, whether with its lines or with the blanks behind. -/
def lookedAt (source : List Char) (bounds r : Range) : List Range :=
  [r, ⟨0, r.start⟩, ⟨r.stop, width source⟩, ⟨max (lineStart source r.start) bounds.start, r.start⟩,
    ⟨r.stop, min (lineStop source r.stop) bounds.stop⟩, ⟨r.stop, max bounds.stop r.stop⟩]

/-- The range of a node with that of the mark that may be deleted along with it. -/
def Place.extent (p : Place) (n : Node) : Range :=
  ⟨n.start, ((p.behind.filter (p.takes n)).map (·.stop)).getD n.stop⟩

/-- The pieces that say what an import statement imports. -/
def importPieces (source : List Char) (n : Node) : List Range :=
  (importDecl? source n).toList.flatMap fun i => i.specifierRange :: i.bindings.map (·.range)

/-- The pieces that compiling a node looks at, apart from what its parts look at. -/
def Place.pieces (source : List Char) (bounds : Range) (p : Place) (n : Node) : List Range :=
  (p.extent n :: n.range :: n.children.map (·.range)).flatMap (lookedAt source bounds) ++
    importPieces source n

/-- A visit that fails at the first piece looked at that is no text. -/
def Visit.checked (source : List Char) (v : Visit) : Visit := fun f p scope n =>
  match (p.pieces source f.bounds n).find? fun r => !r.isLegible source with
  | some r => .error (.unreadable r)
  | none => v f p scope n

/-- Compiles a node as `visit` does, with checks at every level. -/
def checkedVisit (t : Setting) : (fuel : Nat) → Visit
  | 0 => fun _ _ scope _ => .ok ⟨[], false, scope⟩
  | fuel + 1 => (visitNode t (checkedVisit t fuel)).checked t.source

/-! ### Legible pieces -/

theorem isLegible_of_isCut (h : r.IsCut source) (hle : r.start ≤ r.stop) : r.isLegible source := by
  rw [Range.isLegible, (exists_slice h.start h.stop hle).1]
  rfl

theorem isCut_whole : Range.IsCut source ⟨0, width source⟩ where
  start := isBoundary_iff.mpr ⟨[], source, rfl, rfl⟩
  stop := isBoundary_iff.mpr ⟨source, [], (List.append_nil _).symm, rfl⟩

/-- What deleting a range looks at is text if the range lies in the bounds. -/
theorem lookedAt_legible (hb : bounds.IsCut source) (hr : r.IsCut source) (hle : r.start ≤ r.stop)
    (hfirst : bounds.start ≤ r.start) (hlast : r.stop ≤ bounds.stop) :
    ∀ piece ∈ lookedAt source bounds r, piece.isLegible source := by
  obtain ⟨hlineStart, hbefore, -, -⟩ := lineStart_spec hr.start
  obtain ⟨hlineStop, hbehind, -, -⟩ := lineStop_spec hr.stop
  have hend := le_width_of_isBoundary hr.stop
  intro piece hpiece
  simp only [lookedAt, List.mem_cons, List.not_mem_nil, or_false] at hpiece
  rcases hpiece with rfl | rfl | rfl | rfl | rfl | rfl
  · exact isLegible_of_isCut hr hle
  · exact isLegible_of_isCut ⟨isCut_whole.start, hr.start⟩ (Nat.zero_le _)
  · exact isLegible_of_isCut ⟨hr.stop, isCut_whole.stop⟩ hend
  · exact isLegible_of_isCut ⟨isBoundary_max hlineStart hb.start, hr.start⟩
      (Nat.max_le.mpr ⟨hbefore, hfirst⟩)
  · exact isLegible_of_isCut ⟨hr.stop, isBoundary_min hlineStop hb.stop⟩
      (Nat.le_min.mpr ⟨hbehind, hlast⟩)
  · exact isLegible_of_isCut ⟨hr.stop, isBoundary_max hb.stop hr.stop⟩ (Nat.le_max_right _ _)

theorem isLegible_range (hn : n.IsSound source) : n.range.isLegible source :=
  isLegible_of_isCut ⟨hn.isBoundary_start, hn.isBoundary_stop⟩ hn.start_le_stop

/-- What a clause binds is written in a part of the clause. -/
theorem clauseBindings_legible {typeOnly : Bool} (hn : n.IsSound source) {b : ImportBinding}
    (h : b ∈ clauseBindings source typeOnly n) : b.range.isLegible source := by
  rw [clauseBindings] at h
  split at h
  case h_1 =>
    obtain rfl := List.mem_singleton.mp h
    exact isLegible_range hn
  case h_2 =>
    obtain ⟨name, -, rfl⟩ := Option.map_eq_some_iff.mp (Option.mem_toList.mp h)
    exact isLegible_range hn
  case h_3 =>
    obtain ⟨spec, hspec, hb⟩ := List.mem_filterMap.mp h
    obtain ⟨name, -, hb⟩ := Option.bind_eq_some_iff.mp hb
    cases hb
    exact isLegible_range (hn.child (List.mem_filter.mp hspec).1)
  case h_4 => cases h

theorem importPieces_legible (hn : n.IsSound source) :
    ∀ piece ∈ importPieces source n, piece.isLegible source := by
  intro piece hpiece
  obtain ⟨i, hi, hpiece⟩ := List.mem_flatMap.mp hpiece
  obtain ⟨specifier, hspecifier, hi⟩ := Option.bind_eq_some_iff.mp (Option.mem_toList.mp hi)
  cases hi
  rcases List.mem_cons.mp hpiece with rfl | hpiece
  · exact isLegible_range (hn.child (List.mem_of_find?_eq_some hspecifier))
  · obtain ⟨b, hb, rfl⟩ := List.mem_map.mp hpiece
    cases hclause : n.childOf? .importClause with
    | none =>
      rw [hclause] at hb
      cases hb
    | some clause =>
      rw [hclause] at hb
      obtain ⟨part, hpart, hb⟩ := List.mem_flatMap.mp hb
      have hclause := hn.child (List.mem_of_find?_eq_some hclause)
      exact clauseBindings_legible (hclause.child hpart) hb

/-- Whatever is looked at where a node has room for its edits is text. -/
theorem pieces_legible (hb : bounds.IsCut source) (hn : n.IsSound source)
    (hp : p.IsWithin source bounds n) :
    ∀ piece ∈ p.pieces source bounds n, piece.isLegible source := by
  intro piece hpiece
  rcases List.mem_append.mp hpiece with hpiece | hpiece
  · obtain ⟨r, hr, hpiece⟩ := List.mem_flatMap.mp hpiece
    have hwidth := hn.start_le_stop
    rcases List.mem_cons.mp hr with rfl | hr
    · obtain ⟨hstop, hle, hlast⟩ : isBoundary source (p.extent n).stop ∧
          n.stop ≤ (p.extent n).stop ∧ (p.extent n).stop ≤ bounds.stop := by
        cases hmark : p.behind.filter (p.takes n) with
        | none =>
          rw [Place.extent, hmark]
          exact ⟨hn.isBoundary_stop, Nat.le_refl _, hp.stop⟩
        | some mark =>
          obtain ⟨hbehind, htakes⟩ := Option.filter_eq_some_iff.mp hmark
          rw [Place.extent, hmark]
          exact hp.behind mark hbehind htakes
      exact lookedAt_legible hb ⟨hn.isBoundary_start, hstop⟩ (Nat.le_trans hwidth hle) hp.start
        hlast piece hpiece
    · obtain ⟨m, hm, rfl⟩ : ∃ m ∈ n :: n.children, m.range = r := by
        rcases List.mem_cons.mp hr with rfl | hr
        · exact ⟨n, List.mem_cons_self, rfl⟩
        · obtain ⟨c, hc, rfl⟩ := List.mem_map.mp hr
          exact ⟨c, List.mem_cons_of_mem _ hc, rfl⟩
      obtain ⟨hsound, hfirst, hlast⟩ : m.IsSound source ∧ n.start ≤ m.start ∧ m.stop ≤ n.stop := by
        rcases List.mem_cons.mp hm with rfl | hm
        · exact ⟨hn, Nat.le_refl _, Nat.le_refl _⟩
        · exact ⟨hn.child hm, Node.bounds_of_mem hn.row hm⟩
      exact lookedAt_legible hb ⟨hsound.isBoundary_start, hsound.isBoundary_stop⟩
        hsound.start_le_stop (Nat.le_trans hp.start hfirst) (Nat.le_trans hlast hp.stop) piece hpiece
  · exact importPieces_legible hn piece hpiece

/-- Checks do not make a visit fail that compiles every node. -/
theorem IsComplete.checked (hv : IsComplete source v) : IsComplete source (v.checked source) := by
  intro f p scope n hb hn hp
  have hnone : (p.pieces source f.bounds n).find? (fun r => !r.isLegible source) = none :=
    List.find?_eq_none.mpr fun r hr => by simp [pieces_legible hb hn hp r hr]
  rw [Visit.checked, hnone]
  exact hv f p scope n hb hn hp

end Emit

end CompilingProxy
