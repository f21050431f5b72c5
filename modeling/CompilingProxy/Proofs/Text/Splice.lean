import CompilingProxy.Proofs.Text.Stretch

/-!
# Texts with ranges written anew

`splice` goes through a text once, with a cursor that moves over the edits. `editedFrom` says what
comes out by the offsets of the text alone: what lies between the ranges is kept, and every range
has its replacement. The main results are that edits apart from each other are performed so in
whatever order they are given, and that an edit which writes what stands there already may be left
out.
-/

namespace CompilingProxy

open Text

/-- The text from the cursor on, with every range replaced; the edits are in order. -/
def editedFrom (cs : List Char) : (cursor : Nat) → List TextEdit → List Char
  | cursor, [] => slice cs cursor (width cs)
  | cursor, e :: es =>
    slice cs cursor e.range.start ++ e.replacement.toList ++ editedFrom cs e.range.stop es

/-- Whether the replacement is something else than what stands there. -/
def TextEdit.changes (cs : List Char) (e : TextEdit) : Bool :=
  e.replacement.toList != slice cs e.range.start e.range.stop

/-- Every edit ends before the next one begins. -/
def InRow (es : List TextEdit) : Prop := es.Pairwise fun a b => a.range.stop ≤ b.range.start

instance (es : List TextEdit) : Decidable (InRow es) :=
  inferInstanceAs (Decidable (List.Pairwise _ _))

namespace Text

variable {cs : List Char} {x y : Nat}

theorem isBoundary_zero (cs : List Char) : isBoundary cs 0 :=
  isBoundary_iff.mpr ⟨[], cs, rfl, rfl⟩

theorem isBoundary_width (cs : List Char) : isBoundary cs (width cs) :=
  isBoundary_iff.mpr ⟨cs, [], (List.append_nil cs).symm, rfl⟩

theorem dropTo_width_append (front back : List Char) :
    dropTo (front ++ back) (width front) = back := by
  rw [dropTo, splitAt?_width_append]

theorem takeTo_width_append (front back : List Char) :
    takeTo (front ++ back) (width front) = front := by
  rw [takeTo, splitAt?_width_append]

/-- What can be cut out of a text begins and ends between characters of it. -/
theorem fits_of_slice? {mid : List Char} (h : slice? cs x y = some mid) :
    Range.Fits cs ⟨x, y⟩ ∧ x + width mid = y := by
  rw [slice?] at h
  split at h
  case isTrue => cases h
  case isFalse hle =>
    obtain ⟨⟨front, tail⟩, hfront, h⟩ := Option.bind_eq_some_iff.mp h
    obtain ⟨⟨middle, back⟩, hmid, h⟩ := Option.bind_eq_some_iff.mp h
    cases h
    obtain ⟨rfl, rfl⟩ := splitAt?_eq_some hfront
    obtain ⟨rfl, hwidth⟩ := splitAt?_eq_some hmid
    have hstop : width front + width mid = y := by omega
    refine ⟨⟨Nat.le_of_not_lt hle, ?_, ?_⟩, hstop⟩
    · exact isBoundary_iff.mpr ⟨front, mid ++ back, rfl, rfl⟩
    · refine isBoundary_iff.mpr ⟨front ++ mid, back, (List.append_assoc ..).symm, ?_⟩
      rw [width_append, hstop]

theorem dropTo_eq_slice (hx : isBoundary cs x) : dropTo cs x = slice cs x (width cs) := by
  obtain ⟨front, back, rfl, rfl⟩ := isBoundary_iff.mp hx
  have hslice := slice_append front back []
  rw [List.append_nil] at hslice
  rw [dropTo_width_append, width_append, hslice]

theorem cut_dropTo (hx : isBoundary cs x) (hy : isBoundary cs y) (hxy : x ≤ y) :
    takeTo (dropTo cs x) (y - x) = slice cs x y ∧ dropTo (dropTo cs x) (y - x) = dropTo cs y := by
  obtain ⟨-, front, back, hcut, rfl, hwidth⟩ := exists_slice hx hy hxy
  generalize slice cs (width front) y = mid at hcut hwidth ⊢
  have hdistance : y - width front = width mid := by omega
  have hbehind : dropTo cs (width front) = mid ++ back := by
    rw [hcut, List.append_assoc, dropTo_width_append]
  rw [hbehind, hdistance, takeTo_width_append, dropTo_width_append, hcut, ← hwidth,
    ← width_append, dropTo_width_append]
  exact ⟨rfl, rfl⟩

end Text

theorem TextEdit.stop_le_of_precedes {a b : TextEdit} (hab : a.precedes b)
    (hapart : a.range.Apart b.range) (hb : b.range.start ≤ b.range.stop) :
    a.range.stop ≤ b.range.start := by
  rw [precedes_iff] at hab
  rcases hapart with h | h <;> omega

section

variable {cs : List Char} {cursor mid : Nat} {e : TextEdit} {es : List TextEdit}

/-- Going through the text with a cursor comes to what its offsets say. -/
theorem fst_splice (hfits : ∀ e ∈ es, e.range.Fits cs) (hrow : InRow es)
    (hcursor : isBoundary cs cursor) (hfloor : ∀ e ∈ es, cursor ≤ e.range.start) (written : Nat) :
    (splice (dropTo cs cursor) cursor written es).1 = editedFrom cs cursor es := by
  induction es generalizing cursor written with
  | nil =>
    rw [splice, editedFrom]
    exact dropTo_eq_slice hcursor
  | cons e es ih =>
    obtain ⟨hle, hstart, hstop⟩ := hfits e List.mem_cons_self
    have hbehind := hfloor e List.mem_cons_self
    obtain ⟨hclear, hrest⟩ := List.pairwise_cons.mp hrow
    obtain ⟨hkept, -⟩ := cut_dropTo hcursor hstart hbehind
    obtain ⟨-, hleft⟩ := cut_dropTo hcursor hstop (by omega)
    have htail := fun w => ih (fun d hd => hfits d (List.mem_cons_of_mem _ hd)) hrest hstop hclear w
    rw [splice, editedFrom]
    dsimp only
    rw [hkept, hleft, htail]

theorem slice_append_editedFrom (hfits : ∀ e ∈ es, e.range.Fits cs)
    (hcursor : isBoundary cs cursor) (hmid : isBoundary cs mid) (hle : cursor ≤ mid)
    (hfloor : ∀ e ∈ es, mid ≤ e.range.start) :
    slice cs cursor mid ++ editedFrom cs mid es = editedFrom cs cursor es := by
  cases es with
  | nil =>
    have hend := le_width_of_isBoundary hmid
    rw [editedFrom, editedFrom, ← slice_split hcursor hmid (isBoundary_width cs) hle hend]
  | cons e es =>
    have hstart := (hfits e List.mem_cons_self).start
    have hbehind := hfloor e List.mem_cons_self
    rw [editedFrom, editedFrom, slice_split hcursor hmid hstart hle hbehind]
    simp only [List.append_assoc]

theorem editedFrom_filter_changes (hfits : ∀ e ∈ es, e.range.Fits cs) (hrow : InRow es)
    (hcursor : isBoundary cs cursor) (hfloor : ∀ e ∈ es, cursor ≤ e.range.start) :
    editedFrom cs cursor (es.filter (·.changes cs)) = editedFrom cs cursor es := by
  induction es generalizing cursor with
  | nil => rfl
  | cons e es ih =>
    obtain ⟨hle, hstart, hstop⟩ := hfits e List.mem_cons_self
    have hbehind := hfloor e List.mem_cons_self
    have hfits' : ∀ d ∈ es, d.range.Fits cs := fun d hd => hfits d (List.mem_cons_of_mem _ hd)
    obtain ⟨hclear, hrest⟩ := List.pairwise_cons.mp hrow
    have htail := ih hfits' hrest hstop hclear
    by_cases hchanges : e.changes cs
    · rw [List.filter_cons_of_pos hchanges, editedFrom, editedFrom, htail]
    · have hsame : e.replacement.toList = slice cs e.range.start e.range.stop := by
        simpa [TextEdit.changes] using hchanges
      rw [List.filter_cons_of_neg hchanges, editedFrom, hsame,
        ← slice_split hcursor hstart hstop hbehind hle, ← htail]
      apply Eq.symm
      apply slice_append_editedFrom _ hcursor hstop (by omega)
      · intro d hd
        exact hclear d (List.mem_filter.mp hd).1
      · intro d hd
        exact hfits' d (List.mem_filter.mp hd).1

/-- Among edits of some text each, there is one order in which every one ends before the next. -/
theorem mergeSort_eq_of_inRow {row : List TextEdit} (hperm : row.Perm es) (hrow : InRow row)
    (hwide : ∀ e ∈ row, e.range.start < e.range.stop) :
    es.mergeSort TextEdit.precedes = row := by
  have hsame : row.Perm (es.mergeSort TextEdit.precedes) :=
    hperm.trans (List.mergeSort_perm es TextEdit.precedes).symm
  have hsorted := List.pairwise_mergeSort TextEdit.precedes_trans TextEdit.precedes_total es
  have hordered : row.Pairwise fun a b => a.precedes b ∧ a.range.stop ≤ b.range.start := by
    refine hrow.imp_of_mem fun {a b} ha hb hab => ⟨?_, hab⟩
    have hwidth := hwide a ha
    rw [TextEdit.precedes_iff]
    omega
  have hapart : (es.mergeSort TextEdit.precedes).Pairwise fun a b => a.range.Apart b.range :=
    (hsame.pairwise_iff Range.Apart.symm).mp (hrow.imp Or.inl)
  -- Sorted by where they begin and apart from each other, edits end before the next ones.
  have hbehind : InRow (es.mergeSort TextEdit.precedes) := by
    refine (hsorted.and hapart).imp_of_mem fun {a b} ha hb ⟨hab, hclear⟩ => ?_
    have hwidth := hwide b (hsame.mem_iff.mpr hb)
    exact TextEdit.stop_le_of_precedes hab hclear (Nat.le_of_lt hwidth)
  refine (hsame.eq_of_pairwise (fun a b ha hb hab hba => ?_) hrow hbehind).symm
  have hwidth := hwide a ha
  have hwidth' := hwide b (hsame.mem_iff.mpr hb)
  omega

/-- Edits are performed as they stand in the text, in whatever order they are given. -/
theorem applyEdits_eq_editedFrom {row : List TextEdit} (hperm : row.Perm es) (hrow : InRow row)
    (hfits : ∀ e ∈ row, e.range.Fits cs) (hwide : ∀ e ∈ row, e.range.start < e.range.stop) :
    ∃ offsets, applyEdits cs es = .ok (editedFrom cs 0 row, offsets) := by
  have hapart : row.Pairwise fun a b => a.range.Apart b.range := hrow.imp Or.inl
  have hfits' : ∀ e ∈ es, e.range.Fits cs := fun e he => hfits e (hperm.mem_iff.mpr he)
  obtain ⟨⟨out, offsets⟩, hok⟩ :=
    applyEdits_isOk hfits' ((hperm.pairwise_iff Range.Apart.symm).mp hapart)
  refine ⟨offsets, hok.trans ?_⟩
  obtain ⟨ordered, hordered, hspliced⟩ := bind_eq_ok_iff.mp hok
  have hsorted : ordered = es.mergeSort TextEdit.precedes := by
    obtain ⟨_, -, heq⟩ := bind_eq_ok_iff.mp hordered
    exact (Except.ok.inj heq).symm
  have htext : (splice cs 0 0 ordered).1 = out := congrArg Prod.fst (Except.ok.inj hspliced)
  rw [hsorted, mergeSort_eq_of_inRow hperm hrow hwide] at htext
  have hwhole : dropTo cs 0 = cs := dropTo_width_append [] cs
  have hedited := fst_splice hfits hrow (isBoundary_zero cs) (fun _ _ => Nat.zero_le _) 0
  rw [← htext, ← hedited, hwhole]

end

end CompilingProxy
