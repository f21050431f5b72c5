import Mathlib
import CompilingProxy.Proofs.Sorting
import CompilingProxy.Proofs.Text.Splice
import CompilingProxy.Proofs.Text.Utf8

/-!
# Which edits are performed

Edits are performed if and only if they fit the text and are apart from each other. They are put in
a row first, and only neighbours of the row are compared; what the row does to the text is seen best
from its end, where every range is still in its place when it is replaced.
-/

namespace CompilingProxy

open Text

variable {text rest front : List Char} {edits edits' row row' es : List TextEdit} {e : TextEdit}
  {cursor written floor : Nat} {r : Range}

/-! ### Neighbours -/

theorem checkOrdered_cons_eq_ok_iff : checkOrdered text floor (e :: es) = .ok () ↔
    e.range.Fits text ∧ floor ≤ e.range.start ∧ checkOrdered text e.range.stop es = .ok () := by
  rw [checkOrdered]
  constructor
  · intro h
    split at h
    case isTrue => cases h
    case isFalse hrange =>
      split at h
      case isTrue => cases h
      case isFalse hcuts =>
        split at h
        case isTrue => cases h
        case isFalse hfloor =>
          simp only [Bool.or_eq_true, Bool.not_eq_true', not_or, Bool.not_eq_false,
            decide_eq_true_eq, Nat.not_lt] at hrange hcuts
          exact ⟨⟨hrange.1, hcuts.1, hcuts.2⟩, Nat.le_of_not_lt hfloor, h⟩
  · rintro ⟨⟨hle, hstart, hstop⟩, hfloor, hrest⟩
    have hwidth := le_width_of_isBoundary hstop
    rw [if_neg (by simp; omega), if_neg (by simp [hstart, hstop]), if_neg (by omega)]
    exact hrest

/-- An edit that ends before its neighbour ends before all that follow. -/
theorem checkOrdered_eq_ok_iff : checkOrdered text floor es = .ok () ↔
    (∀ e ∈ es, e.range.Fits text) ∧ (∀ e ∈ es, floor ≤ e.range.start) ∧ InRow es := by
  induction es generalizing floor with
  | nil => simp [checkOrdered, InRow]
  | cons e es ih =>
    have hcons : InRow (e :: es) ↔ (∀ d ∈ es, e.range.stop ≤ d.range.start) ∧ InRow es :=
      List.pairwise_cons
    rw [checkOrdered_cons_eq_ok_iff, ih, hcons, List.forall_mem_cons, List.forall_mem_cons]
    constructor
    · rintro ⟨hfits, hfloor, hfits', hbehind, hrow⟩
      have hle := hfits.start_le_stop
      refine ⟨⟨hfits, hfits'⟩, ⟨hfloor, fun d hd => ?_⟩, hbehind, hrow⟩
      exact Nat.le_trans hfloor (Nat.le_trans hle (hbehind d hd))
    · rintro ⟨⟨hfits, hfits'⟩, ⟨hfloor, -⟩, hbehind, hrow⟩
      exact ⟨hfits, hfloor, hfits', hbehind, hrow⟩

theorem sorted_of_inRow (hrow : InRow es) (hle : ∀ e ∈ es, e.range.start ≤ e.range.stop) :
    es.Pairwise fun a b => a.precedes b := by
  refine hrow.imp_of_mem fun {a b} ha hb hab => ?_
  have ha := hle a ha
  have hb := hle b hb
  rw [TextEdit.precedes_iff]
  omega

theorem orderEdits_eq_ok_iff : orderEdits text edits = .ok row ↔
    row = edits.mergeSort TextEdit.precedes ∧ (∀ e ∈ row, e.range.Fits text) ∧ InRow row := by
  rw [orderEdits, bind_eq_ok_iff]
  constructor
  · rintro ⟨_, hchecked, h⟩
    cases h
    obtain ⟨hfits, -, hrow⟩ := checkOrdered_eq_ok_iff.mp hchecked
    exact ⟨rfl, hfits, hrow⟩
  · rintro ⟨rfl, hfits, hrow⟩
    exact ⟨(), checkOrdered_eq_ok_iff.mpr ⟨hfits, fun _ _ => Nat.zero_le _, hrow⟩, rfl⟩

theorem applyEdits_eq_ok_iff {out : List Char} {m : OffsetMap} :
    applyEdits text edits = .ok (out, m) ↔
      ∃ row, orderEdits text edits = .ok row ∧ splice text 0 0 row = (out, m.replacements) := by
  rw [applyEdits, bind_eq_ok_iff]
  constructor
  · rintro ⟨row, hrow, h⟩
    cases h
    exact ⟨row, hrow, rfl⟩
  · rintro ⟨row, hrow, h⟩
    refine ⟨row, hrow, ?_⟩
    rw [h]
    rfl

theorem exists_applyEdits_iff : (∃ result, applyEdits text edits = .ok result) ↔
    (∀ e ∈ edits, e.range.Fits text) ∧ edits.Pairwise fun a b => a.range.Apart b.range := by
  constructor
  · rintro ⟨⟨out, m⟩, h⟩
    obtain ⟨row, hordered, -⟩ := applyEdits_eq_ok_iff.mp h
    obtain ⟨rfl, hfits, hrow⟩ := orderEdits_eq_ok_iff.mp hordered
    have hperm := List.mergeSort_perm edits TextEdit.precedes
    have hapart : (edits.mergeSort TextEdit.precedes).Pairwise fun a b => a.range.Apart b.range :=
      hrow.imp Or.inl
    exact ⟨fun e he => hfits e (hperm.mem_iff.mpr he),
      (hperm.pairwise_iff Range.Apart.symm).mp hapart⟩
  · rintro ⟨hfits, hapart⟩
    exact applyEdits_isOk hfits hapart

/-! ### The row -/

/-- The texts that are inserted at an offset, one after another. -/
def insertionsAt (offset : Nat) (edits : List TextEdit) : List TextEdit :=
  edits.filter (·.range = ⟨offset, offset⟩)

/-- The edits stand in a row, where insertions at one offset keep their order. -/
structure IsRowOf (edits row : List TextEdit) : Prop where
  perm : row.Perm edits
  inRow : InRow row
  insertions : ∀ offset, insertionsAt offset row = insertionsAt offset edits

theorem ranks_precedes : Sorting.Ranks TextEdit.precedes TextEdit.range where
  trans := TextEdit.precedes_trans
  total := TextEdit.precedes_total
  antisymm a b hab hba := by
    rw [TextEdit.precedes_iff] at hab hba
    cases ha : a.range
    cases hb : b.range
    rw [ha, hb] at hab hba
    dsimp only at hab hba
    rw [Range.mk.injEq]
    omega
  congr a b hab := by
    rw [TextEdit.precedes_iff, hab]
    omega

theorem filter_range_mergeSort (edits : List TextEdit) (r : Range) :
    (edits.mergeSort TextEdit.precedes).filter (·.range = r) = edits.filter (·.range = r) :=
  ranks_precedes.filter_mergeSort edits r

/-- Sorted lists that have the same edits of every range in the same order are the same. -/
theorem eq_of_filter_range_eq (hsorted : row.Pairwise fun a b => a.precedes b)
    (hsorted' : row'.Pairwise fun a b => a.precedes b)
    (h : ∀ r, row.filter (·.range = r) = row'.filter (·.range = r)) : row = row' :=
  ranks_precedes.eq_of_filter_eq hsorted hsorted' h

/-- No two edits that are apart have one range, unless there is nothing in it. -/
theorem length_le_one_of_range_eq (hapart : es.Pairwise fun a b => a.range.Apart b.range)
    (hrange : ∀ e ∈ es, e.range = r) (hwide : r.start < r.stop) : es.length ≤ 1 := by
  match es with
  | [] => exact Nat.zero_le 1
  | [_] => exact Nat.le_refl 1
  | a :: b :: _ =>
    have hab := (List.pairwise_cons.mp hapart).1 b List.mem_cons_self
    rw [hrange a (by simp), hrange b (by simp)] at hab
    rcases hab with hab | hab <;> omega

/-- Only insertions can have the range of another edit. -/
theorem filter_range_eq (hfits : ∀ e ∈ edits, e.range.Fits text)
    (hapart : edits.Pairwise fun a b => a.range.Apart b.range) (hperm : edits'.Perm edits)
    (hinsertions : ∀ offset, insertionsAt offset edits' = insertionsAt offset edits) (r : Range) :
    edits'.filter (·.range = r) = edits.filter (·.range = r) := by
  by_cases hempty : r.start = r.stop
  · have hr : r = ⟨r.start, r.start⟩ := by
      cases r
      dsimp only at hempty ⊢
      rw [hempty]
    rw [hr]
    exact hinsertions r.start
  · apply Sorting.eq_of_perm_of_length_le_one (hperm.filter (·.range = r))
    by_cases hwide : r.start < r.stop
    · refine length_le_one_of_range_eq (hapart.filter (·.range = r)) (fun e he => ?_) hwide
      exact of_decide_eq_true (List.mem_filter.mp he).2
    · -- The range would end before it begins.
      have hnone : edits.filter (·.range = r) = [] := by
        refine List.filter_eq_nil_iff.mpr fun e he hrange => ?_
        have hle := (hfits e he).start_le_stop
        rw [of_decide_eq_true hrange] at hle
        omega
      rw [hnone]
      exact Nat.zero_le 1

theorem IsRowOf.eq_mergeSort (h : IsRowOf edits row) (hfits : ∀ e ∈ edits, e.range.Fits text)
    (hapart : edits.Pairwise fun a b => a.range.Apart b.range) :
    row = edits.mergeSort TextEdit.precedes := by
  have hsorted := sorted_of_inRow h.inRow fun e he =>
    (hfits e (h.perm.mem_iff.mp he)).start_le_stop
  have hsorted' := List.pairwise_mergeSort TextEdit.precedes_trans TextEdit.precedes_total edits
  apply eq_of_filter_range_eq hsorted hsorted'
  intro r
  rw [filter_range_mergeSort]
  exact filter_range_eq hfits hapart h.perm h.insertions r

/-! ### From the end of the row -/

/-- Puts the replacement in the place of what stands in the range. -/
def TextEdit.replaceIn (e : TextEdit) (text : List Char) : List Char :=
  takeTo text e.range.start ++ e.replacement.toList ++ dropTo text e.range.stop

/-- The edits, in a row, cut up what stands from an offset on. -/
inductive Cuts : (cursor : Nat) → (rest : List Char) → List TextEdit → Prop where
  | nil {cursor : Nat} {rest : List Char} : Cuts cursor rest []
  | cons {cursor : Nat} {kept old rest : List Char} {new : String} {es : List TextEdit}
      (h : Cuts (cursor + width kept + width old) rest es) :
      Cuts cursor (kept ++ (old ++ rest))
        (.replace (cursor + width kept) (cursor + width kept + width old) new :: es)

theorem cuts_of_inRow (hfits : ∀ e ∈ es, e.range.Fits (front ++ rest)) (hrow : InRow es)
    (hfloor : ∀ e ∈ es, width front ≤ e.range.start) : Cuts (width front) rest es := by
  induction es generalizing front rest with
  | nil => exact .nil
  | cons e es ih =>
    obtain ⟨hle, hstart, hstop⟩ := hfits e List.mem_cons_self
    obtain ⟨hbehind, hrow⟩ := List.pairwise_cons.mp hrow
    obtain ⟨upper, back, hcut, hupper⟩ := isBoundary_iff.mp hstart
    obtain ⟨upper', back', hcut', hupper'⟩ := isBoundary_iff.mp hstop
    obtain ⟨kept, rfl, rfl⟩ := exists_of_append_eq hcut (by
      have hfirst := hfloor e List.mem_cons_self
      omega)
    obtain ⟨old, rfl, rfl⟩ := exists_of_append_eq (hcut.symm.trans hcut') (by omega)
    have htail : Cuts (width (front ++ kept ++ old)) back' es :=
      ih (fun d hd => by simpa using hfits d (List.mem_cons_of_mem _ hd)) hrow
        fun d hd => hupper' ▸ hbehind d hd
    obtain ⟨⟨start, stop⟩, new⟩ := e
    simp only [width_append] at hupper hupper' htail
    subst hupper hupper'
    exact .cons htail

theorem cuts_text (hfits : ∀ e ∈ es, e.range.Fits text) (hrow : InRow es) : Cuts 0 text es := by
  have hcuts : Cuts (width []) text es := cuts_of_inRow hfits hrow fun _ _ => Nat.zero_le _
  exact hcuts

/-- What the cursor does at an edit. -/
theorem splice_cons_append (kept old rest : List Char) (cursor written : Nat) (new : String)
    (es : List TextEdit) :
    splice (kept ++ (old ++ rest)) cursor written
        (.replace (cursor + width kept) (cursor + width kept + width old) new :: es) =
      (kept ++ (new.toList ++ (splice rest (cursor + width kept + width old)
          (written + width kept + new.utf8ByteSize) es).1),
        ⟨⟨cursor + width kept, cursor + width kept + width old⟩,
          ⟨written + width kept, written + width kept + new.utf8ByteSize⟩⟩ ::
        (splice rest (cursor + width kept + width old)
          (written + width kept + new.utf8ByteSize) es).2) := by
  have hkept : takeTo (kept ++ (old ++ rest)) (width kept) = kept := takeTo_width_append _ _
  have hleft : dropTo (kept ++ (old ++ rest)) (width kept + width old) = rest := by
    rw [← List.append_assoc, ← width_append, dropTo_width_append]
  rw [splice]
  dsimp only [TextEdit.replace]
  rw [Nat.add_sub_cancel_left, hkept, Nat.add_assoc cursor, Nat.add_sub_cancel_left, hleft,
    List.append_assoc]

/-- As all that stands in front of an edit is still in its place, the last one may come first. -/
theorem Cuts.foldr_replaceIn (h : Cuts cursor rest es) (hfront : width front = cursor)
    (written : Nat) :
    es.foldr TextEdit.replaceIn (front ++ rest) = front ++ (splice rest cursor written es).1 := by
  induction h generalizing front written with
  | nil => rfl
  | @cons cursor kept old rest new es h ih =>
    have hbefore : width (front ++ kept ++ old) = cursor + width kept + width old := by
      rw [width_append, width_append, hfront]
    have htail := ih hbefore (written + width kept + new.utf8ByteSize)
    have hcut : front ++ (kept ++ (old ++ rest)) = front ++ kept ++ old ++ rest := by simp
    rw [List.foldr_cons, hcut, htail, splice_cons_append]
    generalize (splice rest _ _ es).1 = out
    have hup : takeTo (front ++ kept ++ old ++ out) (cursor + width kept) = front ++ kept := by
      rw [← hfront, ← width_append, List.append_assoc (front ++ kept), takeTo_width_append]
    have hdown : dropTo (front ++ kept ++ old ++ out) (cursor + width kept + width old) = out := by
      rw [← hbefore, dropTo_width_append]
    rw [TextEdit.replaceIn, TextEdit.replace, hup, hdown]
    simp

/-- The bytes of the ranges go, and those of the replacements come. -/
theorem Cuts.width_splice (h : Cuts cursor rest es) (written : Nat) :
    (es.map (·.range.length)).sum ≤ width rest ∧
      width (splice rest cursor written es).1 + (es.map (·.range.length)).sum =
        width rest + (es.map (fun e => width e.replacement.toList)).sum := by
  induction h generalizing written with
  | nil => simp [splice]
  | @cons cursor kept old rest new es h ih =>
    obtain ⟨hle, hsum⟩ := ih (written + width kept + new.utf8ByteSize)
    have hlength : (⟨cursor + width kept, cursor + width kept + width old⟩ : Range).length =
        width old := Nat.add_sub_cancel_left ..
    rw [splice_cons_append]
    simp only [List.map_cons, List.sum_cons, width_append, TextEdit.replace, hlength]
    omega

/-! ### Acceptance -/

/-- Edits are performed if and only if each goes from one place between characters to another one
behind it, and any two of them are apart. The text is then the one that replacing the ranges from
the last to the first gives, and neither it nor the offsets depend on the order in which the edits
are given, but for insertions at one offset. -/
theorem applyEdits_accepts (text : List Char) (edits : List TextEdit) :
    ((∃ result, applyEdits text edits = .ok result) ↔
      (∀ e ∈ edits, e.range.start ≤ e.range.stop ∧ e.range.stop ≤ width text ∧
        isBoundary text e.range.start ∧ isBoundary text e.range.stop) ∧
      edits.Pairwise fun a b => a.range.stop ≤ b.range.start ∨ b.range.stop ≤ a.range.start) ∧
    ∀ out m, applyEdits text edits = .ok (out, m) →
      (∃ row, IsRowOf edits row) ∧
      (∀ row, IsRowOf edits row → out = row.foldr TextEdit.replaceIn text) ∧
      (edits.map (·.range.length)).sum ≤ width text ∧
      width out = width text - (edits.map (·.range.length)).sum +
        (edits.map (fun e => width e.replacement.toList)).sum ∧
      ∀ edits' : List TextEdit, edits'.Perm edits →
        (∀ offset, insertionsAt offset edits' = insertionsAt offset edits) →
        applyEdits text edits' = .ok (out, m) := by
  have hbounds : (∀ e ∈ edits, e.range.Fits text) ↔ ∀ e ∈ edits,
      e.range.start ≤ e.range.stop ∧ e.range.stop ≤ width text ∧
        isBoundary text e.range.start ∧ isBoundary text e.range.stop := by
    constructor
    · intro hfits e he
      obtain ⟨hle, hstart, hstop⟩ := hfits e he
      exact ⟨hle, le_width_of_isBoundary hstop, hstart, hstop⟩
    · intro hbounds e he
      obtain ⟨hle, -, hstart, hstop⟩ := hbounds e he
      exact ⟨hle, hstart, hstop⟩
  refine ⟨exists_applyEdits_iff.trans (and_congr hbounds Iff.rfl), fun out m h => ?_⟩
  obtain ⟨hfits, hapart⟩ := exists_applyEdits_iff.mp ⟨_, h⟩
  obtain ⟨row, hordered, hsplice⟩ := applyEdits_eq_ok_iff.mp h
  obtain ⟨rfl, hfits', hrow⟩ := orderEdits_eq_ok_iff.mp hordered
  have hperm := List.mergeSort_perm edits TextEdit.precedes
  have hcuts := cuts_text hfits' hrow
  obtain ⟨hgone, hsum⟩ := hcuts.width_splice 0
  have hout : (splice text 0 0 (edits.mergeSort TextEdit.precedes)).1 = out :=
    congrArg Prod.fst hsplice
  rw [hout, (hperm.map _).sum_nat, (hperm.map _).sum_nat] at hsum
  rw [(hperm.map _).sum_nat] at hgone
  refine ⟨⟨_, hperm, hrow, fun offset => filter_range_mergeSort edits _⟩, fun row hrowof => ?_,
    hgone, by omega, fun edits' hperm' hinsertions => ?_⟩
  · have hlast : (edits.mergeSort TextEdit.precedes).foldr TextEdit.replaceIn ([] ++ text) =
        [] ++ (splice text 0 0 (edits.mergeSort TextEdit.precedes)).1 :=
      hcuts.foldr_replaceIn rfl 0
    rw [List.nil_append, List.nil_append, hout] at hlast
    rw [hrowof.eq_mergeSort hfits hapart, hlast]
  · -- The edits are put in the same row.
    have hsame : edits'.mergeSort TextEdit.precedes = edits.mergeSort TextEdit.precedes := by
      apply eq_of_filter_range_eq
      · exact List.pairwise_mergeSort TextEdit.precedes_trans TextEdit.precedes_total edits'
      · exact List.pairwise_mergeSort TextEdit.precedes_trans TextEdit.precedes_total edits
      · intro r
        rw [filter_range_mergeSort, filter_range_mergeSort]
        exact filter_range_eq hfits hapart hperm' hinsertions r
    refine applyEdits_eq_ok_iff.mpr ⟨_, orderEdits_eq_ok_iff.mpr ⟨rfl, ?_⟩, ?_⟩
    · rw [hsame]
      exact ⟨hfits', hrow⟩
    · rw [hsame]
      exact hsplice

end CompilingProxy
