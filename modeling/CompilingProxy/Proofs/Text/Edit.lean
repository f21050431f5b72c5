import CompilingProxy.Proofs.Outcome
import CompilingProxy.Text.Edit

/-!
# Edits that can be performed

Edits whose ranges lie in a text, between characters and apart from each other, can be performed in
whatever order they are given.
-/

namespace CompilingProxy

namespace Text

theorem le_width_of_isBoundary {cs : List Char} {offset : Nat} (h : isBoundary cs offset) :
    offset ≤ width cs := by
  obtain ⟨⟨front, back⟩, hsplit⟩ := Option.isSome_iff_exists.mp h
  obtain ⟨rfl, rfl⟩ := splitAt?_eq_some hsplit
  rw [width_append]
  omega

end Text

namespace Range

/-- The range goes from one place between characters to another one behind it. -/
structure Fits (text : List Char) (r : Range) : Prop where
  start_le_stop : r.start ≤ r.stop
  start : Text.isBoundary text r.start
  stop : Text.isBoundary text r.stop

/-- One of the ranges ends before the other begins. -/
def Apart (r s : Range) : Prop := r.stop ≤ s.start ∨ s.stop ≤ r.start

theorem Apart.symm {r s : Range} (h : r.Apart s) : s.Apart r := Or.symm h

end Range

namespace TextEdit

theorem precedes_iff {a b : TextEdit} :
    a.precedes b ↔ a.range.start < b.range.start ∨
      a.range.start = b.range.start ∧ a.range.stop ≤ b.range.stop := by
  simp [precedes]

theorem precedes_trans (a b c : TextEdit) (hab : a.precedes b) (hbc : b.precedes c) :
    a.precedes c := by
  rw [precedes_iff] at *
  omega

theorem precedes_total (a b : TextEdit) : a.precedes b || b.precedes a := by
  rw [Bool.or_eq_true, precedes_iff, precedes_iff]
  omega

end TextEdit

theorem checkOrdered_eq_ok {text : List Char} {floor : Nat} {es : List TextEdit}
    (hfits : ∀ e ∈ es, e.range.Fits text) (hfloor : ∀ e ∈ es, floor ≤ e.range.start)
    (hsorted : es.Pairwise fun a b => a.precedes b)
    (hapart : es.Pairwise fun a b => a.range.Apart b.range) :
    checkOrdered text floor es = .ok () := by
  induction es generalizing floor with
  | nil => rfl
  | cons e es ih =>
    obtain ⟨hle, hstart, hstop⟩ := hfits e List.mem_cons_self
    have hwidth := Text.le_width_of_isBoundary hstop
    have hbehind := hfloor e List.mem_cons_self
    obtain ⟨hbefore, hsorted⟩ := List.pairwise_cons.mp hsorted
    obtain ⟨hclear, hapart⟩ := List.pairwise_cons.mp hapart
    rw [checkOrdered, if_neg (by simp; omega), if_neg (by simp [hstart, hstop]),
      if_neg (by omega)]
    refine ih (fun d hd => hfits d (List.mem_cons_of_mem _ hd)) (fun d hd => ?_) hsorted hapart
    have hprecedes := TextEdit.precedes_iff.mp (hbefore d hd)
    have hd := (hfits d (List.mem_cons_of_mem _ hd)).start_le_stop
    rcases hclear d ‹_› with h | h
    · exact h
    · omega

theorem applyEdits_nil (source : List Char) : applyEdits source [] = .ok (source, ⟨[]⟩) := by
  rw [applyEdits, orderEdits, List.mergeSort_nil]
  rfl

/-- Edits that fit the text and are apart from each other are performed. -/
theorem applyEdits_isOk {text : List Char} {edits : List TextEdit}
    (hfits : ∀ e ∈ edits, e.range.Fits text)
    (hapart : edits.Pairwise fun a b => a.range.Apart b.range) :
    ∃ out, applyEdits text edits = .ok out := by
  have hperm := List.mergeSort_perm edits TextEdit.precedes
  have hsorted := List.pairwise_mergeSort TextEdit.precedes_trans TextEdit.precedes_total edits
  have hchecked : checkOrdered text 0 (edits.mergeSort TextEdit.precedes) = .ok () :=
    checkOrdered_eq_ok (fun e he => hfits e (hperm.mem_iff.mp he)) (fun _ _ => Nat.zero_le _)
      hsorted ((hperm.pairwise_iff Range.Apart.symm).mpr hapart)
  refine ⟨_, bind_eq_ok_iff.mpr ⟨edits.mergeSort TextEdit.precedes, ?_, rfl⟩⟩
  rw [orderEdits, hchecked]
  rfl

end CompilingProxy
