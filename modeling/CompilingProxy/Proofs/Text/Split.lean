import Mathlib.Data.List.Basic
import CompilingProxy.Text.Split

/-!
# Pieces between separators

No piece of a text has a separator, and the text is its pieces with a separator between each two.
-/

namespace CompilingProxy.Text

variable {sep : Char} {cs piece front back : List Char} {pieces : List (List Char)}

/-! ### Pieces -/

theorem splitOnChar_ne_nil : splitOnChar sep cs ≠ [] := by
  cases cs with
  | nil => simp [splitOnChar]
  | cons c cs =>
    rw [splitOnChar]
    split
    · simp
    · split <;> simp

theorem splitOnChar_of_notMem (h : sep ∉ piece) : splitOnChar sep piece = [piece] := by
  induction piece with
  | nil => rfl
  | cons c cs ih =>
    rw [List.mem_cons, not_or] at h
    obtain ⟨hne, hcs⟩ := h
    rw [splitOnChar, if_neg (Ne.symm hne), ih hcs]

theorem splitOnChar_append_cons :
    splitOnChar sep (front ++ sep :: back) = splitOnChar sep front ++ splitOnChar sep back := by
  induction front with
  | nil => exact if_pos rfl
  | cons c cs ih =>
    rw [List.cons_append, splitOnChar, splitOnChar, ih]
    split
    case isTrue => rfl
    case isFalse =>
      cases hsplit : splitOnChar sep cs with
      | nil => exact absurd hsplit splitOnChar_ne_nil
      | cons first rest => rfl

/-- What has been cut at separators gives the same pieces again. -/
theorem splitOnChar_pieces (hpiece : sep ∉ piece) (hpieces : ∀ s ∈ pieces, sep ∉ s) :
    splitOnChar sep (piece ++ pieces.flatMap (sep :: ·)) = piece :: pieces := by
  induction pieces generalizing piece with
  | nil =>
    rw [List.flatMap_nil, List.append_nil]
    exact splitOnChar_of_notMem hpiece
  | cons next pieces ih =>
    rw [List.flatMap_cons, List.cons_append, splitOnChar_append_cons, splitOnChar_of_notMem hpiece,
      ih (hpieces next List.mem_cons_self) fun s hs => hpieces s (List.mem_cons_of_mem _ hs)]
    rfl

theorem splitOnChar_spec (sep : Char) (cs : List Char) : ∃ piece pieces,
    splitOnChar sep cs = piece :: pieces ∧ piece ++ pieces.flatMap (sep :: ·) = cs ∧
      ∀ s ∈ piece :: pieces, sep ∉ s := by
  induction cs with
  | nil => exact ⟨[], [], rfl, rfl, by simp⟩
  | cons c cs ih =>
    obtain ⟨piece, pieces, hsplit, htext, hplain⟩ := ih
    rw [splitOnChar, hsplit]
    split
    case isTrue hc => exact ⟨[], piece :: pieces, rfl, by simp [hc, htext], by simpa using hplain⟩
    case isFalse hc =>
      refine ⟨c :: piece, pieces, rfl, by rw [List.cons_append, htext], fun s hs => ?_⟩
      rcases List.mem_cons.mp hs with rfl | hs
      · rw [List.mem_cons, not_or]
        exact ⟨Ne.symm hc, hplain piece List.mem_cons_self⟩
      · exact hplain s (List.mem_cons_of_mem _ hs)

theorem eq_of_splitOnChar (h : splitOnChar sep cs = piece :: pieces) :
    piece ++ pieces.flatMap (sep :: ·) = cs := by
  obtain ⟨first, rest, hsplit, htext, -⟩ := splitOnChar_spec sep cs
  rw [h] at hsplit
  cases hsplit
  exact htext

theorem notMem_of_mem_splitOnChar (h : piece ∈ splitOnChar sep cs) : sep ∉ piece := by
  obtain ⟨first, rest, hsplit, -, hplain⟩ := splitOnChar_spec sep cs
  exact hplain piece (hsplit ▸ h)

theorem subset_of_mem_splitOnChar (h : piece ∈ splitOnChar sep cs) : piece ⊆ cs := by
  obtain ⟨first, rest, hsplit, htext, -⟩ := splitOnChar_spec sep cs
  rw [hsplit] at h
  rw [← htext]
  rcases List.mem_cons.mp h with rfl | h
  · exact List.subset_append_left _ _
  · intro c hc
    exact List.mem_append_right _ (List.mem_flatMap.mpr ⟨piece, h, List.mem_cons_of_mem _ hc⟩)

/-- Only the last piece of a text depends on what is written behind it, if that has no separator. -/
theorem splitOnChar_append (sep : Char) (cs : List Char) :
    ∃ front last, ∀ ys, sep ∉ ys → splitOnChar sep (cs ++ ys) = front ++ [last ++ ys] := by
  induction cs with
  | nil => exact ⟨[], [], fun ys hys => splitOnChar_of_notMem hys⟩
  | cons c cs ih =>
    obtain ⟨front, last, hsplit⟩ := ih
    by_cases hc : c = sep
    · refine ⟨[] :: front, last, fun ys hys => ?_⟩
      rw [List.cons_append, splitOnChar, if_pos hc, hsplit ys hys, List.cons_append]
    · cases front with
      | nil =>
        refine ⟨[], c :: last, fun ys hys => ?_⟩
        rw [List.cons_append, splitOnChar, if_neg hc, hsplit ys hys]
        rfl
      | cons piece front =>
        refine ⟨(c :: piece) :: front, last, fun ys hys => ?_⟩
        rw [List.cons_append, splitOnChar, if_neg hc, hsplit ys hys]
        rfl

theorem eq_of_dropFront? {rest : List Char} (h : dropFront? front cs = some rest) :
    cs = front ++ rest := by
  induction front generalizing cs with
  | nil => exact Option.some.inj h
  | cons f fs ih =>
    cases cs with
    | nil => cases h
    | cons c cs =>
      rw [dropFront?] at h
      split at h
      case isTrue hc => rw [hc, ih h, List.cons_append]
      case isFalse => cases h

theorem cutFirst?_append (h : sep ∉ front) :
    cutFirst? sep (front ++ sep :: back) = some (front, back) := by
  induction front with
  | nil => rw [List.nil_append, cutFirst?, if_pos rfl]
  | cons c cs ih =>
    rw [List.mem_cons, not_or] at h
    obtain ⟨hne, hcs⟩ := h
    rw [List.cons_append, cutFirst?, if_neg (Ne.symm hne), ih hcs]
    rfl

theorem cutLast?_of_notMem (h : sep ∉ cs) : cutLast? sep cs = none := by
  induction cs with
  | nil => rfl
  | cons c cs ih =>
    rw [List.mem_cons, not_or] at h
    obtain ⟨hne, hcs⟩ := h
    rw [cutLast?, ih hcs]
    exact if_neg (Ne.symm hne)

theorem cutLast?_append (h : sep ∉ back) :
    cutLast? sep (front ++ sep :: back) = some (front, back) := by
  induction front with
  | nil =>
    rw [List.nil_append, cutLast?, cutLast?_of_notMem h]
    exact if_pos rfl
  | cons c cs ih => rw [List.cons_append, cutLast?, ih]

theorem cutLast?_eq (h : cutLast? sep cs = some (front, back)) : cs = front ++ sep :: back := by
  induction cs generalizing front with
  | nil => cases h
  | cons c cs ih =>
    rw [cutLast?] at h
    split at h
    case h_1 front' back' hcut =>
      cases h
      rw [ih hcut, List.cons_append]
    case h_2 =>
      split at h
      case isTrue hc =>
        cases h
        rw [hc, List.nil_append]
      case isFalse => cases h

end CompilingProxy.Text
