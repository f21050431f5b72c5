import Mathlib.Data.List.TakeWhile
import CompilingProxy.Text.Position

/-!
# The last line of a text

What stands behind the last line break of a text depends on what is written behind it only as far
as no other break is.
-/

namespace CompilingProxy.Text

variable {front back line : List Char}

/-- A text is its last line behind nothing, or behind a line break. -/
theorem exists_lastLine (cs : List Char) :
    ∃ front, cs = front ++ lastLine cs ∧ cs.take (cs.length - (lastLine cs).length) = front ∧
      '\n' ∉ lastLine cs ∧ (front = [] ∨ ∃ lines, front = lines ++ ['\n']) := by
  have hcut : cs = (cs.reverse.dropWhile (· ≠ '\n')).reverse ++ lastLine cs := by
    rw [lastLine, ← List.reverse_append, List.takeWhile_append_dropWhile, List.reverse_reverse]
  have htake : ∀ front back, cs = front ++ back → cs.take (cs.length - back.length) = front := by
    rintro front back rfl
    simp
  refine ⟨_, hcut, htake _ _ hcut, fun hmem => ?_, ?_⟩
  · rw [lastLine, List.mem_reverse] at hmem
    simpa using List.mem_takeWhile_imp hmem
  · cases hrest : cs.reverse.dropWhile (· ≠ '\n') with
    | nil => exact .inl rfl
    | cons c rest =>
      have hbreak : c = '\n' := by
        have hhead := List.head?_dropWhile_not (fun c : Char => decide (c ≠ '\n')) cs.reverse
        rw [hrest] at hhead
        simpa using hhead
      exact .inr ⟨rest.reverse, by rw [List.reverse_cons, hbreak]⟩

theorem lastLine_append (h : '\n' ∉ back) : lastLine (front ++ back) = lastLine front ++ back := by
  have hunbroken : ∀ c ∈ back.reverse, decide (c ≠ '\n') := by
    intro c hc
    rw [List.mem_reverse] at hc
    simp only [decide_eq_true_eq]
    rintro rfl
    exact h hc
  rw [lastLine, List.reverse_append, List.takeWhile_append_of_pos hunbroken, List.reverse_append,
    List.reverse_reverse]
  rfl

theorem lastLine_of_notMem (h : '\n' ∉ line) : lastLine line = line := by
  rw [← List.nil_append line, lastLine_append h]
  rfl

theorem lastLine_append_cons (h : '\n' ∉ back) : lastLine (front ++ '\n' :: back) = back := by
  rw [List.append_cons, lastLine_append h]
  simp [lastLine]

end CompilingProxy.Text
