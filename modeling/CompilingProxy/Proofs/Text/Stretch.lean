import CompilingProxy.Proofs.Text.Edit
import CompilingProxy.Text.Blank

/-!
# Characters at offsets

Every character stands at an offset, and what lies between two offsets is known from the characters
that stand there. A stretch of blanks trails off at the first line break.
-/

namespace CompilingProxy.Text

variable {cs front back front' back' : List Char} {start stop offset x y z : Nat} {c d : Char}

/-! ### Cuts -/

theorem eq_nil_of_width_eq_zero (h : width cs = 0) : cs = [] := by
  cases cs with
  | nil => rfl
  | cons c cs =>
    have hpos := c.utf8Size_pos
    rw [width_cons] at h
    omega

theorem isBoundary_iff :
    isBoundary cs offset ↔ ∃ front back, cs = front ++ back ∧ width front = offset := by
  constructor
  · intro h
    obtain ⟨⟨front, back⟩, hsplit⟩ := Option.isSome_iff_exists.mp h
    exact ⟨front, back, splitAt?_eq_some hsplit⟩
  · rintro ⟨front, back, rfl, rfl⟩
    rw [isBoundary, splitAt?_width_append]
    rfl

/-- Of two ways to cut a text, the one that cuts first cuts the front of the other. -/
theorem exists_of_append_eq (h : front ++ back = front' ++ back')
    (hle : width front ≤ width front') : ∃ mid, front' = front ++ mid ∧ back = mid ++ back' := by
  rcases List.append_eq_append_iff.mp h with ⟨mid, hfront, hback⟩ | ⟨mid, hfront, hback⟩
  · exact ⟨mid, hfront, hback⟩
  · have hnone : mid = [] := by
      refine eq_nil_of_width_eq_zero ?_
      rw [hfront, width_append] at hle
      omega
    subst hnone
    exact ⟨[], by simpa using hfront.symm, by simpa using hback.symm⟩

theorem slice?_append (front mid back : List Char) :
    slice? (front ++ mid ++ back) (width front) (width front + width mid) = some mid := by
  rw [slice?, if_neg (by omega), List.append_assoc, splitAt?_width_append]
  dsimp only [Option.bind_eq_bind, Option.bind_some]
  rw [Nat.add_sub_cancel_left, splitAt?_width_append]
  rfl

/-- A text is cut at two offsets. -/
theorem exists_slice (hstart : isBoundary cs start) (hstop : isBoundary cs stop)
    (hle : start ≤ stop) :
    slice? cs start stop = some (slice cs start stop) ∧
      ∃ front back, cs = front ++ slice cs start stop ++ back ∧ width front = start ∧
        start + width (slice cs start stop) = stop := by
  obtain ⟨front, rest, hfront, rfl⟩ := isBoundary_iff.mp hstart
  obtain ⟨upper, back, rfl, rfl⟩ := isBoundary_iff.mp hstop
  obtain ⟨mid, rfl, rfl⟩ := exists_of_append_eq hfront.symm hle
  have hslice : slice? (front ++ mid ++ back) (width front) (width (front ++ mid)) = some mid := by
    rw [width_append]
    exact slice?_append front mid back
  rw [slice, hslice, Option.getD_some]
  exact ⟨rfl, front, back, rfl, rfl, (width_append front mid).symm⟩

theorem slice_append (front mid back : List Char) :
    slice (front ++ mid ++ back) (width front) (width front + width mid) = mid := by
  rw [slice, slice?_append, Option.getD_some]

/-- What lies between two offsets is cut at one that lies between them. -/
theorem slice_split (hx : isBoundary cs x) (hy : isBoundary cs y) (hz : isBoundary cs z)
    (hxy : x ≤ y) (hyz : y ≤ z) : slice cs x z = slice cs x y ++ slice cs y z := by
  obtain ⟨-, front, rest, hcut, rfl, hwidth⟩ := exists_slice hx hy hxy
  obtain ⟨-, front', back, hcut', rfl, hwidth'⟩ := exists_slice hy hz hyz
  generalize slice cs (width front) (width front') = first at hcut hwidth
  generalize slice cs (width front') z = second at hcut' hwidth'
  have hfront : front ++ first = front' := by
    rw [List.append_assoc] at hcut'
    obtain ⟨mid, hmid, -⟩ := exists_of_append_eq (hcut.symm.trans hcut')
      (by rw [width_append]; omega)
    have hnone : mid = [] := eq_nil_of_width_eq_zero (by
      rw [hmid, width_append, width_append] at hwidth
      omega)
    rw [hmid, hnone, List.append_nil]
  subst hfront
  have hwhole : cs = front ++ (first ++ second) ++ back := by rw [hcut']; simp
  rw [hwhole, ← hwidth', ← hwidth, Nat.add_assoc, ← width_append]
  exact slice_append front (first ++ second) back

/-! ### Characters -/

/-- The character that stands at the offset of the text. -/
def StandsAt (cs : List Char) (offset : Nat) (c : Char) : Prop :=
  ∃ front back, cs = front ++ c :: back ∧ width front = offset

namespace StandsAt

theorem isBoundary (h : StandsAt cs x c) : isBoundary cs x := by
  obtain ⟨front, back, rfl, rfl⟩ := h
  exact isBoundary_iff.mpr ⟨front, c :: back, rfl, rfl⟩

theorem unique (h : StandsAt cs x c) (h' : StandsAt cs x d) : c = d := by
  obtain ⟨front, back, rfl, rfl⟩ := h
  obtain ⟨front', back', hcut, hwidth⟩ := h'
  obtain ⟨mid, rfl, hback⟩ := exists_of_append_eq hcut (by omega)
  have hnone : mid = [] := eq_nil_of_width_eq_zero (by rw [width_append] at hwidth; omega)
  subst hnone
  exact (List.cons.inj hback).1

/-- What stands between two offsets is part of what lies between them. -/
theorem mem_slice (h : StandsAt cs x c) (hstart : Text.isBoundary cs start)
    (hstop : Text.isBoundary cs stop) (hle : start ≤ x) (hlt : x < stop) :
    ∃ a b, slice cs start stop = a ++ c :: b ∧ start + width a = x := by
  obtain ⟨-, front, back, hcut, rfl, hwidth⟩ := exists_slice hstart hstop (by omega)
  generalize slice cs (width front) stop = mid at hcut hwidth
  obtain ⟨front', back', hcs, rfl⟩ := h
  rw [hcs, List.append_assoc] at hcut
  obtain ⟨a, rfl, hrest⟩ := exists_of_append_eq hcut.symm hle
  rw [width_append] at hlt
  obtain ⟨b, hslice, hback⟩ := exists_of_append_eq hrest.symm (by omega)
  cases b with
  | nil =>
    rw [List.append_nil] at hslice
    rw [hslice] at hwidth
    omega
  | cons d b =>
    obtain ⟨rfl, -⟩ := List.cons.inj hback
    exact ⟨a, b, hslice, (width_append front a).symm⟩

end StandsAt

theorem standsAt_of_slice (hstart : isBoundary cs start) (hstop : isBoundary cs stop)
    (hle : start ≤ stop) {a b : List Char} (h : slice cs start stop = a ++ c :: b) :
    StandsAt cs (start + width a) c := by
  obtain ⟨-, front, back, hcut, rfl, -⟩ := exists_slice hstart hstop hle
  refine ⟨front ++ a, b ++ back, ?_, width_append front a⟩
  rw [hcut, h]
  simp

/-! ### Blanks -/

/-- Nothing but blanks stands between the offsets. -/
def IsBlankBetween (cs : List Char) (start stop : Nat) : Prop :=
  ∀ x c, StandsAt cs x c → start ≤ x → x < stop → isBlank c

theorem all_isBlank_slice_iff (hstart : isBoundary cs start) (hstop : isBoundary cs stop)
    (hle : start ≤ stop) : (slice cs start stop).all isBlank ↔ IsBlankBetween cs start stop := by
  rw [List.all_eq_true]
  constructor
  · intro h x c hc hx hlt
    obtain ⟨a, b, hslice, -⟩ := hc.mem_slice hstart hstop hx hlt
    exact h c (by rw [hslice]; exact List.mem_append_right _ List.mem_cons_self)
  · intro h c hc
    obtain ⟨a, b, hslice⟩ := List.append_of_mem hc
    obtain ⟨-, -, -, -, -, hwidth⟩ := exists_slice hstart hstop hle
    have hpos := c.utf8Size_pos
    rw [hslice, width_append, width_cons] at hwidth
    exact h _ c (standsAt_of_slice hstart hstop hle hslice) (by omega) (by omega)

/-- Blanks lie between the offsets, and a line break at most at the end of them. -/
def TrailsOff (cs : List Char) (start stop : Nat) : Prop :=
  start ≤ stop ∧ ∀ x c, StandsAt cs x c → start ≤ x → x < stop →
    isBlank c ∧ (c = '\n' → x + 1 = stop)

theorem TrailsOff.from (h : TrailsOff cs start stop) (hstart : start ≤ x) (hstop : x ≤ stop) :
    TrailsOff cs x stop :=
  ⟨hstop, fun y c hc hy hlt => h.2 y c hc (by omega) hlt⟩

theorem TrailsOff.upTo (h : TrailsOff cs start stop) (hstart : start ≤ x) (hstop : x ≤ stop) :
    TrailsOff cs start x := by
  refine ⟨hstart, fun y c hc hy hlt => ?_⟩
  obtain ⟨hblank, hlast⟩ := h.2 y c hc hy (by omega)
  refine ⟨hblank, fun hbreak => ?_⟩
  have hend := hlast hbreak
  omega

/-- Blanks in a row, with a line break at most at their end. -/
def IsTrail (run : List Char) : Prop :=
  ∀ a c b, run = a ++ c :: b → isBlank c ∧ (c = '\n' → b = [])

theorem IsTrail.tail {run : List Char} (h : IsTrail (c :: run)) : IsTrail run :=
  fun a d b hrun => h (c :: a) d b (by rw [hrun]; rfl)

theorem trailsOff_iff (hstart : isBoundary cs start) (hstop : isBoundary cs stop)
    (hle : start ≤ stop) : TrailsOff cs start stop ↔ IsTrail (slice cs start stop) := by
  obtain ⟨-, -, -, -, -, hwidth⟩ := exists_slice hstart hstop hle
  constructor
  · intro h a c b hslice
    have hpos := c.utf8Size_pos
    rw [hslice, width_append, width_cons] at hwidth
    obtain ⟨hblank, hbreak⟩ :=
      h.2 _ c (standsAt_of_slice hstart hstop hle hslice) (by omega) (by omega)
    refine ⟨hblank, fun hc => eq_nil_of_width_eq_zero ?_⟩
    have hlast := hbreak hc
    omega
  · intro h
    refine ⟨hle, fun x c hc hx hlt => ?_⟩
    obtain ⟨a, b, hslice, rfl⟩ := hc.mem_slice hstart hstop hx hlt
    obtain ⟨hblank, hbreak⟩ := h a c b hslice
    refine ⟨hblank, fun hc' => ?_⟩
    rw [hslice, hbreak hc', hc', width_append, width_cons, width_nil] at hwidth
    have hsize : '\n'.utf8Size = 1 := rfl
    omega

/-- The blanks at the front, up to the first line break and with it. -/
def trail : List Char → List Char
  | [] => []
  | c :: cs => if c = '\n' then [c] else if isBlank c then c :: trail cs else []

theorem isPrefix_trail (cs : List Char) : trail cs <+: cs := by
  induction cs with
  | nil => exact List.nil_prefix
  | cons c cs ih =>
    rw [trail]
    split
    · exact List.cons_prefix_cons.mpr ⟨rfl, List.nil_prefix⟩
    · split
      · exact List.cons_prefix_cons.mpr ⟨rfl, ih⟩
      · exact List.nil_prefix

theorem isTrail_trail (cs : List Char) : IsTrail (trail cs) := by
  induction cs with
  | nil =>
    intro a c b h
    simp [trail] at h
  | cons c cs ih =>
    intro a d b h
    rw [trail] at h
    split at h
    case isTrue hbreak =>
      obtain ⟨rfl, hrest⟩ | ⟨e, a, rfl, hrest⟩ : (a = [] ∧ [c] = d :: b) ∨
          ∃ e a', a = e :: a' ∧ [] = a' ++ d :: b := by
        cases a with
        | nil => exact .inl ⟨rfl, h⟩
        | cons e a => exact .inr ⟨e, a, rfl, (List.cons.inj h).2⟩
      · obtain ⟨rfl, rfl⟩ := List.cons.inj hrest
        subst hbreak
        exact ⟨by decide, fun _ => rfl⟩
      · simp at hrest
    case isFalse hbreak =>
      split at h
      case isTrue hblank =>
        cases a with
        | nil =>
          obtain ⟨rfl, -⟩ := List.cons.inj h
          exact ⟨hblank, fun hd => absurd hd hbreak⟩
        | cons e a => exact ih a d b (List.cons.inj h).2
      case isFalse => simp at h

/-- No other blanks at the front of a text reach farther. -/
theorem width_le_trail {run rest : List Char} (h : IsTrail run) :
    width run ≤ width (trail (run ++ rest)) := by
  induction run with
  | nil => simp
  | cons c run ih =>
    obtain ⟨hblank, hbreak⟩ := h [] c run rfl
    rw [List.cons_append, trail, hblank]
    split
    case isTrue hc =>
      cases hbreak hc
      exact Nat.le_refl _
    case isFalse =>
      rw [if_pos rfl]
      rw [width_cons, width_cons]
      exact Nat.add_le_add_left (ih h.tail) _

end CompilingProxy.Text
