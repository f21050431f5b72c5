import CompilingProxy.Proofs.Emit.Legible

/-!
# What is deleted with a statement

A statement that nothing but blanks stands beside is deleted with the lines that it stands on, any
other one with the spaces and tabs behind it. In both cases the offsets that are deleted are told
by the characters and line breaks of the text, and the deletions of statements that are apart from
each other are apart, too.
-/

namespace CompilingProxy

/-- The offset lies in the range. -/
def Range.Contains (r : Range) (x : Nat) : Prop := r.start ≤ x ∧ x < r.stop

namespace Layout

open Text Emit

variable {source : List Char} {bounds r s : Range} {x y : Nat}

/-! ### Lines -/

/-- The offsets are on one line, since the same line breaks stand in front of them. A break is on
the line that it ends. -/
def OnLine (source : List Char) (x y : Nat) : Prop :=
  ∀ z, StandsAt source z '\n' → (z < x ↔ z < y)

/-- In front of an offset its line reaches back to where the line begins. -/
theorem onLine_iff_lineStart_le (hy : isBoundary source y) (hle : x ≤ y) :
    OnLine source x y ↔ lineStart source y ≤ x := by
  obtain ⟨-, hbefore, hunbroken, hfront⟩ := lineStart_spec hy
  constructor
  · intro h
    rcases hfront with hzero | ⟨z, hz, hnext⟩
    · omega
    · have hlt := (h z hz).mpr (by omega)
      omega
  · intro hstart z hz
    constructor
    · omega
    · intro hlt
      have := hunbroken z hz hlt
      omega

/-- Behind an offset its line reaches to where the line ends. -/
theorem onLine_iff_lt_lineStop (hy : isBoundary source y) (hle : y ≤ x) (hlt : x < width source) :
    OnLine source x y ↔ x < lineStop source y := by
  obtain ⟨-, -, hunbroken, hback⟩ := lineStop_spec hy
  constructor
  · intro h
    rcases hback with hend | ⟨z, hz, hbehind, hnext⟩
    · omega
    · refine Nat.lt_of_not_le fun hover => ?_
      have := (h z hz).mp (by omega)
      omega
  · intro hstop z hz
    constructor
    · intro hbefore
      refine Nat.lt_of_not_le fun hbehind => ?_
      have := hunbroken z hz hbehind
      omega
    · omega

/-! ### Statements and what stands beside them -/

/-- A range that may be deleted: it is not empty, lies in the bounds between characters, and its
first and last characters are no blanks. -/
structure IsRemovable (source : List Char) (bounds r : Range) : Prop where
  cut : r.IsCut source
  start_lt_stop : r.start < r.stop
  start_le : bounds.start ≤ r.start
  le_stop : r.stop ≤ bounds.stop
  first : (slice source r.start r.stop).head?.any (!isBlank ·)
  last : (slice source r.start r.stop).getLast?.any (!isBlank ·)

theorem IsRemovable.isSolid (h : IsRemovable source bounds r) : IsSolid source r := by
  refine isSolid_of_slice h.cut (Nat.le_of_lt h.start_lt_stop) h.first ?_
  obtain ⟨c, hc, hsolid⟩ := (Option.any_eq_true _ _).mp h.last
  obtain ⟨front, hfront⟩ := List.getLast?_eq_some_iff.mp hc
  have hunbroken : '\n' ∉ [c] := by
    rw [List.mem_singleton]
    rintro rfl
    cases hsolid
  rw [hfront, lastLine_append hunbroken, List.any_append, List.any_cons, hsolid]
  simp

/-- The offset lies in the bounds beside the range, on the line that the range begins or ends on. -/
def IsBeside (source : List Char) (bounds r : Range) (x : Nat) : Prop :=
  bounds.Contains x ∧
    (x < r.start ∧ OnLine source x r.start ∨ r.stop ≤ x ∧ OnLine source x r.stop)

/-- Nothing but blanks stands beside the range. -/
def StandsAlone (source : List Char) (bounds r : Range) : Prop :=
  ∀ x c, StandsAt source x c → IsBeside source bounds r x → isBlank c

/-- The lines of a range as far as the bounds reach. -/
def lineRange (source : List Char) (bounds r : Range) : Range :=
  ⟨max (lineStart source r.start) bounds.start, min (lineStop source r.stop) bounds.stop⟩

section

variable (hb : bounds.IsCut source) (hr : IsRemovable source bounds r)

include hb hr

theorem lineRange_spec : (lineRange source bounds r).IsCut source ∧
    (lineRange source bounds r).start ≤ r.start ∧ r.stop ≤ (lineRange source bounds r).stop := by
  obtain ⟨hlineStart, hbefore, -, -⟩ := lineStart_spec hr.cut.start
  obtain ⟨hlineStop, hbehind, -, -⟩ := lineStop_spec hr.cut.stop
  exact ⟨⟨isBoundary_max hlineStart hb.start, isBoundary_min hlineStop hb.stop⟩,
    Nat.max_le.mpr ⟨hbefore, hr.start_le⟩, Nat.le_min.mpr ⟨hbehind, hr.le_stop⟩⟩

theorem isBeside_iff : IsBeside source bounds r x ↔
    (lineRange source bounds r).start ≤ x ∧ x < r.start ∨
      r.stop ≤ x ∧ x < (lineRange source bounds r).stop := by
  have hwidth := le_width_of_isBoundary hb.stop
  have hwide := hr.start_lt_stop
  have hfirst := hr.start_le
  have hlast := hr.le_stop
  rw [IsBeside, Range.Contains, lineRange, Nat.max_le, Nat.lt_min]
  constructor
  · rintro ⟨hbounds, ⟨hlt, hline⟩ | ⟨hle, hline⟩⟩
    · rw [onLine_iff_lineStart_le hr.cut.start (Nat.le_of_lt hlt)] at hline
      exact .inl ⟨⟨hline, hbounds.1⟩, hlt⟩
    · rw [onLine_iff_lt_lineStop hr.cut.stop hle (by omega)] at hline
      exact .inr ⟨hle, hline, hbounds.2⟩
  · rintro (⟨⟨hline, hstart⟩, hlt⟩ | ⟨hle, hline, hstop⟩)
    · rw [← onLine_iff_lineStart_le hr.cut.start (Nat.le_of_lt hlt)] at hline
      exact ⟨⟨hstart, by omega⟩, .inl ⟨hlt, hline⟩⟩
    · rw [← onLine_iff_lt_lineStop hr.cut.stop hle (by omega)] at hline
      exact ⟨⟨by omega, hstop⟩, .inr ⟨hle, hline⟩⟩

theorem contains_lineRange_iff : (lineRange source bounds r).Contains x ↔
    r.Contains x ∨ IsBeside source bounds r x := by
  obtain ⟨-, hstart, hstop⟩ := lineRange_spec hb hr
  have hwide := hr.start_lt_stop
  rw [isBeside_iff hb hr, Range.Contains, Range.Contains]
  omega

theorem standsAlone_iff : StandsAlone source bounds r ↔
    (slice source (lineRange source bounds r).start r.start).all isBlank ∧
      (slice source r.stop (lineRange source bounds r).stop).all isBlank := by
  obtain ⟨hcut, hstart, hstop⟩ := lineRange_spec hb hr
  rw [all_isBlank_slice_iff hcut.start hr.cut.start hstart,
    all_isBlank_slice_iff hr.cut.stop hcut.stop hstop]
  constructor
  · intro h
    exact ⟨fun x c hc hle hlt => h x c hc ((isBeside_iff hb hr).mpr (.inl ⟨hle, hlt⟩)),
      fun x c hc hle hlt => h x c hc ((isBeside_iff hb hr).mpr (.inr ⟨hle, hlt⟩))⟩
  · intro ⟨hbefore, hbehind⟩ x c hc hbeside
    rcases (isBeside_iff hb hr).mp hbeside with ⟨hle, hlt⟩ | ⟨hle, hlt⟩
    · exact hbefore x c hc hle hlt
    · exact hbehind x c hc hle hlt

theorem removalRange_of_standsAlone (h : StandsAlone source bounds r) :
    removalRange source bounds r = lineRange source bounds r :=
  if_pos (Bool.and_eq_true_iff.mpr ((standsAlone_iff hb hr).mp h))

theorem removalRange_of_not_standsAlone (h : ¬StandsAlone source bounds r) :
    removalRange source bounds r = ⟨r.start, skipBlanks source bounds r.stop⟩ :=
  if_neg fun hblank => h ((standsAlone_iff hb hr).mpr (Bool.and_eq_true_iff.mp hblank))

end

/-! ### Deletions -/

/-- The offset lies in the bounds behind the range, and only spaces and tabs stand from the range up
to the offset and at it. -/
def IsSkipped (source : List Char) (bounds r : Range) (x : Nat) : Prop :=
  r.stop ≤ x ∧ x < bounds.stop ∧
    ∀ y c, StandsAt source y c → r.stop ≤ y → y ≤ x → isBlankOfLine c

theorem isSkipped_iff (hb : bounds.IsCut source) (hr : IsRemovable source bounds r) :
    IsSkipped source bounds r x ↔ r.stop ≤ x ∧ x < skipBlanks source bounds r.stop := by
  obtain ⟨-, hbegin, htrailing⟩ := skipBlanks_spec hb hr.cut.stop hr.le_stop
  obtain ⟨-, hstop, -⟩ := trailing_spec hb hr.cut.stop hr.le_stop
  constructor
  · rintro ⟨hle, hlt, hblank⟩
    -- An offset past the skipped blanks has the character that ended them in front of it or at it.
    refine ⟨hle, Nat.lt_of_not_le fun hover => ?_⟩
    obtain ⟨c, hc, hother⟩ :=
      exists_standsAt_skipBlanks hb hr.cut.stop hr.le_stop (Nat.lt_of_le_of_lt hover hlt)
    rw [hblank _ c hc hbegin hover] at hother
    cases hother
  · rintro ⟨hle, hlt⟩
    refine ⟨hle, by omega, fun y c hc hbehind hupto => ?_⟩
    exact isBlankOfLine_of_lt_skipBlanks hb hr.cut.stop hr.le_stop hc hbehind (by omega)

/-- What is deleted with a range `r` is the range `q`: it lies in the bounds between characters, and
adds blanks to `r`, with no line break in front of `r` and at most one, the last of them, behind it.
It adds what stands beside `r` if all of that is blank, and else the spaces and tabs behind `r`. -/
structure IsRemoval (source : List Char) (bounds r q : Range) : Prop where
  cut : q.IsCut source
  start_le : bounds.start ≤ q.start
  le_stop : q.stop ≤ bounds.stop
  start_le_start : q.start ≤ r.start
  stop_le_stop : r.stop ≤ q.stop
  before : ∀ x c, StandsAt source x c → q.start ≤ x → x < r.start → isBlank c ∧ c ≠ '\n'
  behind : TrailsOff source r.stop q.stop
  alone : StandsAlone source bounds r →
    ∀ x, q.Contains x ↔ r.Contains x ∨ IsBeside source bounds r x
  shared : ¬StandsAlone source bounds r →
    ∀ x, q.Contains x ↔ r.Contains x ∨ IsSkipped source bounds r x

theorem isRemoval_removalRange (hb : bounds.IsCut source) (hr : IsRemovable source bounds r) :
    IsRemoval source bounds r (removalRange source bounds r) := by
  obtain ⟨hcut, hleading, hbegin, hend, htrailing⟩ :=
    removalRange_spec hb hr.cut hr.start_le hr.le_stop
  obtain ⟨-, hstart, -, -⟩ := leading_spec hb hr.cut.start hr.start_le
  obtain ⟨-, hstop, hoff⟩ := trailing_spec hb hr.cut.stop hr.le_stop
  constructor
  case cut => exact hcut
  case start_le => exact Nat.le_trans hstart hleading
  case le_stop => exact Nat.le_trans htrailing hstop
  case start_le_start => exact hbegin
  case stop_le_stop => exact hend
  case before =>
    intro x c hc hle hlt
    exact isBlank_of_leading_le hb hr.cut.start hr.start_le hc (Nat.le_trans hleading hle) hlt
  case behind => exact hoff.upTo hend htrailing
  case alone =>
    intro halone x
    rw [removalRange_of_standsAlone hb hr halone]
    exact contains_lineRange_iff hb hr
  case shared =>
    intro hshared x
    have hwide := hr.start_lt_stop
    rw [removalRange_of_not_standsAlone hb hr hshared] at hend ⊢
    rw [isSkipped_iff hb hr, Range.Contains, Range.Contains]
    dsimp only at hend ⊢
    omega

/-- The deletion of a range ends before that of a range behind it begins. -/
theorem removalRange_stop_le_start (hb : bounds.IsCut source) (hr : IsRemovable source bounds r)
    (hs : IsRemovable source bounds s) (hgap : r.stop ≤ s.start) :
    (removalRange source bounds r).stop ≤ (removalRange source bounds s).start := by
  -- Either deletion stays in the margins of its range, and margins do not cross in a gap.
  obtain ⟨-, -, -, -, htrailing⟩ := removalRange_spec hb hr.cut hr.start_le hr.le_stop
  obtain ⟨-, hleading, -, -, -⟩ := removalRange_spec hb hs.cut hs.start_le hs.le_stop
  have hlast : s.start ≤ bounds.stop := Nat.le_trans (Nat.le_of_lt hs.start_lt_stop) hs.le_stop
  have hmargins := trailing_le_leading hb hr.isSolid hs.isSolid hr.cut.stop hs.cut.start
    hr.start_le hgap hlast
  omega

/-- What is deleted with a statement can be read off the text, adds blanks alone, and is apart from
what is deleted with any other statement. -/
theorem removals_stay_apart (hb : bounds.IsCut source) (hr : IsRemovable source bounds r) :
    (∀ piece ∈ lookedAt source bounds r, piece.isLegible source) ∧
      IsRemoval source bounds r (removalRange source bounds r) ∧
      ∀ s, IsRemovable source bounds s → r.Apart s →
        (removalRange source bounds r).Apart (removalRange source bounds s) := by
  refine ⟨?_, isRemoval_removalRange hb hr, fun s hs hapart => ?_⟩
  · exact lookedAt_legible hb hr.cut (Nat.le_of_lt hr.start_lt_stop) hr.start_le hr.le_stop
  · exact hapart.imp (removalRange_stop_le_start hb hr hs) (removalRange_stop_le_start hb hs hr)

/-- The body of a namespace, with a type that is alone on its line and one that is not. -/
def typesInBody : List Char :=
  "namespace N \x7b\n  type É = 'ß';\u00a0\r\n  type B = 0; \tf();\n\x7d".toList

theorem typesInBody_stay_apart :
    (∀ piece ∈ lookedAt typesInBody ⟨13, 55⟩ ⟨16, 31⟩, piece.isLegible typesInBody) ∧
      IsRemoval typesInBody ⟨13, 55⟩ ⟨16, 31⟩ ⟨14, 35⟩ ∧
      removalRange typesInBody ⟨13, 55⟩ ⟨37, 48⟩ = ⟨37, 50⟩ ∧
      Range.Apart ⟨14, 35⟩ ⟨37, 50⟩ := by
  have hb : Range.IsCut typesInBody ⟨13, 55⟩ := ⟨by decide, by decide⟩
  have hr : IsRemovable typesInBody ⟨13, 55⟩ ⟨16, 31⟩ :=
    ⟨⟨by decide, by decide⟩, by decide, by decide, by decide, by decide, by decide⟩
  have hs : IsRemovable typesInBody ⟨13, 55⟩ ⟨37, 48⟩ :=
    ⟨⟨by decide, by decide⟩, by decide, by decide, by decide, by decide, by decide⟩
  have halone : removalRange typesInBody ⟨13, 55⟩ ⟨16, 31⟩ = ⟨14, 35⟩ := by decide
  have hshared : removalRange typesInBody ⟨13, 55⟩ ⟨37, 48⟩ = ⟨37, 50⟩ := by decide
  obtain ⟨hlegible, hremoval, hapart⟩ := removals_stay_apart hb hr
  have hclear := hapart ⟨37, 48⟩ hs (.inl (by decide))
  rw [halone] at hremoval hclear
  rw [hshared] at hclear
  exact ⟨hlegible, hremoval, hshared, hclear⟩

end Layout

end CompilingProxy
