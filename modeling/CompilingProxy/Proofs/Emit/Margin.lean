import CompilingProxy.Emit.Layout
import CompilingProxy.Proofs.Text.Line
import CompilingProxy.Proofs.Text.Stretch

/-!
# Margins of what is deleted

A deletion takes blanks in front of what is deleted, up to where the line begins, or behind it, up
to where the line ends. How far it may reach is told by the text alone, and what is deleted on
either side of a gap does not meet there.
-/

namespace CompilingProxy

/-- The ends of the range lie between characters. -/
structure Range.IsCut (source : List Char) (r : Range) : Prop where
  start : Text.isBoundary source r.start
  stop : Text.isBoundary source r.stop

namespace Layout

open Text

variable {source : List Char} {bounds : Range} {x y z : Nat}

/-! ### Lines -/

/-- The line of an offset begins at the start of the text or behind a line break, and no other
break stands in front of the offset. -/
theorem lineStart_spec (hx : isBoundary source x) :
    isBoundary source (lineStart source x) ∧ lineStart source x ≤ x ∧
      (∀ z, StandsAt source z '\n' → z < x → z < lineStart source x) ∧
      (lineStart source x = 0 ∨ ∃ z, StandsAt source z '\n' ∧ z + 1 = lineStart source x) := by
  obtain ⟨upper, back, rfl, rfl⟩ := isBoundary_iff.mp hx
  obtain ⟨front, hcut, htake, hunbroken, hfront⟩ := exists_lastLine upper
  have hstart : lineStart (upper ++ back) (width upper) = width front := by
    rw [lineStart, takeTo, splitAt?_width_append]
    dsimp only
    rw [htake]
  rw [hstart]
  generalize lastLine upper = line at hcut hunbroken
  subst hcut
  have hboundary : isBoundary (front ++ line ++ back) (width front) :=
    isBoundary_iff.mpr ⟨front, line ++ back, List.append_assoc _ _ _, rfl⟩
  rw [width_append] at hx ⊢
  refine ⟨hboundary, by omega, fun z hz hlt => Nat.lt_of_not_le fun hle => ?_, ?_⟩
  · -- A break behind the start would stand in the last line.
    obtain ⟨a, b, hslice, -⟩ := hz.mem_slice hboundary hx hle hlt
    rw [slice, slice?_append, Option.getD_some] at hslice
    exact hunbroken (by rw [hslice]; exact List.mem_append_right _ List.mem_cons_self)
  · rcases hfront with rfl | ⟨lines, rfl⟩
    · exact .inl rfl
    · refine .inr ⟨width lines, ⟨lines, line ++ back, by simp, rfl⟩, ?_⟩
      rw [width_append]
      rfl

/-- The line of an offset ends at the end of the text or behind the first line break. -/
theorem lineStop_spec (hx : isBoundary source x) :
    isBoundary source (lineStop source x) ∧ x ≤ lineStop source x ∧
      (∀ z, StandsAt source z '\n' → x ≤ z → lineStop source x ≤ z + 1) ∧
      (lineStop source x = width source ∨
        ∃ z, StandsAt source z '\n' ∧ x ≤ z ∧ z + 1 = lineStop source x) := by
  obtain ⟨front, rest, rfl, rfl⟩ := isBoundary_iff.mp hx
  have hdrop : dropTo (front ++ rest) (width front) = rest := by
    rw [dropTo, splitAt?_width_append]
  have hline : rest.takeWhile (· ≠ '\n') ++ rest.dropWhile (· ≠ '\n') = rest :=
    List.takeWhile_append_dropWhile
  have hunbroken : '\n' ∉ rest.takeWhile (· ≠ '\n') := fun hmem => by
    simpa using List.mem_takeWhile_imp hmem
  rw [lineStop, hdrop]
  generalize rest.takeWhile (· ≠ '\n') = line at hline hunbroken
  cases hback : rest.dropWhile (· ≠ '\n') with
  | nil =>
    rw [hback, List.append_nil] at hline
    subst hline
    rw [if_neg (Nat.lt_irrefl _)]
    have hend : isBoundary (front ++ line) (width front + width line) :=
      isBoundary_iff.mpr ⟨front ++ line, [], (List.append_nil _).symm, width_append _ _⟩
    refine ⟨hend, by omega, fun z hz hle => ?_, .inl (width_append _ _).symm⟩
    obtain ⟨a, b, hcut, rfl⟩ := hz
    obtain ⟨mid, rfl, hmid⟩ := exists_of_append_eq hcut hle
    exact absurd (by rw [hmid]; exact List.mem_append_right _ List.mem_cons_self) hunbroken
  | cons c back =>
    have hbreak : c = '\n' := by
      have hhead := List.head?_dropWhile_not (fun c : Char => decide (c ≠ '\n')) rest
      rw [hback] at hhead
      simpa using hhead
    rw [hback, hbreak] at hline
    subst hline
    rw [if_pos (by simp)]
    have hend : isBoundary (front ++ (line ++ '\n' :: back)) (width front + width line + 1) :=
      isBoundary_iff.mpr ⟨front ++ line ++ ['\n'], back, by simp, by
        rw [width_append, width_append]
        rfl⟩
    have hbreak : StandsAt (front ++ (line ++ '\n' :: back)) (width front + width line) '\n' :=
      ⟨front ++ line, back, by simp, width_append _ _⟩
    refine ⟨hend, by omega, fun z hz hle => ?_, .inr ⟨_, hbreak, Nat.le_add_right _ _, rfl⟩⟩
    obtain ⟨a, b, hcut, rfl⟩ := hz
    obtain ⟨mid, rfl, hmid⟩ := exists_of_append_eq hcut hle
    rw [width_append]
    refine Nat.le_of_not_lt fun hlt => ?_
    obtain ⟨rest, hrest, hend⟩ := exists_of_append_eq hmid.symm (by omega)
    cases rest with
    | nil =>
      rw [List.append_nil] at hrest
      rw [hrest] at hlt
      omega
    | cons d rest =>
      obtain ⟨rfl, -⟩ := List.cons.inj hend
      exact hunbroken (by rw [hrest]; exact List.mem_append_right _ List.mem_cons_self)

/-! ### Margins -/

/-- The first offset from which on only blanks of the offset's line stand in front of it, if they
reach to the start of the line or of the bounds. -/
def leading (source : List Char) (bounds : Range) (x : Nat) : Nat :=
  let start := max (lineStart source x) bounds.start
  if (slice source start x).all isBlank then start else x

/-- Where the blanks behind the offset end, or the line. -/
def trailing (source : List Char) (bounds : Range) (x : Nat) : Nat :=
  x + width (trail (slice source x bounds.stop))

theorem isBoundary_max (hx : isBoundary source x) (hy : isBoundary source y) :
    isBoundary source (max x y) := by
  rcases Nat.le_total x y with h | h
  · rwa [Nat.max_eq_right h]
  · rwa [Nat.max_eq_left h]

section

variable (hb : bounds.IsCut source) (hx : isBoundary source x)

include hb hx

theorem leading_spec (hle : bounds.start ≤ x) :
    isBoundary source (leading source bounds x) ∧ bounds.start ≤ leading source bounds x ∧
      leading source bounds x ≤ x ∧
      (leading source bounds x < x → IsBlankBetween source (leading source bounds x) x ∧
        leading source bounds x = max (lineStart source x) bounds.start) := by
  obtain ⟨hline, hlineStart, -, -⟩ := lineStart_spec hx
  have hstart := isBoundary_max hline hb.start
  rw [leading]
  split
  case isTrue hblank =>
    refine ⟨hstart, by omega, by omega, fun _ => ⟨?_, rfl⟩⟩
    exact (all_isBlank_slice_iff hstart hx (by omega)).mp hblank
  case isFalse => exact ⟨hx, hle, Nat.le_refl _, fun hlt => absurd hlt (Nat.lt_irrefl _)⟩

/-- Blanks of the offset's own line stand in its margin. -/
theorem isBlank_of_leading_le (hle : bounds.start ≤ x) {c : Char} (hz : StandsAt source z c)
    (hlead : leading source bounds x ≤ z) (hlt : z < x) : isBlank c ∧ c ≠ '\n' := by
  obtain ⟨-, -, hunbroken, -⟩ := lineStart_spec hx
  obtain ⟨-, -, -, hreach⟩ := leading_spec hb hx hle
  obtain ⟨hblank, hstart⟩ := hreach (by omega)
  refine ⟨hblank z c hz hlead hlt, ?_⟩
  rintro rfl
  have hbefore := hunbroken z hz hlt
  omega

/-- A text's front that trails off ends between characters of it. -/
theorem trailsOff_of_prefix (hle : x ≤ bounds.stop) {run : List Char}
    (hrun : run <+: slice source x bounds.stop) (htrail : IsTrail run) :
    isBoundary source (x + width run) ∧ x + width run ≤ bounds.stop ∧
      TrailsOff source x (x + width run) := by
  obtain ⟨rest, hrest⟩ := hrun
  obtain ⟨-, front, back, hcut, rfl, hwidth⟩ := exists_slice hx hb.stop hle
  rw [← hrest] at hcut hwidth
  rw [width_append] at hwidth
  have hstop : isBoundary source (width front + width run) :=
    isBoundary_iff.mpr ⟨front ++ run, rest ++ back, by rw [hcut]; simp, width_append _ _⟩
  have hslice : slice source (width front) (width front + width run) = run := by
    rw [hcut, ← List.append_assoc, List.append_assoc]
    exact slice_append front run (rest ++ back)
  refine ⟨hstop, by omega, (trailsOff_iff hx hstop (by omega)).mpr ?_⟩
  rwa [hslice]

theorem trailing_spec (hle : x ≤ bounds.stop) :
    isBoundary source (trailing source bounds x) ∧ trailing source bounds x ≤ bounds.stop ∧
      TrailsOff source x (trailing source bounds x) :=
  trailsOff_of_prefix hb hx hle (isPrefix_trail _) (isTrail_trail _)

/-- What trails off does so within the margin. -/
theorem le_trailing (hy : isBoundary source y) (hle : y ≤ bounds.stop) (h : TrailsOff source x y) :
    y ≤ trailing source bounds x := by
  obtain ⟨-, -, -, -, -, hwidth⟩ := exists_slice hx hy h.1
  have hlong : width (slice source x y) ≤
      width (trail (slice source x y ++ slice source y bounds.stop)) :=
    width_le_trail ((trailsOff_iff hx hy h.1).mp h)
  rw [← slice_split hx hy hb.stop h.1 hle] at hlong
  rw [trailing]
  omega

/-- No margin reaches over a character that is no blank. -/
theorem trailing_le_of_standsAt (hle : x ≤ bounds.stop) {c : Char} (hz : StandsAt source z c)
    (hc : isBlank c = false) (hxz : x ≤ z) : trailing source bounds x ≤ z := by
  obtain ⟨-, -, htrail⟩ := trailing_spec hb hx hle
  refine Nat.le_of_not_lt fun hlt => ?_
  rw [(htrail.2 z c hz hxz hlt).1] at hc
  cases hc

theorem trailing_mono (hy : isBoundary source y) (hxy : x ≤ y) (hle : y ≤ bounds.stop) :
    trailing source bounds x ≤ trailing source bounds y := by
  obtain ⟨hboundary, hstop, htrail⟩ := trailing_spec hb hx (Nat.le_trans hxy hle)
  obtain ⟨-, -, hbehind, -⟩ := trailing_spec hb hy hle
  rcases Nat.le_total (trailing source bounds x) y with h | h
  · omega
  · exact le_trailing hb hy hboundary hstop (htrail.from hxy h)

theorem leading_mono (hy : isBoundary source y) (hxy : x ≤ y) (hle : bounds.start ≤ x) :
    leading source bounds x ≤ leading source bounds y := by
  obtain ⟨hlineX, hstartX, hunbrokenX, hfrontX⟩ := lineStart_spec hx
  obtain ⟨-, -, hunbrokenY, hfrontY⟩ := lineStart_spec hy
  obtain ⟨-, -, hleX, -⟩ := leading_spec hb hx hle
  obtain ⟨-, -, hleY, hreach⟩ := leading_spec hb hy (Nat.le_trans hle hxy)
  rcases Nat.lt_or_ge (leading source bounds y) x with hlt | hge
  · -- Both offsets are then on one line, and blanks alone stand in front of them.
    obtain ⟨hblank, hstart⟩ := hreach (by omega)
    have hsame : lineStart source x = lineStart source y := by
      refine Nat.le_antisymm ?_ ?_
      · rcases hfrontX with hzero | ⟨z, hz, hnext⟩
        · omega
        · have := hunbrokenY z hz (by omega)
          omega
      · rcases hfrontY with hzero | ⟨z, hz, hnext⟩
        · omega
        · have := hunbrokenX z hz (by omega)
          omega
    have hblankX : (slice source (max (lineStart source x) bounds.start) x).all isBlank := by
      refine (all_isBlank_slice_iff (isBoundary_max hlineX hb.start) hx (by omega)).mpr ?_
      rw [hsame, ← hstart]
      exact fun z c hz hstartz hlt => hblank z c hz hstartz (by omega)
    rw [leading, if_pos hblankX, hstart, hsame]
  · omega

end

/-! ### Gaps -/

/-- The range begins with a character that is no blank, and ends on the line of one. -/
structure IsSolid (source : List Char) (r : Range) : Prop where
  first : ∃ c, StandsAt source r.start c ∧ isBlank c = false
  last : ∃ x c, StandsAt source x c ∧ isBlank c = false ∧ r.start ≤ x ∧ x < r.stop ∧
    ∀ z, StandsAt source z '\n' → x < z → r.stop ≤ z

/-- Whether a range is solid is told by its text. -/
theorem isSolid_of_slice {r : Range} (hr : r.IsCut source) (hle : r.start ≤ r.stop)
    (hfirst : (slice source r.start r.stop).head?.any (!isBlank ·))
    (hlast : (lastLine (slice source r.start r.stop)).any (!isBlank ·)) : IsSolid source r := by
  obtain ⟨-, -, -, -, -, hwidth⟩ := exists_slice hr.start hr.stop hle
  generalize htext : slice source r.start r.stop = text at hfirst hlast hwidth
  constructor
  · cases text with
    | nil => cases hfirst
    | cons c rest =>
      refine ⟨c, standsAt_of_slice (a := []) hr.start hr.stop hle htext, ?_⟩
      simpa using hfirst
  · obtain ⟨front, hfront, -, hunbroken, -⟩ := exists_lastLine text
    obtain ⟨c, hc, hsolid⟩ := List.any_eq_true.mp hlast
    obtain ⟨a, b, hline⟩ := List.append_of_mem hc
    have hsplit : text = (front ++ a) ++ c :: b := by
      rw [List.append_assoc, ← hline]
      exact hfront
    have hpos := c.utf8Size_pos
    rw [hsplit, width_append, width_cons] at hwidth
    refine ⟨_, c, standsAt_of_slice hr.start hr.stop hle (htext.trans hsplit),
      by simpa using hsolid, Nat.le_add_right _ _, by omega, fun z hz hlt => ?_⟩
    refine Nat.le_of_not_lt fun hbefore => ?_
    obtain ⟨a', b', hbreak, hoffset⟩ := hz.mem_slice hr.start hr.stop (by omega) hbefore
    rw [htext] at hbreak
    obtain ⟨mid, -, hrest⟩ := exists_of_append_eq (hsplit.symm.trans hbreak) (by omega)
    refine hunbroken ?_
    rw [hline, hrest]
    simp

/-- The margins of what stands on either side of a gap do not cross in it. -/
theorem trailing_le_leading (hb : bounds.IsCut source) {r s : Range} (hr : IsSolid source r)
    (hs : IsSolid source s) (hstop : isBoundary source r.stop) (hstart : isBoundary source s.start)
    (hfirst : bounds.start ≤ r.start) (hgap : r.stop ≤ s.start) (hlast : s.start ≤ bounds.stop) :
    trailing source bounds r.stop ≤ leading source bounds s.start := by
  obtain ⟨x, c, hx, hc, hrx, hxr, hline⟩ := hr.last
  obtain ⟨d, hd, hsolid⟩ := hs.first
  obtain ⟨-, -, hle, hreach⟩ := leading_spec hb hstart (by omega)
  rcases Nat.lt_or_eq_of_le hle with hlt | heq
  · obtain ⟨hblank, hstartAt⟩ := hreach hlt
    -- The last character of the first range stands on an earlier line.
    have hbefore : x < leading source bounds s.start := by
      refine Nat.lt_of_not_le fun hge => ?_
      rw [hblank x c hx hge (by omega)] at hc
      cases hc
    obtain ⟨-, -, -, hzero | ⟨z, hz, hnext⟩⟩ := lineStart_spec hstart
    · omega
    · have hbehind : r.stop ≤ z := by
        refine hline z hz (Nat.lt_of_le_of_ne (by omega) ?_)
        rintro rfl
        rw [hx.unique hz] at hc
        cases hc
      obtain ⟨-, -, htrail⟩ := trailing_spec hb hstop (by omega)
      refine Nat.le_of_not_lt fun hover => ?_
      have hend := (htrail.2 z '\n' hz hbehind (by omega)).2 rfl
      omega
  · rw [heq]
    exact trailing_le_of_standsAt hb hstop (by omega) hd hsolid hgap

/-! ### Deletions -/

section

variable (hb : bounds.IsCut source) (hx : isBoundary source x) (hle : x ≤ bounds.stop)

include hle

theorem skipBlanks_eq_add_width : skipBlanks source bounds x =
    x + width ((slice source x bounds.stop).takeWhile isBlankOfLine) := by
  have hwidth (cs : List Char) : width (cs.takeWhile isBlankOfLine) =
      (cs.takeWhile isBlankOfLine).length := by
    induction cs with
    | nil => rfl
    | cons c cs ih =>
      rw [List.takeWhile_cons]
      split
      case isTrue hc =>
        have hsize : c.utf8Size = 1 := by rcases isBlankOfLine_iff.mp hc with rfl | rfl <;> rfl
        rw [width_cons, hsize, ih, List.length_cons, Nat.add_comm]
      case isFalse => rfl
  rw [skipBlanks, Nat.max_eq_left hle, hwidth]

include hb hx

theorem skipBlanks_spec :
    isBoundary source (skipBlanks source bounds x) ∧ x ≤ skipBlanks source bounds x ∧
      skipBlanks source bounds x ≤ trailing source bounds x := by
  have htrail : IsTrail ((slice source x bounds.stop).takeWhile isBlankOfLine) := by
    intro a c b hrun
    have hc : isBlankOfLine c :=
      List.mem_takeWhile_imp (by rw [hrun]; exact List.mem_append_right _ List.mem_cons_self)
    refine ⟨isBlank_of_isBlankOfLine hc, ?_⟩
    rintro rfl
    cases hc
  obtain ⟨hboundary, hstop, hoff⟩ :=
    trailsOff_of_prefix hb hx hle (List.takeWhile_prefix _) htrail
  rw [skipBlanks_eq_add_width hle]
  exact ⟨hboundary, Nat.le_add_right _ _, le_trailing hb hx hboundary hstop hoff⟩

theorem isBlankOfLine_of_lt_skipBlanks {c : Char} (hz : StandsAt source z c) (hxz : x ≤ z)
    (hlt : z < skipBlanks source bounds x) : isBlankOfLine c := by
  obtain ⟨hboundary, -, htrailing⟩ := skipBlanks_spec hb hx hle
  obtain ⟨-, hstop, -⟩ := trailing_spec hb hx hle
  obtain ⟨a, b, hslice, rfl⟩ := hz.mem_slice hx hb.stop hxz (by omega)
  rw [skipBlanks_eq_add_width hle] at hlt
  have hcut := hslice.symm.trans (List.takeWhile_append_dropWhile (p := isBlankOfLine)).symm
  obtain ⟨mid, hrun, hrest⟩ := exists_of_append_eq hcut (by omega)
  cases mid with
  | nil =>
    rw [hrun, List.append_nil] at hlt
    omega
  | cons d mid =>
    obtain ⟨rfl, -⟩ := List.cons.inj hrest
    exact List.mem_takeWhile_imp (by rw [hrun]; exact List.mem_append_right _ List.mem_cons_self)

/-- What stands behind the skipped blanks within the bounds is no such blank. -/
theorem exists_standsAt_skipBlanks (hlt : skipBlanks source bounds x < bounds.stop) :
    ∃ c, StandsAt source (skipBlanks source bounds x) c ∧ isBlankOfLine c = false := by
  obtain ⟨-, -, -, -, -, hwidth⟩ := exists_slice hx hb.stop hle
  have hcut := (List.takeWhile_append_dropWhile (p := isBlankOfLine)
    (l := slice source x bounds.stop)).symm
  rw [skipBlanks_eq_add_width hle] at hlt ⊢
  cases hrest : (slice source x bounds.stop).dropWhile isBlankOfLine with
  | nil =>
    rw [hrest, List.append_nil] at hcut
    rw [← hcut] at hlt
    omega
  | cons c rest =>
    rw [hrest] at hcut
    have hhead := List.head?_dropWhile_not isBlankOfLine (slice source x bounds.stop)
    rw [hrest] at hhead
    exact ⟨c, standsAt_of_slice hx hb.stop hle hcut, by simpa using hhead⟩

end

theorem isBoundary_min (hx : isBoundary source x) (hy : isBoundary source y) :
    isBoundary source (min x y) := by
  rcases Nat.le_total x y with h | h
  · rwa [Nat.min_eq_left h]
  · rwa [Nat.min_eq_right h]

/-- What is deleted with a range lies in its margins. -/
theorem removalRange_spec (hb : bounds.IsCut source) {r : Range} (hr : r.IsCut source)
    (hfirst : bounds.start ≤ r.start) (hlast : r.stop ≤ bounds.stop) :
    (removalRange source bounds r).IsCut source ∧
      leading source bounds r.start ≤ (removalRange source bounds r).start ∧
      (removalRange source bounds r).start ≤ r.start ∧
      r.stop ≤ (removalRange source bounds r).stop ∧
      (removalRange source bounds r).stop ≤ trailing source bounds r.stop := by
  obtain ⟨hline, hlineStart, -, -⟩ := lineStart_spec hr.start
  obtain ⟨hlineEnd, hlineStop, hbreak, -⟩ := lineStop_spec hr.stop
  have hstart := isBoundary_max hline hb.start
  have hstop := isBoundary_min hlineEnd hb.stop
  rw [removalRange]
  dsimp only
  split
  case isTrue halone =>
    obtain ⟨hblankStart, hblankStop⟩ := Bool.and_eq_true_iff.mp halone
    have hleading : leading source bounds r.start = max (lineStart source r.start) bounds.start :=
      if_pos hblankStart
    have hoff : TrailsOff source r.stop (min (lineStop source r.stop) bounds.stop) := by
      have hblank := (all_isBlank_slice_iff hr.stop hstop (by omega)).mp hblankStop
      refine ⟨by omega, fun z c hz hle hlt => ⟨hblank z c hz hle hlt, ?_⟩⟩
      rintro rfl
      have := hbreak z hz hle
      omega
    refine ⟨⟨hstart, hstop⟩, Nat.le_of_eq hleading, Nat.max_le.mpr ⟨hlineStart, hfirst⟩, hoff.1, ?_⟩
    exact le_trailing hb hr.stop hstop (Nat.min_le_right _ _) hoff
  case isFalse =>
    obtain ⟨hboundary, hle, htrailing⟩ := skipBlanks_spec hb hr.stop hlast
    obtain ⟨-, -, hleading, -⟩ := leading_spec hb hr.start hfirst
    exact ⟨⟨hr.start, hboundary⟩, hleading, Nat.le_refl _, hle, htrailing⟩

end Layout

end CompilingProxy
