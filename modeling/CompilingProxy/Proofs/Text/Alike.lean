import Mathlib.Data.List.Forall2
import CompilingProxy.Emit.Layout
import CompilingProxy.Proofs.Outcome
import CompilingProxy.Text.Edit

/-!
# Texts that differ in hidden places

Two texts look alike when one has a blank where the other has the same one, and when their other
characters take as many bytes as those of the other. What is laid out by blanks and line breaks is
laid out alike in both. Where the places in which they differ are replaced, both become one text.
-/

namespace CompilingProxy

namespace Text

/-- The characters are the same, or neither is a blank and they take as many bytes. -/
def Alike (c d : Char) : Prop :=
  c = d ∨ isBlank c = false ∧ isBlank d = false ∧ c.utf8Size = d.utf8Size

/-- The texts look alike, and differ in characters at hidden offsets only; they begin at the offset
that is given. -/
inductive AlikeBut (hidden : Nat → Prop) : (offset : Nat) → List Char → List Char → Prop
  | nil {offset : Nat} : AlikeBut hidden offset [] []
  | cons {offset : Nat} {c d : Char} {cs ds : List Char} (head : c = d ∨ hidden offset ∧ Alike c d)
      (tail : AlikeBut hidden (offset + c.utf8Size) cs ds) :
      AlikeBut hidden offset (c :: cs) (d :: ds)

/-! ### Characters -/

section

variable {c d : Char}

theorem Alike.utf8Size (h : Alike c d) : c.utf8Size = d.utf8Size := by
  rcases h with rfl | ⟨-, -, hwidth⟩
  · rfl
  · exact hwidth

theorem Alike.isBlank (h : Alike c d) : isBlank c = isBlank d := by
  rcases h with rfl | ⟨hc, hd, -⟩
  · rfl
  · rw [hc, hd]

theorem Alike.symm (h : Alike c d) : Alike d c := by
  rcases h with rfl | ⟨hc, hd, hwidth⟩
  · exact .inl rfl
  · exact .inr ⟨hd, hc, hwidth.symm⟩

/-- Blanks look like nothing but themselves. -/
theorem Alike.eq_of_isBlank (h : Alike c d) (hblank : Text.isBlank c) : c = d := by
  rcases h with rfl | ⟨hc, -, -⟩
  · rfl
  · rw [hblank] at hc
    cases hc

theorem Alike.eq_break_iff (h : Alike c d) : c = '\n' ↔ d = '\n' := by
  constructor
  · rintro rfl
    exact (h.eq_of_isBlank (by decide)).symm
  · rintro rfl
    exact (h.symm.eq_of_isBlank (by decide)).symm

end

/-! ### Lines and blanks -/

section

variable {cs ds : List Char} (h : List.Forall₂ Alike cs ds)

include h

theorem width_eq_of_alike : width cs = width ds := by
  induction h with
  | nil => rfl
  | cons hc _ ih => rw [width_cons, width_cons, hc.utf8Size, ih]

theorem all_isBlank_of_alike : cs.all isBlank = ds.all isBlank := by
  induction h with
  | nil => rfl
  | cons hc _ ih => rw [List.all_cons, List.all_cons, hc.isBlank, ih]

theorem contains_break_of_alike : cs.contains '\n' = ds.contains '\n' := by
  induction h with
  | nil => rfl
  | @cons c d cs ds hc _ ih =>
    rw [List.contains_cons, List.contains_cons, ih, Bool.beq_eq_decide_eq, Bool.beq_eq_decide_eq]
    congr 1
    simpa [eq_comm] using hc.eq_break_iff

theorem takeWhile_of_alike {p : Char → Bool} (hp : ∀ c, p c → isBlank c) :
    cs.takeWhile p = ds.takeWhile p := by
  induction h with
  | nil => rfl
  | @cons c d cs ds hc _ ih =>
    rw [List.takeWhile_cons, List.takeWhile_cons]
    cases hblank : isBlank c with
    | true => rw [← hc.eq_of_isBlank hblank, ih]
    | false =>
      have hnot : ∀ e, isBlank e = false → p e = false := fun e he => by
        rw [Bool.eq_false_iff]
        intro hpe
        rw [hp e hpe] at he
        cases he
      rw [hnot c hblank, hnot d (hc.isBlank ▸ hblank)]
      rfl

theorem takeWhile_break_of_alike :
    List.Forall₂ Alike (cs.takeWhile (· ≠ '\n')) (ds.takeWhile (· ≠ '\n')) := by
  induction h with
  | nil => exact .nil
  | @cons c d cs ds hc _ ih =>
    rw [List.takeWhile_cons, List.takeWhile_cons]
    by_cases hbreak : c = '\n'
    · simp [hbreak, hc.eq_break_iff.mp hbreak]
    · have hbreak' : d ≠ '\n' := fun hd => hbreak (hc.eq_break_iff.mpr hd)
      simpa [hbreak, hbreak'] using ⟨hc, by simpa using ih⟩

theorem lastLine_of_alike : List.Forall₂ Alike (lastLine cs) (lastLine ds) := by
  rw [lastLine, lastLine, List.forall₂_reverse_iff]
  exact takeWhile_break_of_alike (List.rel_reverse h)

end

/-! ### Offsets -/

namespace AlikeBut

variable {hidden : Nat → Prop} {offset start stop x : Nat} {cs ds : List Char}

theorem refl (offset : Nat) (cs : List Char) : AlikeBut hidden offset cs cs := by
  induction cs generalizing offset with
  | nil => exact .nil
  | cons c cs ih => exact .cons (.inl rfl) (ih _)

theorem append {as bs : List Char} (h : AlikeBut hidden offset cs ds)
    (hrest : AlikeBut hidden (offset + width cs) as bs) :
    AlikeBut hidden offset (cs ++ as) (ds ++ bs) := by
  induction h with
  | nil => exact hrest
  | cons head _ ih =>
    refine .cons head (ih ?_)
    rwa [width_cons, ← Nat.add_assoc] at hrest

theorem forall₂ (h : AlikeBut hidden offset cs ds) : List.Forall₂ Alike cs ds := by
  induction h with
  | nil => exact .nil
  | cons head _ ih => exact .cons (head.elim .inl And.right) ih

theorem width_eq (h : AlikeBut hidden offset cs ds) : width cs = width ds :=
  width_eq_of_alike h.forall₂

/-- Where nothing is hidden the texts are the same. -/
theorem eq (h : AlikeBut hidden offset cs ds)
    (hopen : ∀ x, offset ≤ x → x < offset + width cs → ¬hidden x) : cs = ds := by
  induction h with
  | nil => rfl
  | @cons offset c d cs ds head _ ih =>
    have hpos := c.utf8Size_pos
    have hsame : c = d := by
      refine head.resolve_right fun hdiffers => ?_
      exact hopen offset (Nat.le_refl _) (by rw [width_cons]; omega) hdiffers.1
    rw [hsame, ih fun x hfirst hlast => hopen x (by omega) (by rw [width_cons]; omega)]

/-- Both texts are cut at an offset, or neither is. -/
theorem splitAt?_cases (h : AlikeBut hidden offset cs ds) (x : Nat) :
    (splitAt? cs x = none ∧ splitAt? ds x = none) ∨ ∃ front back front' back',
      splitAt? cs x = some (front, back) ∧ splitAt? ds x = some (front', back') ∧
      AlikeBut hidden offset front front' ∧ AlikeBut hidden (offset + x) back back' := by
  induction h generalizing x with
  | nil =>
    cases x with
    | zero => exact .inr ⟨[], [], [], [], rfl, rfl, .nil, .nil⟩
    | succ x => exact .inl ⟨rfl, rfl⟩
  | @cons offset c d cs ds head tail ih =>
    cases x with
    | zero => exact .inr ⟨[], _, [], _, rfl, rfl, .nil, .cons head tail⟩
    | succ x =>
      have hwidth : c.utf8Size = d.utf8Size := head.elim (fun h => by rw [h]) (·.2.utf8Size)
      rw [splitAt?, splitAt?, ← hwidth]
      by_cases hle : c.utf8Size ≤ x + 1
      · rw [if_pos hle, if_pos hle]
        rcases ih (x + 1 - c.utf8Size) with
          ⟨hnone, hnone'⟩ | ⟨front, back, front', back', hsome, hsome', hfront, hback⟩
        · exact .inl ⟨by rw [hnone]; rfl, by rw [hnone']; rfl⟩
        · refine .inr ⟨c :: front, back, d :: front', back', by rw [hsome]; rfl,
            by rw [hsome']; rfl, .cons head hfront, ?_⟩
          rwa [Nat.add_assoc, Nat.add_sub_cancel' hle] at hback
      · rw [if_neg hle, if_neg hle]
        exact .inl ⟨rfl, rfl⟩

theorem isBoundary_eq (h : AlikeBut hidden offset cs ds) (x : Nat) :
    isBoundary cs x = isBoundary ds x := by
  rcases h.splitAt?_cases x with ⟨hnone, hnone'⟩ | ⟨_, _, _, _, hsome, hsome', -, -⟩
  · rw [isBoundary, isBoundary, hnone, hnone']
  · rw [isBoundary, isBoundary, hsome, hsome']
    rfl

theorem takeTo (h : AlikeBut hidden offset cs ds) (x : Nat) :
    AlikeBut hidden offset (takeTo cs x) (Text.takeTo ds x) := by
  rcases h.splitAt?_cases x with ⟨hnone, hnone'⟩ | ⟨_, _, _, _, hsome, hsome', hfront, -⟩
  · rw [Text.takeTo, Text.takeTo, hnone, hnone']
    exact .nil
  · rw [Text.takeTo, Text.takeTo, hsome, hsome']
    exact hfront

theorem dropTo (h : AlikeBut hidden offset cs ds) (x : Nat) :
    AlikeBut hidden (offset + x) (dropTo cs x) (Text.dropTo ds x) := by
  rcases h.splitAt?_cases x with ⟨hnone, hnone'⟩ | ⟨_, _, _, _, hsome, hsome', -, hback⟩
  · rw [Text.dropTo, Text.dropTo, hnone, hnone']
    exact .nil
  · rw [Text.dropTo, Text.dropTo, hsome, hsome']
    exact hback

theorem slice?_cases (h : AlikeBut hidden offset cs ds) (start stop : Nat) :
    (slice? cs start stop = none ∧ slice? ds start stop = none) ∨ ∃ mid mid',
      slice? cs start stop = some mid ∧ slice? ds start stop = some mid' ∧
      AlikeBut hidden (offset + start) mid mid' := by
  rw [slice?, slice?]
  by_cases hlt : stop < start
  · rw [if_pos hlt, if_pos hlt]
    exact .inl ⟨rfl, rfl⟩
  · rw [if_neg hlt, if_neg hlt]
    rcases h.splitAt?_cases start with
      ⟨hnone, hnone'⟩ | ⟨_, back, _, back', hsome, hsome', -, hback⟩
    · rw [hnone, hnone']
      exact .inl ⟨rfl, rfl⟩
    · rw [hsome, hsome']
      simp only [Option.bind_eq_bind, Option.bind_some]
      rcases hback.splitAt?_cases (stop - start) with
        ⟨hnone, hnone'⟩ | ⟨mid, _, mid', _, hmid, hmid', hfront, -⟩
      · rw [hnone, hnone']
        exact .inl ⟨rfl, rfl⟩
      · rw [hmid, hmid']
        exact .inr ⟨mid, mid', rfl, rfl, hfront⟩

theorem slice (h : AlikeBut hidden offset cs ds) (start stop : Nat) :
    AlikeBut hidden (offset + start) (slice cs start stop) (Text.slice ds start stop) := by
  rcases h.slice?_cases start stop with ⟨hnone, hnone'⟩ | ⟨mid, mid', hsome, hsome', hmid⟩
  · rw [Text.slice, Text.slice, hnone, hnone']
    exact .nil
  · rw [Text.slice, Text.slice, hsome, hsome']
    exact hmid

end AlikeBut

end Text

open Text

/-! ### Layout -/

namespace Layout

variable {hidden : Nat → Prop} {cs ds : List Char} (h : AlikeBut hidden 0 cs ds)

include h

theorem lineStart_eq (x : Nat) : lineStart cs x = lineStart ds x := by
  have hfront := (h.takeTo x).forall₂
  have hlast := (lastLine_of_alike hfront).length_eq
  rw [lineStart, lineStart, hlast, hfront.length_eq]
  exact width_eq_of_alike (List.forall₂_take _ hfront)

theorem lineStop_eq (x : Nat) : lineStop cs x = lineStop ds x := by
  have hrest := (h.dropTo x).forall₂
  have hline := takeWhile_break_of_alike hrest
  rw [lineStop, lineStop]
  rw [width_eq_of_alike hline, hline.length_eq, hrest.length_eq]

theorem indentAt_eq (x : Nat) : indentAt cs x = indentAt ds x :=
  takeWhile_of_alike (lastLine_of_alike (h.takeTo x).forall₂) fun _ => isBlank_of_isBlankOfLine

theorem skipBlanks_eq (bounds : Range) (x : Nat) :
    skipBlanks cs bounds x = skipBlanks ds bounds x := by
  have hrest := (h.slice x (max bounds.stop x)).forall₂
  rw [skipBlanks, skipBlanks]
  rw [takeWhile_of_alike hrest fun _ => isBlank_of_isBlankOfLine]

theorem removalRange_eq (bounds r : Range) :
    removalRange cs bounds r = removalRange ds bounds r := by
  have hblank (a b : Nat) : (slice cs a b).all isBlank = (slice ds a b).all isBlank :=
    all_isBlank_of_alike (h.slice a b).forall₂
  rw [removalRange, removalRange]
  simp only [lineStart_eq h, lineStop_eq h, skipBlanks_eq h, hblank]

end Layout

/-! ### Edits -/

section

variable {hidden : Nat → Prop} {base : Nat} {cs ds : List Char}

theorem checkOrdered_eq (h : AlikeBut hidden base cs ds) (floor : Nat) (es : List TextEdit) :
    checkOrdered cs floor es = checkOrdered ds floor es := by
  induction es generalizing floor with
  | nil => rfl
  | cons e es ih =>
    rw [checkOrdered, checkOrdered, h.width_eq, h.isBoundary_eq, h.isBoundary_eq, ih]

theorem width_takeTo_le (cs : List Char) (x : Nat) :
    width (takeTo cs x) ≤ x ∧ width (takeTo cs x) ≤ width cs := by
  rw [takeTo]
  split
  case h_1 front back hsplit =>
    obtain ⟨rfl, rfl⟩ := splitAt?_eq_some hsplit
    rw [width_append]
    omega
  case h_2 => exact ⟨Nat.zero_le _, Nat.zero_le _⟩

theorem width_dropTo (cs : List Char) (x : Nat) :
    width (dropTo cs x) = 0 ∨ x + width (dropTo cs x) = width cs := by
  rw [dropTo]
  split
  case h_1 front back hsplit =>
    obtain ⟨rfl, rfl⟩ := splitAt?_eq_some hsplit
    exact .inr (width_append _ _).symm
  case h_2 => exact .inl rfl

theorem checkOrdered_cons {text : List Char} {floor : Nat} {e : TextEdit} {es : List TextEdit}
    (h : checkOrdered text floor (e :: es) = .ok ()) :
    floor ≤ e.range.start ∧ e.range.start ≤ e.range.stop ∧ e.range.stop ≤ width text ∧
      checkOrdered text e.range.stop es = .ok () := by
  rw [checkOrdered] at h
  split at h
  · cases h
  case isFalse hrange =>
    split at h
    · cases h
    · split at h
      · cases h
      case isFalse hfloor =>
        simp only [Bool.or_eq_true, decide_eq_true_eq, not_or, Nat.not_lt] at hrange
        exact ⟨Nat.le_of_not_lt hfloor, hrange.1, hrange.2, h⟩

theorem le_start_of_checkOrdered {text : List Char} {floor : Nat} {es : List TextEdit}
    (h : checkOrdered text floor es = .ok ()) {e : TextEdit} (he : e ∈ es) :
    floor ≤ e.range.start := by
  induction es generalizing floor with
  | nil => cases he
  | cons d es ih =>
    obtain ⟨hfloor, hle, -, hrest⟩ := checkOrdered_cons h
    rcases List.mem_cons.mp he with rfl | he
    · exact hfloor
    · have := ih hrest he
      omega

/-- All that is hidden from one offset of a text up to another one stands in the range of an edit.
-/
def Hides (hidden : Nat → Prop) (base start stop : Nat) (es : List TextEdit) : Prop :=
  ∀ x, start ≤ x → x < stop → hidden (base + x) → ∃ e ∈ es, e.range.start ≤ x ∧ x < e.range.stop

/-- Edits that are in order make one text of both. -/
theorem splice_eq {text : List Char} {stop cursor written : Nat} {es : List TextEdit}
    {rest rest' : List Char} (h : AlikeBut hidden (base + cursor) rest rest')
    (hordered : checkOrdered text cursor es = .ok ()) (hwidth : cursor + width rest ≤ stop)
    (htext : width text ≤ stop) (hhides : Hides hidden base cursor stop es) :
    (splice rest cursor written es).1 = (splice rest' cursor written es).1 := by
  induction es generalizing rest rest' cursor written with
  | nil =>
    rw [splice, splice]
    refine h.eq fun x hfirst hlast hx => ?_
    obtain ⟨y, rfl⟩ := Nat.exists_eq_add_of_le (Nat.le_trans (Nat.le_add_right _ _) hfirst)
    obtain ⟨e, he, -⟩ := hhides y (by omega) (by omega) hx
    cases he
  | cons e es ih =>
    obtain ⟨hfloor, hle, hend, hordered⟩ := checkOrdered_cons hordered
    obtain ⟨hshort, hinside⟩ := width_takeTo_le rest (e.range.start - cursor)
    have hkept : takeTo rest (e.range.start - cursor) = takeTo rest' (e.range.start - cursor) := by
      refine (h.takeTo _).eq fun x hfirst hlast hx => ?_
      obtain ⟨y, rfl⟩ := Nat.exists_eq_add_of_le (Nat.le_trans (Nat.le_add_right _ _) hfirst)
      obtain ⟨d, hd, hstart, -⟩ := hhides y (by omega) (by omega) hx
      rcases List.mem_cons.mp hd with rfl | hd
      · omega
      · have := le_start_of_checkOrdered hordered hd
        omega
    have hrest := h.dropTo (e.range.stop - cursor)
    rw [Nat.add_assoc, Nat.add_sub_cancel' (Nat.le_trans hfloor hle)] at hrest
    have hback : e.range.stop + width (dropTo rest (e.range.stop - cursor)) ≤ stop := by
      rcases width_dropTo rest (e.range.stop - cursor) with hzero | hsplit
      · omega
      · omega
    simp only [splice]
    rw [hkept, ih hrest hordered hback fun x hfirst hlast hx => ?_]
    obtain ⟨d, hd, hstart, hstop⟩ := hhides x (by omega) hlast hx
    rcases List.mem_cons.mp hd with rfl | hd
    · omega
    · exact ⟨d, hd, hstart, hstop⟩

/-- Edits of all that is hidden come to the same text, or fail alike. -/
theorem applyEdits_eq (h : AlikeBut hidden base cs ds) {es : List TextEdit}
    (hhides : Hides hidden base 0 (width cs) es) :
    (applyEdits cs es).map (·.1) = (applyEdits ds es).map (·.1) := by
  have hordered : orderEdits cs es = orderEdits ds es := by
    rw [orderEdits, orderEdits, checkOrdered_eq h]
  rw [applyEdits, applyEdits, ← hordered]
  cases horder : orderEdits cs es with
  | error e => rfl
  | ok ordered =>
    rw [orderEdits] at horder
    obtain ⟨_, hcheck, horder⟩ := bind_eq_ok_iff.mp horder
    cases horder
    refine congrArg Except.ok (splice_eq h hcheck (Nat.le_of_eq (Nat.zero_add _))
      (Nat.le_refl _) fun x hfirst hlast hx => ?_)
    obtain ⟨e, he, hrange⟩ := hhides x hfirst hlast hx
    exact ⟨e, List.mem_mergeSort.mpr he, hrange⟩

theorem width_of_slice? {start stop : Nat} {mid : List Char}
    (h : slice? cs start stop = some mid) : start + width mid = stop := by
  rw [slice?] at h
  split at h
  case isTrue => cases h
  case isFalse hle =>
    obtain ⟨⟨front, tail⟩, -, h⟩ := Option.bind_eq_some_iff.mp h
    obtain ⟨⟨middle, back⟩, hmid, h⟩ := Option.bind_eq_some_iff.mp h
    cases h
    have hwidth := (splitAt?_eq_some hmid).2
    omega

/-- The text of a span is the same after edits of all that is hidden in it. -/
theorem Layout.edited_eq (h : AlikeBut hidden 0 cs ds) {span : Range} {es : List TextEdit}
    (hhides : Hides hidden 0 span.start span.stop es) :
    Layout.edited cs span es = Layout.edited ds span es := by
  rw [Layout.edited, Layout.edited]
  cases hfind : es.find? (·.range.start < span.start) with
  | some e => rfl
  | none =>
    rcases h.slice?_cases span.start span.stop with
      ⟨hnone, hnone'⟩ | ⟨mid, mid', hsome, hsome', hmid⟩
    · rw [hnone, hnone']
    · rw [hsome, hsome']
      dsimp only
      rw [Nat.zero_add] at hmid
      have hwidth := width_of_slice? hsome
      have hstart := List.find?_eq_none.mp hfind
      refine applyEdits_eq hmid fun x _ hlast hx => ?_
      obtain ⟨e, he, hfirst, hbehind⟩ := hhides (span.start + x) (by omega) (by omega)
        (by rwa [Nat.zero_add])
      refine ⟨_, List.mem_map_of_mem he, ?_, ?_⟩
      · exact Nat.sub_le_of_le_add (by omega)
      · exact Nat.lt_sub_of_add_lt (by omega)

end

end CompilingProxy
