import Mathlib.Data.Prod.Lex
import Mathlib.Order.Monotone.Basic
import CompilingProxy.Proofs.Text.Line
import CompilingProxy.Proofs.Text.Stretch

/-!
# Looking up lines

The offsets at which the lines of a text begin are known in advance, and the line of an offset is
looked up among them by halving. Every step of the look-up that might fail is one here: going back
before the start of the text, cutting where no character begins, and looking for what is not there.
None of them does, and what is found is the position that is read off the text in front of the
offset. Along a text positions go up.
-/

namespace CompilingProxy

/-- The offsets at which the lines of a text begin, in order. -/
structure LineIndex where
  starts : List Nat

namespace LineIndex

/-- The greatest count of 32 bits in the place of a greater one. -/
def saturated (n : Nat) : Nat := min n (UInt32.size - 1)

/-- Where a list changes from entries that pass the test to entries that do not, by halving the
range in which the change is. -/
def partitionPoint (test : α → Bool) (entries : List α) (low high : Nat) : Nat :=
  if low < high then
    let middle := (low + high) / 2
    if entries[middle]?.any test then partitionPoint test entries (middle + 1) high
    else partitionPoint test entries low middle
  else low
termination_by high - low

/-- The offset, or the nearest one in front of it that falls between two characters. -/
def stepBack (text : List Char) : (offset : Nat) → Option Nat
  | 0 => if Text.isBoundary text 0 then some 0 else none
  | offset + 1 =>
    if Text.isBoundary text (offset + 1) then some (offset + 1) else stepBack text offset

/-- The offsets behind line breaks, for a text that begins at the offset that is given. -/
def behindBreaks (offset : Nat) : List Char → List Nat
  | [] => []
  | c :: cs =>
    if c = '\n' then (offset + 1) :: behindBreaks (offset + c.utf8Size) cs
    else behindBreaks (offset + c.utf8Size) cs

def ofText (text : List Char) : LineIndex := ⟨0 :: behindBreaks 0 text⟩

/-- The row of the last line that begins at the offset or before it. -/
def rowOf? (x : LineIndex) (offset : Nat) : Option Nat :=
  match partitionPoint (· ≤ offset) x.starts 0 x.starts.length with
  | 0 => none
  | row + 1 => some row

def point? (x : LineIndex) (text : List Char) (offset : Nat) : Option Point := do
  let offset := min offset (Text.width text)
  let row ← x.rowOf? offset
  let start ← x.starts[row]?
  if offset < start then none else return ⟨row, offset - start⟩

def position? (x : LineIndex) (text : List Char) (offset : Nat) : Option Position := do
  let offset ← stepBack text (min offset (Text.width text))
  let row ← x.rowOf? offset
  let start ← x.starts[row]?
  let line ← Text.slice? text start offset
  return ⟨saturated (row + 1), saturated (Text.width16 line + 1)⟩

/-! ### Halving -/

theorem partitionPoint_append {test : α → Bool} {front back : List α} {low high : Nat}
    (hfront : ∀ a ∈ front, test a) (hback : ∀ a ∈ back, test a = false)
    (hlow : low ≤ front.length) (hhigh : front.length ≤ high) :
    partitionPoint test (front ++ back) low high = front.length := by
  -- The change is never outside the range: an entry in the middle tells on which side it is.
  fun_induction partitionPoint test (front ++ back) low high with
  | case1 low high hlt middle htest ih =>
    apply ih _ hhigh
    by_contra hmiddle
    rw [List.getElem?_append_right (by omega), Option.any_eq_true] at htest
    obtain ⟨a, ha, htest⟩ := htest
    rw [hback a (List.mem_of_getElem? ha)] at htest
    cases htest
  | case2 low high hlt middle htest ih =>
    apply ih hlow
    by_contra hmiddle
    rw [List.getElem?_append_left (by omega), List.getElem?_eq_getElem (by omega)] at htest
    exact htest (hfront _ (List.getElem_mem _))
  | case3 low high hlt => omega

theorem stepBack_of_isBoundary {text : List Char} {floor offset : Nat}
    (hfloor : Text.isBoundary text floor) (hle : floor ≤ offset)
    (hinside : ∀ x, floor < x → x ≤ offset → Text.isBoundary text x = false) :
    stepBack text offset = some floor := by
  induction offset with
  | zero =>
    obtain rfl := Nat.le_zero.mp hle
    exact if_pos hfloor
  | succ offset ih =>
    by_cases hhere : floor = offset + 1
    · subst hhere
      exact if_pos hfloor
    · rw [stepBack, hinside (offset + 1) (by omega) (Nat.le_refl _)]
      exact ih (by omega) fun x hx hxo => hinside x hx (by omega)

end LineIndex

/-! ### Whole characters -/

namespace Text

theorem takeWhole_spec (text : List Char) (offset : Nat) : ∃ rest,
    text = takeWhole text offset ++ rest ∧ width (takeWhole text offset) ≤ offset ∧
      ∀ c ∈ rest.head?, offset < width (takeWhole text offset) + c.utf8Size := by
  induction text generalizing offset with
  | nil => exact ⟨[], rfl, Nat.zero_le _, by simp⟩
  | cons c cs ih =>
    by_cases hwhole : c.utf8Size ≤ offset
    · obtain ⟨rest, htext, hle, hlt⟩ := ih (offset - c.utf8Size)
      rw [takeWhole, if_pos hwhole]
      refine ⟨rest, congrArg (c :: ·) htext, ?_, ?_⟩
      · rw [width_cons]
        omega
      · intro d hd
        have hinside := hlt d hd
        rw [width_cons]
        omega
    · rw [takeWhole, if_neg hwhole]
      refine ⟨c :: cs, rfl, Nat.zero_le _, ?_⟩
      intro d hd
      obtain rfl := Option.some.inj hd
      rw [width_nil]
      omega

theorem takeWhole_append {front rest : List Char} {offset : Nat} (hle : width front ≤ offset)
    (hlt : ∀ c ∈ rest.head?, offset < width front + c.utf8Size) :
    takeWhole (front ++ rest) offset = front := by
  induction front generalizing offset with
  | nil =>
    cases rest with
    | nil => rfl
    | cons c rest =>
      have hinside := hlt c rfl
      rw [width_nil] at hinside
      rw [List.nil_append, takeWhole, if_neg (by omega)]
  | cons c front ih =>
    rw [width_cons] at hle hlt
    rw [List.cons_append, takeWhole, if_pos (by omega), ih (by omega)]
    intro d hd
    have hinside := hlt d hd
    omega

end Text

/-! ### Line starts -/

namespace LineIndex

open Text

theorem behindBreaks_append (offset : Nat) (front back : List Char) :
    behindBreaks offset (front ++ back) =
      behindBreaks offset front ++ behindBreaks (offset + width front) back := by
  induction front generalizing offset with
  | nil => rfl
  | cons c cs ih =>
    rw [List.cons_append, behindBreaks, behindBreaks, ih, width_cons, Nat.add_assoc]
    split <;> rfl

theorem length_behindBreaks (offset : Nat) (cs : List Char) :
    (behindBreaks offset cs).length = lineBreaks cs := by
  induction cs generalizing offset with
  | nil => rfl
  | cons c cs ih =>
    rw [behindBreaks, lineBreaks, List.count_cons, ← lineBreaks]
    split
    case isTrue hc => simp [hc, ih]
    case isFalse hc => simp [hc, ih]

theorem behindBreaks_of_notMem {offset : Nat} {line : List Char} (h : '\n' ∉ line) :
    behindBreaks offset line = [] := by
  rw [← List.length_eq_zero_iff, length_behindBreaks]
  exact List.count_eq_zero.mpr h

/-- No line begins within the first character of a text, or behind the end. -/
theorem bounds_of_mem_behindBreaks {offset start : Nat} {c : Char} {cs : List Char}
    (h : start ∈ behindBreaks offset (c :: cs)) :
    offset + c.utf8Size ≤ start ∧ start ≤ offset + width (c :: cs) := by
  induction cs generalizing offset c with
  | nil =>
    by_cases hc : c = '\n'
    · subst hc
      rw [behindBreaks, if_pos rfl] at h
      rw [List.mem_singleton.mp h]
      exact ⟨Nat.le_refl _, Nat.le_refl _⟩
    · rw [behindBreaks, if_neg hc] at h
      cases h
  | cons d ds ih =>
    have hlater : start ∈ behindBreaks (offset + c.utf8Size) (d :: ds) →
        offset + c.utf8Size ≤ start ∧ start ≤ offset + width (c :: d :: ds) := by
      intro h
      have hbounds := ih h
      simp only [width_cons] at hbounds ⊢
      omega
    by_cases hc : c = '\n'
    · subst hc
      rw [behindBreaks, if_pos rfl] at h
      rcases List.mem_cons.mp h with rfl | h
      · rw [width_cons]
        exact ⟨Nat.le_refl _, Nat.add_le_add_left (Nat.le_add_right _ _) _⟩
      · exact hlater h
    · rw [behindBreaks, if_neg hc] at h
      exact hlater h

theorem le_of_mem_behindBreaks {offset start : Nat} {cs : List Char}
    (h : start ∈ behindBreaks offset cs) : start ≤ offset + width cs := by
  cases cs with
  | nil => cases h
  | cons c cs => exact (bounds_of_mem_behindBreaks h).2

/-- The last line of a text begins where the part in front of it ends. -/
theorem getElem?_lineBreaks {before : List Char}
    (hbefore : before = [] ∨ ∃ lines, before = lines ++ ['\n']) :
    (0 :: behindBreaks 0 before)[lineBreaks before]? = some (width before) := by
  rcases hbefore with rfl | ⟨lines, rfl⟩
  · rfl
  · have hcount : lineBreaks (lines ++ ['\n']) = (behindBreaks 0 lines).length + 1 := by
      rw [length_behindBreaks, lineBreaks, List.count_append]
      rfl
    rw [behindBreaks_append, hcount, List.getElem?_cons_succ, List.getElem?_append_right
      (Nat.le_refl _), Nat.sub_self, width_append]
    simp [behindBreaks, show '\n'.utf8Size = 1 from rfl]

/-- A place in a text: what stands in front of its line, in front of it on the line, and the rest.
The offset is that of the place, or it falls inside the character behind the place or beyond the end
of the text. -/
structure Locates (text : List Char) (offset : Nat) (before line rest : List Char) : Prop where
  text_eq : text = before ++ line ++ rest
  unbroken : '\n' ∉ line
  begins : before = [] ∨ ∃ lines, before = lines ++ ['\n']
  le_offset : width (before ++ line) ≤ offset
  offset_lt : ∀ c ∈ rest.head?, offset < width (before ++ line) + c.utf8Size

variable {text before line rest : List Char} {offset : Nat}

theorem exists_locates (text : List Char) (offset : Nat) :
    ∃ before line rest, Locates text offset before line rest := by
  obtain ⟨rest, htext, hle, hlt⟩ := takeWhole_spec text offset
  obtain ⟨before, hcut, -, hunbroken, hbegins⟩ := exists_lastLine (takeWhole text offset)
  rw [hcut] at htext hle hlt
  exact ⟨before, _, rest, htext, hunbroken, hbegins, hle, hlt⟩

namespace Locates

theorem takeWhole_eq (h : Locates text offset before line rest) :
    takeWhole text offset = before ++ line := by
  rw [h.text_eq]
  exact takeWhole_append h.le_offset h.offset_lt

theorem lastLine_eq (h : Locates text offset before line rest) :
    lastLine (before ++ line) = line := by
  rw [lastLine_append h.unbroken]
  rcases h.begins with rfl | ⟨lines, rfl⟩
  · rfl
  · rw [lastLine_append_cons List.not_mem_nil, List.nil_append]

theorem lineBreaks_eq (h : Locates text offset before line rest) :
    lineBreaks (before ++ line) = lineBreaks before := by
  rw [lineBreaks, List.count_append, List.count_eq_zero.mpr h.unbroken, Nat.add_zero, lineBreaks]

theorem position_eq (h : Locates text offset before line rest) :
    position text offset = ⟨lineBreaks before + 1, width16 line + 1⟩ := by
  rw [position, h.takeWhole_eq, h.lastLine_eq, h.lineBreaks_eq]

/-- Beyond the end of a text is the same place as at its end. -/
theorem clamped (h : Locates text offset before line rest) :
    Locates text (min offset (width text)) before line rest := by
  refine { h with le_offset := Nat.le_min.mpr ⟨h.le_offset, ?_⟩, offset_lt := ?_ }
  · rw [h.text_eq, width_append (before ++ line) rest]
    exact Nat.le_add_right _ _
  · intro c hc
    exact Nat.lt_of_le_of_lt (Nat.min_le_left _ _) (h.offset_lt c hc)

theorem point_eq (h : Locates text offset before line rest) :
    point text offset = ⟨lineBreaks before, min offset (width text) - width before⟩ := by
  have hfront : (before ++ line).take ((before ++ line).length - line.length) = before := by
    simp
  rw [point, h.clamped.takeWhole_eq, h.lastLine_eq, h.lineBreaks_eq, hfront]

theorem row (h : Locates text offset before line rest) :
    (ofText text).rowOf? offset = some (lineBreaks before) ∧
      (ofText text).starts[lineBreaks before]? = some (width before) := by
  obtain ⟨rfl, hunbroken, hbegins, hle, hlt⟩ := h
  have hstarts : (ofText (before ++ line ++ rest)).starts =
      (0 :: behindBreaks 0 before) ++ behindBreaks (width (before ++ line)) rest := by
    rw [ofText, behindBreaks_append, behindBreaks_append, behindBreaks_of_notMem hunbroken,
      List.append_nil, Nat.zero_add, List.cons_append]
  have hlength : (0 :: behindBreaks 0 before).length = lineBreaks before + 1 := by
    rw [List.length_cons, length_behindBreaks]
  have hfront : ∀ start ∈ 0 :: behindBreaks 0 before, decide (start ≤ offset) = true := by
    intro start hstart
    rw [decide_eq_true_eq]
    rw [width_append] at hle
    rcases List.mem_cons.mp hstart with rfl | hstart
    · exact Nat.zero_le _
    · have hbound := le_of_mem_behindBreaks hstart
      omega
  have hback : ∀ start ∈ behindBreaks (width (before ++ line)) rest,
      decide (start ≤ offset) = false := by
    intro start hstart
    rw [decide_eq_false_iff_not]
    cases rest with
    | nil => cases hstart
    | cons c cs =>
      have hbound := (bounds_of_mem_behindBreaks hstart).1
      have hinside := hlt c rfl
      omega
  have hpoint := partitionPoint_append hfront hback (Nat.zero_le _)
    (Nat.le_add_right _ (behindBreaks (width (before ++ line)) rest).length)
  rw [← List.length_append, ← hstarts, hlength] at hpoint
  constructor
  · rw [rowOf?, hpoint]
  · rw [hstarts, List.getElem?_append_left (by omega)]
    exact getElem?_lineBreaks hbegins

/-- Between a place and the offset that it is looked up by no other character begins. -/
theorem stepBack_eq (h : Locates text offset before line rest) :
    stepBack text offset = some (width (before ++ line)) := by
  apply stepBack_of_isBoundary _ h.le_offset
  · intro x hx hxo
    rw [← Bool.not_eq_true, isBoundary_iff]
    rintro ⟨front, back, htext, rfl⟩
    -- Such a boundary would stand behind the character that the offset falls inside.
    obtain ⟨mid, rfl, hrest⟩ := exists_of_append_eq (h.text_eq.symm.trans htext) (Nat.le_of_lt hx)
    cases mid with
    | nil => simp at hx
    | cons c mid =>
      have hinside := h.offset_lt c (by rw [hrest]; rfl)
      rw [width_append _ (c :: mid), width_cons] at hxo
      omega
  · exact isBoundary_iff.mpr ⟨before ++ line, rest, h.text_eq, rfl⟩

theorem point?_eq (h : Locates text offset before line rest) :
    (ofText text).point? text offset =
      some ⟨lineBreaks before, min offset (width text) - width before⟩ := by
  have hle := h.clamped.le_offset
  rw [width_append] at hle
  obtain ⟨hrow, hstart⟩ := h.clamped.row
  rw [point?]
  dsimp only [bind, Option.bind]
  rw [hrow]
  dsimp only
  rw [hstart]
  exact if_neg (by omega)

theorem position?_eq (h : Locates text offset before line rest) :
    (ofText text).position? text offset =
      some ⟨saturated (lineBreaks before + 1), saturated (width16 line + 1)⟩ := by
  have hslice : slice? text (width before) (width (before ++ line)) = some line := by
    rw [h.text_eq, width_append]
    exact slice?_append before line rest
  have hplace : Locates text (width (before ++ line)) before line rest := by
    refine { h with le_offset := Nat.le_refl _, offset_lt := fun c hc => ?_ }
    exact Nat.lt_add_of_pos_right c.utf8Size_pos
  obtain ⟨hrow, hstart⟩ := hplace.row
  rw [position?, h.clamped.stepBack_eq]
  dsimp only [bind, Option.bind]
  rw [hrow]
  dsimp only
  rw [hstart]
  dsimp only
  rw [hslice]
  rfl

end Locates

end LineIndex

/-! ### Order -/

/-- Positions stand in the order of their lines, and on a line in the order of their columns. -/
def Position.place (p : Position) : ℕ ×ₗ ℕ := toLex (p.line, p.column)

namespace Text

theorem lineBreaks_le_width (cs : List Char) : lineBreaks cs ≤ width cs := by
  induction cs with
  | nil => exact Nat.le_refl _
  | cons c cs ih =>
    have hpos := c.utf8Size_pos
    rw [lineBreaks, List.count_cons, ← lineBreaks, width_cons]
    split <;> omega

theorem units16_pos (c : Char) : 0 < units16 c := by
  rw [units16]
  split <;> decide

theorem units16_le_utf8Size (c : Char) : units16 c ≤ c.utf8Size := by
  rw [units16]
  split
  case isTrue => exact c.utf8Size_pos
  case isFalse hwide =>
    have hval : 0x10000 ≤ c.val.toNat := Nat.not_lt.mp fun h => hwide (UInt32.lt_iff_toNat_lt.mpr h)
    have hbeyond (n : UInt32) (hn : n.toNat < 0x10000) : ¬c.val ≤ n := by
      rw [UInt32.le_iff_toNat_le]
      omega
    rw [Char.utf8Size, if_neg (hbeyond _ (by decide)), if_neg (hbeyond _ (by decide)),
      if_neg (hbeyond _ (by decide))]
    decide

theorem width16_le_width (cs : List Char) : width16 cs ≤ width cs := by
  induction cs with
  | nil => exact Nat.le_refl _
  | cons c cs ih => exact Nat.add_le_add (units16_le_utf8Size c) ih

theorem width16_append (front back : List Char) :
    width16 (front ++ back) = width16 front + width16 back := by
  induction front with
  | nil => exact (Nat.zero_add _).symm
  | cons c cs ih => rw [List.cons_append, width16, width16, ih, Nat.add_assoc]

theorem takeWhole_mono (text : List Char) {m n : Nat} (h : m ≤ n) :
    takeWhole text m <+: takeWhole text n := by
  induction text generalizing m n with
  | nil => exact List.prefix_rfl
  | cons c cs ih =>
    by_cases hm : c.utf8Size ≤ m
    · rw [takeWhole, takeWhole, if_pos hm, if_pos (Nat.le_trans hm h), List.prefix_cons_inj]
      exact ih (Nat.sub_le_sub_right h _)
    · rw [takeWhole, if_neg hm]
      exact List.nil_prefix

theorem width_takeWhole {text : List Char} {offset : Nat} (h : isBoundary text offset) :
    width (takeWhole text offset) = offset := by
  obtain ⟨front, back, rfl, rfl⟩ := isBoundary_iff.mp h
  rw [takeWhole_append (Nat.le_refl _) fun c _ => Nat.lt_add_of_pos_right c.utf8Size_pos]

def positionBehind (front : List Char) : Position :=
  ⟨lineBreaks front + 1, width16 (lastLine front) + 1⟩

theorem positionBehind_lt {front mid : List Char} (hmid : mid ≠ []) :
    (positionBehind front).place < (positionBehind (front ++ mid)).place := by
  rw [Position.place, Position.place, Prod.Lex.toLex_lt_toLex]
  by_cases hbreak : '\n' ∈ mid
  · left
    have hmore := List.count_pos_iff.mpr hbreak
    simp only [positionBehind, lineBreaks, List.count_append]
    omega
  · right
    have hsame := List.count_eq_zero.mpr hbreak
    have hwide : 0 < width16 mid := by
      cases mid with
      | nil => exact absurd rfl hmid
      | cons c mid => exact Nat.add_pos_left (units16_pos c) _
    simp only [positionBehind, lineBreaks, List.count_append, lastLine_append hbreak,
      width16_append]
    omega

theorem monotone_position (text : List Char) :
    Monotone fun offset => (position text offset).place := by
  intro m n hmn
  obtain ⟨mid, hmid⟩ := takeWhole_mono text hmn
  change (positionBehind (takeWhole text m)).place ≤ (positionBehind (takeWhole text n)).place
  rw [← hmid]
  by_cases hnone : mid = []
  · rw [hnone, List.append_nil]
  · exact le_of_lt (positionBehind_lt hnone)

theorem strictMonoOn_position (text : List Char) :
    StrictMonoOn (fun offset => (position text offset).place)
      {offset | isBoundary text offset} := by
  intro m hm n hn hmn
  obtain ⟨mid, hmid⟩ := takeWhole_mono text (Nat.le_of_lt hmn)
  change (positionBehind (takeWhole text m)).place < (positionBehind (takeWhole text n)).place
  rw [← hmid]
  apply positionBehind_lt
  rintro rfl
  have hwidth := congrArg width hmid
  rw [List.append_nil, width_takeWhole hm, width_takeWhole hn] at hwidth
  omega

end Text

/-- In a text whose length fits into 32 bits the look-up finds a position and a point for every
offset: the row counts the line breaks in front of the line, the column counts units of sixteen bits
and bytes from where it begins. Positions never go down along the text, and between characters they
go up. -/
theorem LineIndex.positions_exact (text : List Char) (hshort : Text.width text < UInt32.size - 1) :
    (∀ offset, ∃ before line rest, Locates text offset before line rest ∧
      (ofText text).position? text offset =
        some ⟨Text.lineBreaks before + 1, Text.width16 line + 1⟩ ∧
      (ofText text).point? text offset =
        some ⟨Text.lineBreaks before, min offset (Text.width text) - Text.width before⟩) ∧
    (∀ offset, (ofText text).position? text offset = some (Text.position text offset) ∧
      (ofText text).point? text offset = some (Text.point text offset)) ∧
    Monotone (fun offset => (Text.position text offset).place) ∧
    StrictMonoOn (fun offset => (Text.position text offset).place)
      {offset | Text.isBoundary text offset} ∧
    Set.InjOn (Text.position text) {offset | Text.isBoundary text offset} := by
  have hfound (offset : Nat) {before line rest : List Char}
      (h : Locates text offset before line rest) : (ofText text).position? text offset =
        some ⟨Text.lineBreaks before + 1, Text.width16 line + 1⟩ := by
    have hlines := Text.lineBreaks_le_width before
    have hcolumns := Text.width16_le_width line
    rw [h.text_eq, Text.width_append, Text.width_append] at hshort
    rw [h.position?_eq, saturated, saturated, Nat.min_eq_left (by omega),
      Nat.min_eq_left (by omega)]
  refine ⟨fun offset => ?_, fun offset => ?_, Text.monotone_position text,
    Text.strictMonoOn_position text, ?_⟩
  · obtain ⟨before, line, rest, h⟩ := exists_locates text offset
    exact ⟨before, line, rest, h, hfound offset h, h.point?_eq⟩
  · obtain ⟨before, line, rest, h⟩ := exists_locates text offset
    rw [hfound offset h, h.point?_eq, h.position_eq, h.point_eq]
    exact ⟨rfl, rfl⟩
  · intro m hm n hn hmn
    exact (Text.strictMonoOn_position text).injOn hm hn (congrArg Position.place hmn)

theorem LineIndex.positions_exact_wide :
    Text.width "a\n😀x".toList < UInt32.size - 1 ∧
      (ofText "a\n😀x".toList).position? "a\n😀x".toList 4 = some ⟨2, 1⟩ ∧
      (ofText "a\n😀x".toList).point? "a\n😀x".toList 4 = some ⟨1, 2⟩ ∧
      (ofText "a\n😀x".toList).position? "a\n😀x".toList 6 = some ⟨2, 3⟩ := by
  have hshort : Text.width "a\n😀x".toList < UInt32.size - 1 := by decide
  have hexact := (positions_exact "a\n😀x".toList hshort).2.1
  refine ⟨hshort, (hexact 4).1.trans ?_, (hexact 4).2.trans ?_, (hexact 6).1.trans ?_⟩ <;> decide

end CompilingProxy
