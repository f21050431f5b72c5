/-!
# Byte offsets in text

Offsets into a module's text count bytes of its UTF-8 form. An offset is usable only where a
character begins or the text ends, so cutting text at an offset may fail, and `splitAt?` is the one
place that decides it.
-/

namespace CompilingProxy.Text

/-- The bytes that the characters take in UTF-8. -/
def width : List Char → Nat
  | [] => 0
  | c :: cs => c.utf8Size + width cs

@[simp] theorem width_nil : width [] = 0 := rfl

@[simp] theorem width_cons (c : Char) (cs : List Char) : width (c :: cs) = c.utf8Size + width cs :=
  rfl

@[simp] theorem width_append (as bs : List Char) : width (as ++ bs) = width as + width bs := by
  induction as with
  | nil => simp
  | cons c as ih => simp [ih, Nat.add_assoc]

/-- Cuts the characters at a byte offset, if one begins there or the text ends there. -/
def splitAt? : List Char → Nat → Option (List Char × List Char)
  | cs, 0 => some ([], cs)
  | [], _ + 1 => none
  | c :: cs, n + 1 =>
    if c.utf8Size ≤ n + 1 then
      (splitAt? cs (n + 1 - c.utf8Size)).map fun (front, back) => (c :: front, back)
    else none

/-- Whether the offset falls between two characters, before the first or after the last. -/
def isBoundary (cs : List Char) (offset : Nat) : Bool :=
  (splitAt? cs offset).isSome

theorem splitAt?_eq_some {cs front back : List Char} {offset : Nat}
    (h : splitAt? cs offset = some (front, back)) : cs = front ++ back ∧ width front = offset := by
  fun_induction splitAt? cs offset generalizing front back with
  | case1 cs =>
    simp only [Option.some.injEq, Prod.mk.injEq] at h
    obtain ⟨rfl, rfl⟩ := h
    simp
  | case2 => simp at h
  | case3 c cs n hle ih =>
    obtain ⟨⟨f, b⟩, hfb, heq⟩ := Option.map_eq_some_iff.1 h
    simp only [Prod.mk.injEq] at heq
    obtain ⟨rfl, rfl⟩ := heq
    obtain ⟨rfl, hw⟩ := ih hfb
    simp only [List.cons_append, width_cons, hw, true_and]
    omega
  | case4 => simp at h

theorem splitAt?_width_append (front back : List Char) :
    splitAt? (front ++ back) (width front) = some (front, back) := by
  induction front with
  | nil => cases back <;> rfl
  | cons c front ih =>
    have hpos := c.utf8Size_pos
    obtain ⟨n, hn⟩ : ∃ n, c.utf8Size + width front = n + 1 :=
      ⟨c.utf8Size + width front - 1, by omega⟩
    simp only [List.cons_append, width_cons, hn, splitAt?]
    rw [if_pos (by omega), show n + 1 - c.utf8Size = width front by omega, ih]
    rfl

/-- The characters from one byte offset to another; none when an end splits a character, lies past
the text, or the ends are out of order. -/
def slice? (cs : List Char) (start stop : Nat) : Option (List Char) :=
  if stop < start then none
  else do
    let (_, tail) ← splitAt? cs start
    let (middle, _) ← splitAt? tail (stop - start)
    return middle

/-- The characters of a range, empty where `slice?` has none. -/
def slice (cs : List Char) (start stop : Nat) : List Char :=
  (slice? cs start stop).getD []

/-- What stands from the offset to the end, empty where the offset cannot be cut at. -/
def dropTo (cs : List Char) (offset : Nat) : List Char :=
  match splitAt? cs offset with
  | some (_, back) => back
  | none => []

/-- What stands before the offset, empty where the offset cannot be cut at. -/
def takeTo (cs : List Char) (offset : Nat) : List Char :=
  match splitAt? cs offset with
  | some (front, _) => front
  | none => []

end CompilingProxy.Text
