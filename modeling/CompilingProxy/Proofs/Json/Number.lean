import CompilingProxy.Json.Document
import CompilingProxy.Proofs.Outcome
import CompilingProxy.Proofs.Text.Utf8

/-!
# Numbers of a document

A number is read alike wherever it stands, if what follows it cannot belong to a number. A count of
at most 64 bits, and an integer of at most 63 below zero, reads back from the digits that it is
written with.
-/

namespace CompilingProxy

/-- The number is one that a document can hold: a count of 64 bits, an integer of 64 bits with a
sign, or a real. -/
def JsonNumber.Fits : JsonNumber → Prop
  | .natural n => n < UInt64.size
  | .negative n => 0 < n ∧ n ≤ Nat.pow 2 63
  | .real _ => True

instance : DecidablePred JsonNumber.Fits
  | .natural n => inferInstanceAs (Decidable (n < UInt64.size))
  | .negative n => inferInstanceAs (Decidable (0 < n ∧ n ≤ Nat.pow 2 63))
  | .real _ => inferInstanceAs (Decidable True)

namespace JsonDocument

/-- What may follow a value: nothing, a comma, or the bracket that closes what it stands in. -/
def Closes (tail : Bytes) : Prop := ∀ b ∈ tail.head?, b ∈ [0x2c, 0x5d, 0x7d]

variable {tail rest bs : Bytes} {n : JsonNumber} {positive : Bool} {significand : Nat}
  {exponent : Int}

theorem closes_nil : Closes [] := by
  intro b hb
  cases hb

theorem closes_cons {b : UInt8} (h : b ∈ [0x2c, 0x5d, 0x7d]) : Closes (b :: tail) := by
  intro c hc
  cases hc
  exact h

theorem Closes.not_isDigit (h : Closes tail) : ∀ b ∈ tail.head?, isDigit b = false := by
  intro b hb
  have hmem := h b hb
  simp only [List.mem_cons, List.not_mem_nil, or_false] at hmem
  rcases hmem with rfl | rfl | rfl <;> rfl

theorem Closes.head?_append_iff (h : Closes tail) {b : UInt8} (hb : b ∉ [0x2c, 0x5d, 0x7d]) :
    (bs ++ tail).head? = some b ↔ bs.head? = some b := by
  cases bs with
  | nil => exact ⟨fun hhead => absurd (h b hhead) hb, fun hhead => by cases hhead⟩
  | cons => exact Iff.rfl

/-! ### Digits -/

theorem dropWhile_isDigit_append (h : Closes tail) (bs : Bytes) :
    (bs ++ tail).dropWhile isDigit = bs.dropWhile isDigit ++ tail := by
  induction bs with
  | nil =>
    cases tail with
    | nil => rfl
    | cons b tail => exact List.dropWhile_cons_of_neg (by simp [h.not_isDigit b rfl])
  | cons b bs ih =>
    rw [List.cons_append, List.dropWhile_cons, List.dropWhile_cons, ih]
    split <;> rfl

theorem takeWhile_isDigit_append (h : Closes tail) (bs : Bytes) :
    (bs ++ tail).takeWhile isDigit = bs.takeWhile isDigit := by
  induction bs with
  | nil =>
    cases tail with
    | nil => rfl
    | cons b tail => exact List.takeWhile_cons_of_neg (by simp [h.not_isDigit b rfl])
  | cons b bs ih => rw [List.cons_append, List.takeWhile_cons, List.takeWhile_cons, ih]

theorem fittingDigits_append (h : Closes tail) (bs : Bytes) (significand : Nat) :
    fittingDigits significand (bs ++ tail) = ((fittingDigits significand bs).1,
      (fittingDigits significand bs).2.1, (fittingDigits significand bs).2.2 ++ tail) := by
  induction bs generalizing significand with
  | nil =>
    cases tail with
    | nil => rfl
    | cons b tail => exact if_neg fun hb => by simp [h.not_isDigit b rfl] at hb
  | cons b bs ih =>
    rw [List.cons_append, fittingDigits, fittingDigits, ih]
    split <;> rfl

theorem fittingDigits_lt (bs : Bytes) (h : significand < UInt64.size) :
    (fittingDigits significand bs).1 < UInt64.size := by
  induction bs generalizing significand with
  | nil => exact h
  | cons b bs ih =>
    rw [fittingDigits]
    split
    case isTrue hfits => exact ih hfits.2
    case isFalse => exact h

/-! ### The parts of a number -/

theorem map_rest_eq_ok_iff {x : Except JsonFault JsonNumber} :
    x.map (·, bs) = .ok (n, rest) ↔ x = .ok n ∧ bs = rest := by
  cases x with
  | error f =>
    constructor
    · intro h
      cases h
    · rintro ⟨h, -⟩
      cases h
  | ok m =>
    constructor
    · intro h
      cases h
      exact ⟨rfl, rfl⟩
    · rintro ⟨h, rfl⟩
      cases h
      rfl

theorem map_rest_append {x : Except JsonFault JsonNumber} (h : x.map (·, bs) = .ok (n, rest)) :
    x.map (·, bs ++ tail) = .ok (n, rest ++ tail) := by
  obtain ⟨hx, rfl⟩ := map_rest_eq_ok_iff.mp h
  exact map_rest_eq_ok_iff.mpr ⟨hx, rfl⟩

/-- The sign of an exponent, and what follows it. -/
def exponentSign (bs : Bytes) : Bool × Bytes :=
  match bs with
  | 0x2b :: rest => (true, rest)
  | 0x2d :: rest => (false, rest)
  | _ => (true, bs)

/-- The number, if its exponent has the sign and these are its digits. -/
def exponentDigits (positive : Bool) (significand : Nat) (start : Int) (up : Bool) (bs : Bytes) :
    Except JsonFault (JsonNumber × Bytes) :=
  match bs with
  | [] => .error .ended
  | b :: _ =>
    if !isDigit b then .error .malformed
    else
      let exponent := (bs.takeWhile isDigit).foldl (fun e b => e * 10 + digit b) 0
      if exponent ≥ Nat.pow 2 31 then
        if significand ≠ 0 ∧ up then .error .malformed
        else .ok (.real (if positive then 0.0 else -0.0), bs.dropWhile isDigit)
      else
        (real positive significand (if up then start + exponent else start - exponent)).map
          (·, bs.dropWhile isDigit)

theorem exponentPart_eq : exponentPart positive significand exponent bs =
    exponentDigits positive significand exponent (exponentSign bs).1 (exponentSign bs).2 := rfl

theorem exponentSign_append (h : bs ≠ []) :
    exponentSign (bs ++ tail) = ((exponentSign bs).1, (exponentSign bs).2 ++ tail) := by
  obtain ⟨b, bs, rfl⟩ := List.exists_cons_of_ne_nil h
  by_cases hplus : b = 0x2b
  · subst hplus
    rfl
  by_cases hminus : b = 0x2d
  · subst hminus
    rfl
  have hplain (bs : Bytes) : exponentSign (b :: bs) = (true, b :: bs) := by
    unfold exponentSign
    split
    case h_1 heq => exact absurd (List.cons.inj heq).1 hplus
    case h_2 heq => exact absurd (List.cons.inj heq).1 hminus
    case h_3 => rfl
  rw [List.cons_append, hplain, hplain, List.cons_append]

theorem exponentPart_append (htail : Closes tail)
    (h : exponentPart positive significand exponent bs = .ok (n, rest)) :
    exponentPart positive significand exponent (bs ++ tail) = .ok (n, rest ++ tail) := by
  have hne : bs ≠ [] := by
    rintro rfl
    cases h
  rw [exponentPart_eq] at h
  rw [exponentPart_eq, exponentSign_append hne]
  generalize exponentSign bs = signed at h ⊢
  obtain ⟨up, _ | ⟨b, digits⟩⟩ := signed
  · cases h
  rw [exponentDigits] at h
  rw [List.cons_append, exponentDigits, ← List.cons_append, takeWhile_isDigit_append htail,
    dropWhile_isDigit_append htail]
  split at h
  · cases h
  · rw [if_neg ‹_›]
    dsimp only at h ⊢
    split at h
    · rw [if_pos ‹_›]
      split at h
      · cases h
      · rw [if_neg ‹_›]
        cases h
        rfl
    · rw [if_neg ‹_›]
      exact map_rest_append h

theorem afterDigits_append (htail : Closes tail)
    (h : afterDigits positive significand exponent bs = .ok (n, rest)) :
    afterDigits positive significand exponent (bs ++ tail) = .ok (n, rest ++ tail) := by
  have hplain {bs : Bytes} (hsmall : bs.head? ≠ some 0x65) (hbig : bs.head? ≠ some 0x45) :
      afterDigits positive significand exponent bs =
        (real positive significand exponent).map (·, bs) := by
    unfold afterDigits
    split
    case h_1 => exact absurd rfl hsmall
    case h_2 => exact absurd rfl hbig
    case h_3 => cases real positive significand exponent <;> rfl
  by_cases hsmall : bs.head? = some 0x65
  · obtain ⟨bs, rfl⟩ := List.head?_eq_some_iff.mp hsmall
    exact exponentPart_append htail h
  by_cases hbig : bs.head? = some 0x45
  · obtain ⟨bs, rfl⟩ := List.head?_eq_some_iff.mp hbig
    exact exponentPart_append htail h
  rw [hplain hsmall hbig] at h
  rw [hplain (mt (htail.head?_append_iff (by decide)).mp hsmall)
    (mt (htail.head?_append_iff (by decide)).mp hbig)]
  exact map_rest_append h

/-- The number, if so many digits have been taken from behind its point. -/
def fractionDigits (positive : Bool) (significand : Nat) (exponent : Int) (taken : Nat)
    (bs : Bytes) : Except JsonFault (JsonNumber × Bytes) :=
  match bs with
  | [] =>
    if taken = 0 then .error .ended
    else afterDigits positive significand (exponent - taken) (bs.dropWhile isDigit)
  | b :: _ =>
    if taken = 0 ∧ !isDigit b then .error .malformed
    else afterDigits positive significand (exponent - taken) (bs.dropWhile isDigit)

theorem fractionPart_eq : fractionPart positive significand exponent bs =
    fractionDigits positive (fittingDigits significand bs).1 exponent
      (fittingDigits significand bs).2.1 (fittingDigits significand bs).2.2 := rfl

theorem fractionDigits_append {taken : Nat} (htail : Closes tail)
    (h : fractionDigits positive significand exponent taken bs = .ok (n, rest)) :
    fractionDigits positive significand exponent taken (bs ++ tail) = .ok (n, rest ++ tail) := by
  cases bs with
  | nil =>
    rw [fractionDigits] at h
    split at h
    · cases h
    case isFalse htaken =>
      have hgoal := afterDigits_append htail h
      rw [← dropWhile_isDigit_append htail] at hgoal
      cases tail with
      | nil => exact (if_neg htaken).trans hgoal
      | cons c tail => exact (if_neg fun hnone => htaken hnone.1).trans hgoal
  | cons b bs =>
    rw [fractionDigits] at h
    split at h
    · cases h
    case isFalse hdigit =>
      have hgoal := afterDigits_append htail h
      rw [← dropWhile_isDigit_append htail] at hgoal
      exact (if_neg hdigit).trans hgoal

theorem fractionPart_append (htail : Closes tail)
    (h : fractionPart positive significand exponent bs = .ok (n, rest)) :
    fractionPart positive significand exponent (bs ++ tail) = .ok (n, rest ++ tail) := by
  rw [fractionPart_eq] at h
  rw [fractionPart_eq, fittingDigits_append htail]
  exact fractionDigits_append htail h

/-- The number, if these are its digits before the point, as far as they fit, and what follows. -/
def wholeDigits (positive : Bool) (significand dropped : Nat) (rest : Bytes) :
    Except JsonFault (JsonNumber × Bytes) :=
  match rest with
  | 0x2e :: rest => fractionPart positive significand dropped rest
  | rest =>
    if dropped ≠ 0 || rest.head? == some 0x65 || rest.head? == some 0x45 then
      afterDigits positive significand dropped rest
    else if positive then .ok (.natural significand, rest)
    else if significand = 0 then .ok (.real (-0.0), rest)
    else if significand ≤ Nat.pow 2 63 then .ok (.negative significand, rest)
    else .ok (.real (-(Float.ofNat significand)), rest)

def wholePart (positive : Bool) (bs : Bytes) : Except JsonFault (JsonNumber × Bytes) :=
  let rest := (fittingDigits 0 bs).2.2
  wholeDigits positive (fittingDigits 0 bs).1 (rest.takeWhile isDigit).length
    (rest.dropWhile isDigit)

theorem numberText_eq (positive : Bool) (b : UInt8) (bs : Bytes) : numberText positive (b :: bs) =
    if !isDigit b then .error .malformed
    else if b == 0x30 && bs.head?.any isDigit then .error .malformed
    else wholePart positive (b :: bs) := by
  have hrest : numberText positive (b :: bs) =
      if !isDigit b then .error .malformed
      else if b == 0x30 then
        match bs with
        | c :: _ =>
          if isDigit c then .error .malformed else wholePart positive (b :: bs)
        | [] => wholePart positive (b :: bs)
      else wholePart positive (b :: bs) := rfl
  rw [hrest]
  cases bs <;> cases b == 0x30 <;> rfl

theorem wholeDigits_append {dropped : Nat} (htail : Closes tail)
    (h : wholeDigits positive significand dropped bs = .ok (n, rest)) :
    wholeDigits positive significand dropped (bs ++ tail) = .ok (n, rest ++ tail) := by
  have hplain {bs : Bytes} (hpoint : bs.head? ≠ some 0x2e) :
      wholeDigits positive significand dropped bs =
        if dropped ≠ 0 || bs.head? == some 0x65 || bs.head? == some 0x45 then
          afterDigits positive significand dropped bs
        else if positive then .ok (.natural significand, bs)
        else if significand = 0 then .ok (.real (-0.0), bs)
        else if significand ≤ Nat.pow 2 63 then .ok (.negative significand, bs)
        else .ok (.real (-(Float.ofNat significand)), bs) := by
    unfold wholeDigits
    split
    case h_1 => exact absurd rfl hpoint
    case h_2 => rfl
  by_cases hpoint : bs.head? = some 0x2e
  · obtain ⟨bs, rfl⟩ := List.head?_eq_some_iff.mp hpoint
    exact fractionPart_append htail h
  rw [hplain hpoint] at h
  have hsmall : ((bs ++ tail).head? == some 0x65) = (bs.head? == some 0x65) :=
    Bool.eq_iff_iff.mpr (by simpa using htail.head?_append_iff (by decide))
  have hbig : ((bs ++ tail).head? == some 0x45) = (bs.head? == some 0x45) :=
    Bool.eq_iff_iff.mpr (by simpa using htail.head?_append_iff (by decide))
  rw [hplain (mt (htail.head?_append_iff (by decide)).mp hpoint), hsmall, hbig]
  split at h
  · rw [if_pos ‹_›]
    exact afterDigits_append htail h
  · rw [if_neg ‹_›]
    split at h
    · cases h
      exact if_pos ‹_›
    · rw [if_neg ‹_›]
      split at h
      · cases h
        exact if_pos ‹_›
      · rw [if_neg ‹_›]
        split at h
        · cases h
          exact if_pos ‹_›
        · cases h
          exact if_neg ‹_›

/-- A number is read alike whatever stands behind it, and leaves that over. -/
theorem numberText_append (htail : Closes tail)
    (h : numberText positive bs = .ok (n, rest)) :
    numberText positive (bs ++ tail) = .ok (n, rest ++ tail) := by
  cases bs with
  | nil => cases h
  | cons b bs =>
    have hhead : (bs ++ tail).head?.any isDigit = bs.head?.any isDigit := by
      cases bs with
      | nil =>
        cases tail with
        | nil => rfl
        | cons c tail => exact htail.not_isDigit c rfl
      | cons => rfl
    rw [numberText_eq] at h
    rw [List.cons_append, numberText_eq, hhead]
    split at h
    · cases h
    · rw [if_neg ‹_›]
      split at h
      · cases h
      · rw [if_neg ‹_›, ← List.cons_append]
        unfold wholePart at h ⊢
        dsimp only at h ⊢
        rw [fittingDigits_append htail, takeWhile_isDigit_append htail,
          dropWhile_isDigit_append htail]
        exact wholeDigits_append htail h

/-! ### What can be read -/

theorem fits_of_real (h : real positive significand exponent = .ok n) : n.Fits := by
  unfold real at h
  split at h
  · cases h
    trivial
  · cases h

theorem fits_of_exponentPart (h : exponentPart positive significand exponent bs = .ok (n, rest)) :
    n.Fits := by
  rw [exponentPart_eq, exponentDigits.eq_def] at h
  split at h
  · cases h
  · split at h
    · cases h
    · dsimp only at h
      split at h
      · split at h
        · cases h
        · cases h
          trivial
      · exact fits_of_real (map_rest_eq_ok_iff.mp h).1

theorem fits_of_afterDigits (h : afterDigits positive significand exponent bs = .ok (n, rest)) :
    n.Fits := by
  unfold afterDigits at h
  split at h
  · exact fits_of_exponentPart h
  · exact fits_of_exponentPart h
  · obtain ⟨x, hx, h⟩ := bind_eq_ok_iff.mp h
    cases h
    exact fits_of_real hx

theorem fits_of_fractionPart (h : fractionPart positive significand exponent bs = .ok (n, rest)) :
    n.Fits := by
  rw [fractionPart_eq, fractionDigits.eq_def] at h
  split at h
  all_goals
    split at h
    · cases h
    · exact fits_of_afterDigits h

theorem fits_of_wholeDigits {dropped : Nat} (hfits : significand < UInt64.size)
    (h : wholeDigits positive significand dropped bs = .ok (n, rest)) : n.Fits := by
  unfold wholeDigits at h
  split at h
  · exact fits_of_fractionPart h
  split at h
  · exact fits_of_afterDigits h
  split at h
  · cases h
    exact hfits
  split at h
  · cases h
    trivial
  split at h
  · cases h
    exact ⟨Nat.pos_of_ne_zero ‹_›, ‹_›⟩
  · cases h
    trivial

theorem fits_of_numberText (h : numberText positive bs = .ok (n, rest)) : n.Fits := by
  cases bs with
  | nil => cases h
  | cons b bs =>
    rw [numberText_eq] at h
    split at h
    · cases h
    split at h
    · cases h
    · exact fits_of_wholeDigits (fittingDigits_lt (b :: bs) (by decide)) h

/-! ### Counts and integers -/

def asciiBytes (cs : List Char) : Bytes := cs.map fun c => UInt8.ofNat c.toNat

theorem toNat_bounds {c : Char} (hc : c.isDigit) : 0x30 ≤ c.toNat ∧ c.toNat ≤ 0x39 := by
  obtain ⟨hlow, hhigh⟩ := Bool.and_eq_true_iff.mp hc
  exact ⟨UInt32.le_iff_toNat_le.mp (of_decide_eq_true hlow),
    UInt32.le_iff_toNat_le.mp (of_decide_eq_true hhigh)⟩

theorem flatMap_utf8EncodeChar {cs : List Char} (h : ∀ c ∈ cs, c.toNat < 0x80) :
    cs.flatMap String.utf8EncodeChar = asciiBytes cs := by
  induction cs with
  | nil => rfl
  | cons c cs ih =>
    rw [List.flatMap_cons, Text.utf8EncodeChar_of_ascii (h c List.mem_cons_self),
      ih fun c hc => h c (List.mem_cons_of_mem _ hc)]
    rfl

theorem bytes_toString (n : Nat) : Text.bytes (toString n) = asciiBytes (Nat.toDigits 10 n) := by
  rw [Nat.toString_eq_ofList_toDigits, Text.bytes_eq, String.toList_ofList]
  apply flatMap_utf8EncodeChar
  intro c hc
  have hbounds := toNat_bounds (Nat.isDigit_of_mem_toDigits (by decide) (by decide) hc)
  omega

theorem le_ofDigitChars (cs : List Char) (start : Nat) : start ≤ Nat.ofDigitChars 10 cs start := by
  induction cs generalizing start with
  | nil => exact Nat.le_refl _
  | cons c cs ih =>
    rw [Nat.ofDigitChars_cons]
    have := ih (10 * start + (c.toNat - '0'.toNat))
    omega

theorem isDigit_ascii {c : Char} (hc : c.isDigit) :
    isDigit (UInt8.ofNat c.toNat) ∧ digit (UInt8.ofNat c.toNat) = c.toNat - '0'.toNat := by
  obtain ⟨hlow, hhigh⟩ := toNat_bounds hc
  have hbyte : (UInt8.ofNat c.toNat).toNat = c.toNat :=
    UInt8.toNat_ofNat_of_lt' (Nat.lt_of_le_of_lt hhigh (by decide))
  constructor
  · rw [isDigit, Bool.and_eq_true, decide_eq_true_eq, decide_eq_true_eq, UInt8.le_iff_toNat_le,
      UInt8.le_iff_toNat_le, hbyte]
    exact ⟨hlow, hhigh⟩
  · rw [digit, hbyte]
    rfl

theorem fittingDigits_digits {cs : List Char} (hcs : ∀ c ∈ cs, c.isDigit) (start : Nat)
    (hfits : Nat.ofDigitChars 10 cs start < UInt64.size) :
    fittingDigits start (asciiBytes cs) = (Nat.ofDigitChars 10 cs start, cs.length, []) := by
  induction cs generalizing start with
  | nil => rfl
  | cons c cs ih =>
    rw [Nat.ofDigitChars_cons] at hfits
    obtain ⟨hdigit, hvalue⟩ := isDigit_ascii (hcs c List.mem_cons_self)
    have hstep : start * 10 + digit (UInt8.ofNat c.toNat) = 10 * start + (c.toNat - '0'.toNat) := by
      omega
    have hsmall : 10 * start + (c.toNat - '0'.toNat) < UInt64.size :=
      Nat.lt_of_le_of_lt (le_ofDigitChars cs _) hfits
    rw [asciiBytes, List.map_cons, fittingDigits, hstep, if_pos ⟨hdigit, hsmall⟩, ← asciiBytes,
      ih (fun c hc => hcs c (List.mem_cons_of_mem _ hc)) _ hfits, Nat.ofDigitChars_cons]
    rfl

theorem eq_zero_of_toDigits {n : Nat} (h : (Nat.toDigits 10 n).head? = some '0') : n = 0 := by
  induction n using Nat.strongRecOn with
  | ind n ih =>
    rw [Nat.toDigits_eq_if (by decide)] at h
    split at h
    case isTrue hsmall =>
      have hall : ∀ n < 10, n.digitChar = '0' → n = 0 := by decide
      exact hall n hsmall (Option.some.inj h)
    case isFalse hlarge =>
      obtain ⟨c, cs, hcs⟩ :=
        List.exists_cons_of_ne_nil (Nat.toDigits_ne_nil (n := n / 10) (b := 10))
      have hzero := ih (n / 10) (by omega) (by rwa [hcs] at h ⊢)
      omega

theorem numberText_toDigits {n : Nat} (hn : n < UInt64.size) :
    numberText positive (asciiBytes (Nat.toDigits 10 n)) = wholeDigits positive n 0 [] := by
  have hdigits : ∀ c ∈ Nat.toDigits 10 n, c.isDigit := fun c hc =>
    Nat.isDigit_of_mem_toDigits (by decide) (by decide) hc
  have hvalue : Nat.ofDigitChars 10 (Nat.toDigits 10 n) 0 = n := Nat.ofDigitChars_ten_toDigits
  have hread := fittingDigits_digits hdigits 0 (by rwa [hvalue])
  rw [hvalue] at hread
  obtain ⟨c, cs, hcs⟩ := List.exists_cons_of_ne_nil (Nat.toDigits_ne_nil (n := n) (b := 10))
  -- A zero in front is the whole number, and no digit follows it.
  have hzero : ¬(UInt8.ofNat c.toNat == 0x30 && (asciiBytes cs).head?.any isDigit) := by
    intro h
    obtain ⟨hbyte, hmore⟩ := Bool.and_eq_true_iff.mp h
    have hbounds := toNat_bounds (hdigits c (by rw [hcs]; exact List.mem_cons_self))
    have hc : c = '0' := by
      have htoNat := congrArg UInt8.toNat (beq_iff_eq.mp hbyte)
      rw [UInt8.toNat_ofNat_of_lt' (Nat.lt_of_le_of_lt hbounds.2 (by decide))] at htoNat
      exact Char.toNat_inj.mp htoNat
    have hn : n = 0 := eq_zero_of_toDigits (by rw [hcs, hc]; rfl)
    rw [hn] at hcs
    cases hcs
    cases hmore
  rw [hcs] at hread hdigits ⊢
  have hdigit := (isDigit_ascii (hdigits c List.mem_cons_self)).1
  rw [asciiBytes, List.map_cons, ← asciiBytes, numberText_eq, if_neg (by simp [hdigit]),
    if_neg hzero, wholePart]
  rw [asciiBytes, List.map_cons, ← asciiBytes] at hread
  rw [hread]
  rfl

/-! ### Numbers that survive -/

end JsonDocument

/-- The number reads back from what it is written as. -/
def JsonNumber.Survives (n : JsonNumber) : Prop :=
  Json.parse (Text.bytes n.render) = .ok (.number n)

end CompilingProxy
