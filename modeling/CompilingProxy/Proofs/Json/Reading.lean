import CompilingProxy.Json.Document
import CompilingProxy.Proofs.Text.Utf8

/-!
# Reading what was written

Text reads back as itself from between its quotation marks.
-/

namespace CompilingProxy.JsonDocument

open Text

/-! ### Quoted characters -/

theorem hexValue?_hexDigit (n : Nat) :
    hexValue? (UInt8.ofNat (hexDigit n).toNat) = some (n % 16) ∧ (hexDigit n).toNat < 0x80 := by
  have hall : ∀ k < 16, hexValue? (UInt8.ofNat (Nat.digitChar k).toNat) = some k ∧
      (Nat.digitChar k).toNat < 0x80 := by decide
  exact hall (n % 16) (Nat.mod_lt _ (by decide))

theorem encodeScalar_toNat (c : Char) : encodeScalar c.toNat = String.utf8EncodeChar c := by
  have hbytes : encodeScalar c.toNat = bytes (String.singleton (Char.ofNat c.toNat)) := rfl
  rw [hbytes, bytes_eq, Char.ofNat_toNat, String.toList_singleton, List.flatMap_singleton]

/-- A backslash and what follows it are read as what they stand for. -/
theorem stringBytes_escape {fuel : Nat} {read bs encoded rest : Bytes}
    (h : escape (bs ++ rest) = .ok (encoded, rest)) :
    stringBytes (fuel + 1) read (0x5c :: bs ++ rest) =
      stringBytes fuel (encoded.reverse ++ read) rest := by
  rw [List.cons_append, stringBytes, if_neg (by decide), if_pos (by decide), h]
  rfl

/-- Other bytes are read as themselves. -/
theorem stringBytes_plain {fuel : Nat} {read bs rest : Bytes}
    (h : ∀ b ∈ bs, b ≠ 0x22 ∧ b ≠ 0x5c ∧ 0x20 ≤ b) :
    stringBytes (fuel + bs.length) read (bs ++ rest) =
      stringBytes fuel (bs.reverse ++ read) rest := by
  induction bs generalizing read with
  | nil => rfl
  | cons b bs ih =>
    obtain ⟨hquote, hbackslash, hcontrol⟩ := h b List.mem_cons_self
    rw [List.length_cons, ← Nat.add_assoc, List.cons_append, stringBytes,
      if_neg (by simpa using hquote), if_neg (by simpa using hbackslash),
      if_neg (UInt8.not_lt.mpr hcontrol), ih fun c hc => h c (List.mem_cons_of_mem _ hc),
      List.reverse_cons, List.append_assoc]
    rfl

/-- The bytes of a quoted character. -/
def quotedBytes (c : Char) : Bytes := (quoteChar c).flatMap String.utf8EncodeChar

/-- The escape of a control character stands for it. -/
theorem escape_control {c : Char} (h : c.val < 32) {rest : Bytes} :
    escape (0x75 :: 0x30 :: 0x30 :: UInt8.ofNat (hexDigit (c.toNat / 16)).toNat ::
      UInt8.ofNat (hexDigit c.toNat).toNat :: rest) = .ok (String.utf8EncodeChar c, rest) := by
  have hval : c.toNat < 32 := UInt32.lt_iff_toNat_lt.mp h
  have hzero : hexValue? 0x30 = some 0 := rfl
  have hhex : hexEscape (0x30 :: 0x30 :: UInt8.ofNat (hexDigit (c.toNat / 16)).toNat ::
      UInt8.ofNat (hexDigit c.toNat).toNat :: rest) = .ok (c.toNat, rest) := by
    rw [hexEscape, hzero, (hexValue?_hexDigit _).1, (hexValue?_hexDigit _).1]
    dsimp only
    congr 2
    omega
  have hlow : ¬(0xdc00 ≤ c.toNat && c.toNat ≤ 0xdfff) = true := by simp; omega
  have hhigh : ¬(0xd800 ≤ c.toNat && c.toNat ≤ 0xdbff) = true := by simp; omega
  rw [escape, hhex]
  dsimp only [bind, Except.bind]
  rw [if_neg hlow, if_neg hhigh, encodeScalar_toNat]
  rfl

theorem escape_letter : ∀ x ∈ letterEscapes,
    ['\\', x.2].flatMap String.utf8EncodeChar = [0x5c, UInt8.ofNat x.2.toNat] ∧
      ∀ rest, escape (UInt8.ofNat x.2.toNat :: rest) = .ok (String.utf8EncodeChar x.1, rest) := by
  intro x hx
  simp only [letterEscapes, List.mem_cons, List.not_mem_nil, or_false] at hx
  rcases hx with rfl | rfl | rfl | rfl | rfl | rfl | rfl <;> exact ⟨rfl, fun _ => rfl⟩

/-- A quoted character is an escape that stands for it, or the character itself. -/
theorem quotedBytes_cases (c : Char) :
    (∃ bs, quotedBytes c = 0x5c :: bs ∧
      ∀ rest, escape (bs ++ rest) = .ok (String.utf8EncodeChar c, rest)) ∨
    quotedBytes c = String.utf8EncodeChar c ∧
      ∀ b ∈ String.utf8EncodeChar c, b ≠ 0x22 ∧ b ≠ 0x5c ∧ 0x20 ≤ b := by
  rw [quotedBytes]
  rcases quoteChar_cases c with ⟨d, hd, hc⟩ | ⟨hsmall, hc⟩ | ⟨hlarge, hnone, hc⟩
  · obtain ⟨hbytes, hescape⟩ := escape_letter (c, d) hd
    rw [hc, hbytes]
    exact .inl ⟨_, rfl, hescape⟩
  · refine .inl ⟨[0x75, 0x30, 0x30, UInt8.ofNat (hexDigit (c.toNat / 16)).toNat,
      UInt8.ofNat (hexDigit c.toNat).toNat], ?_, fun _ => escape_control hsmall⟩
    have hhigh := utf8EncodeChar_of_ascii (hexValue?_hexDigit (c.toNat / 16)).2
    have hlow := utf8EncodeChar_of_ascii (hexValue?_hexDigit c.toNat).2
    rw [hc]
    simp only [List.flatMap_cons, List.flatMap_nil]
    rw [show c.val.toNat = c.toNat from rfl, hhigh, hlow]
    rfl
  · have hquote : c ≠ '"' := fun h => hnone '"' (by rw [h]; decide)
    have hbackslash : c ≠ '\\' := fun h => hnone '\\' (by rw [h]; decide)
    rw [hc]
    refine .inr ⟨List.flatMap_singleton _ _, fun b hb => ?_⟩
    by_cases hascii : c.toNat < 0x80
    · rw [utf8EncodeChar_of_ascii hascii, List.mem_singleton] at hb
      have hb' : b.toNat = c.toNat := by
        rw [hb, UInt8.toNat_ofNat_of_lt' (Nat.lt_trans hascii (by decide))]
      refine ⟨fun h => hquote ?_, fun h => hbackslash ?_, ?_⟩
      · rw [h] at hb'
        exact Char.toNat_inj.mp hb'.symm
      · rw [h] at hb'
        exact Char.toNat_inj.mp hb'.symm
      · rw [UInt8.le_iff_toNat_le, hb']
        exact Nat.not_lt.mp fun h => hlarge (UInt32.lt_iff_toNat_lt.mpr h)
    · have hb' := le_of_mem_utf8EncodeChar (Nat.not_lt.mp hascii) hb
      rw [UInt8.le_iff_toNat_le] at hb' ⊢
      have hbig : 0x80 ≤ b.toNat := hb'
      refine ⟨fun h => ?_, fun h => ?_, Nat.le_trans (by decide) hbig⟩
      · rw [h] at hbig
        exact absurd hbig (by decide)
      · rw [h] at hbig
        exact absurd hbig (by decide)

theorem stringBytes_quotedBytes (c : Char) :
    ∃ spent ≤ (quotedBytes c).length, ∀ fuel read rest,
      stringBytes (fuel + spent) read (quotedBytes c ++ rest) =
        stringBytes fuel ((String.utf8EncodeChar c).reverse ++ read) rest := by
  rcases quotedBytes_cases c with ⟨bs, hbytes, hescape⟩ | ⟨hbytes, hplain⟩
  · rw [hbytes]
    exact ⟨1, Nat.le_add_left _ _, fun _ _ rest => stringBytes_escape (hescape rest)⟩
  · rw [hbytes]
    exact ⟨_, Nat.le_refl _, fun _ _ _ => stringBytes_plain hplain⟩

/-! ### Quoted text -/

theorem stringBytes_quoted (cs : List Char) {fuel : Nat} {read rest : Bytes}
    (hfuel : (cs.flatMap quotedBytes).length < fuel) :
    stringBytes fuel read (cs.flatMap quotedBytes ++ 0x22 :: rest) =
      .ok (read.reverse ++ cs.flatMap String.utf8EncodeChar, rest) := by
  induction cs generalizing fuel read with
  | nil =>
    obtain ⟨fuel, rfl⟩ := Nat.exists_eq_add_of_lt hfuel
    simp [stringBytes]
  | cons c cs ih =>
    rw [List.flatMap_cons, List.length_append] at hfuel
    obtain ⟨spent, hspent, hstep⟩ := stringBytes_quotedBytes c
    obtain ⟨left, rfl⟩ : ∃ left, fuel = left + spent := ⟨fuel - spent, by omega⟩
    rw [List.flatMap_cons, List.append_assoc, hstep, ih (by omega), List.flatMap_cons,
      List.reverse_append, List.reverse_reverse, List.append_assoc]

theorem bytes_quoted (s : String) :
    bytes (quoted s) = 0x22 :: (s.toList.flatMap quotedBytes ++ [0x22]) := by
  rw [bytes_eq, quoted, String.toList_ofList, quote, List.flatMap_cons, List.flatMap_append,
    List.flatMap_assoc]
  rfl

/-- Text reads back as itself from behind its opening mark. -/
theorem stringText_quoted (s : String) (rest : Bytes) :
    stringText (s.toList.flatMap quotedBytes ++ 0x22 :: rest) = .ok (s, rest) := by
  have hfuel : (s.toList.flatMap quotedBytes).length <
      (s.toList.flatMap quotedBytes ++ 0x22 :: rest).length + 1 := by
    rw [List.length_append, List.length_cons]
    omega
  rw [stringText, stringBytes_quoted _ hfuel]
  dsimp only [bind, Except.bind]
  rw [List.reverse_nil, List.nil_append, ← bytes_eq, fromUTF8?_bytes]
  rfl

theorem skipSpace_of_not_isSpace {b : UInt8} {rest : Bytes} (h : isSpace b = false) :
    skipSpace (b :: rest) = b :: rest := by
  rw [skipSpace, List.dropWhile_cons_of_neg (by simp [h])]

theorem value_quoted {fuel depth : Nat} (s : String) (rest : Bytes) :
    value (fuel + 1) depth (bytes (quoted s) ++ rest) = (.string s, some rest) := by
  rw [bytes_quoted, List.cons_append, List.append_assoc, value,
    skipSpace_of_not_isSpace (by decide)]
  dsimp only
  rw [if_pos (by decide), List.singleton_append, stringText_quoted]
  rfl

end CompilingProxy.JsonDocument
