import CompilingProxy.Text.Quoted
import CompilingProxy.Analysis.Basic

/-!
# What literals denote

A literal denotes a row of UTF-16 code units, in the strict mode that modules are read in. Text that
is quoted for a script denotes itself, character by character, so that it denotes the same as the
literal that it was taken from exactly when that has no escapes.
-/

namespace CompilingProxy.Text

/-! ### Code units -/

def unitsOfPoint (n : Nat) : List Nat :=
  if n < 0x10000 then [n] else [0xd800 + (n - 0x10000) / 0x400, 0xdc00 + (n - 0x10000) % 0x400]

def codeUnits (c : Char) : List Nat := unitsOfPoint c.toNat

theorem length_unitsOfPoint (n : Nat) :
    1 ≤ (unitsOfPoint n).length ∧ (unitsOfPoint n).length ≤ 2 := by
  rw [unitsOfPoint]
  split <;> simp

theorem length_le_codeUnits (cs : List Char) : cs.length ≤ (cs.flatMap codeUnits).length := by
  induction cs with
  | nil => exact Nat.le_refl _
  | cons c cs ih =>
    have hpos : 1 ≤ (codeUnits c).length := (length_unitsOfPoint _).1
    rw [List.flatMap_cons, List.length_append, List.length_cons]
    omega

/-! ### Escapes -/

def hexDigit? (c : Char) : Option Nat :=
  if '0' ≤ c ∧ c ≤ '9' then some (c.toNat - '0'.toNat)
  else if 'a' ≤ c ∧ c ≤ 'f' then some (c.toNat - 'a'.toNat + 10)
  else if 'A' ≤ c ∧ c ≤ 'F' then some (c.toNat - 'A'.toNat + 10)
  else none

def hexNumber? (cs : List Char) : Option Nat :=
  cs.foldlM (fun n c => (hexDigit? c).map (16 * n + ·)) 0

/-- The number that the first digits make, so many of them. -/
def fixedHex? (count : Nat) (cs : List Char) : Option Nat :=
  if count ≤ cs.length then hexNumber? (cs.take count) else none

def isLineEnd (c : Char) : Bool := c == '\n' || c == '\r' || c == '\u2028' || c == '\u2029'

/-- The letters that stand for a character of their own behind a backslash. -/
def letterUnits : List (Char × List Nat) :=
  [('b', [8]), ('t', [9]), ('n', [10]), ('v', [11]), ('f', [12]), ('r', [13])]

/-- What an escape denotes, and how many characters it has behind the backslash. A line that is
continued denotes nothing. -/
def escaped? : List Char → Option (List Nat × Nat)
  | [] => none
  | '\r' :: '\n' :: _ => some ([], 2)
  | 'x' :: cs => (fixedHex? 2 cs).map fun n => ([n], 3)
  | 'u' :: '\x7b' :: cs =>
    let digits := cs.takeWhile fun c => (hexDigit? c).isSome
    if digits.isEmpty || cs[digits.length]? != some '\x7d' then none
    else ((hexNumber? digits).filter (· ≤ 0x10ffff)).map fun n =>
      (unitsOfPoint n, digits.length + 3)
  | 'u' :: cs => (fixedHex? 4 cs).map fun n => ([n], 5)
  | '0' :: cs => if cs.head?.any Char.isDigit then none else some ([0], 1)
  | c :: _ =>
    if c.isDigit then none
    else if isLineEnd c then some ([], 1)
    else some ((letterUnits.lookup c).getD (codeUnits c), 1)

theorem le_of_fixedHex? {count n : Nat} {cs : List Char} (h : fixedHex? count cs = some n) :
    count ≤ cs.length := by
  rw [fixedHex?] at h
  split at h
  case isTrue hle => exact hle
  case isFalse => cases h

theorem length_letter_le (c : Char) :
    ((letterUnits.lookup c).getD (codeUnits c)).length ≤ (codeUnits c).length := by
  have hletters : ∀ x ∈ letterUnits, x.2.length ≤ 1 := by decide
  have hpos : 1 ≤ (codeUnits c).length := (length_unitsOfPoint _).1
  cases hletter : letterUnits.lookup c with
  | none => exact Nat.le_refl _
  | some units =>
    obtain ⟨front, back, heq, -⟩ := List.lookup_eq_some_iff.mp hletter
    exact Nat.le_trans (hletters (c, units) (by rw [heq]; simp)) hpos

/-- An escape denotes no more than the characters that it has behind the backslash. -/
theorem escaped?_le {cs : List Char} {us : List Nat} {n : Nat} (h : escaped? cs = some (us, n)) :
    us.length ≤ ((cs.take n).flatMap codeUnits).length := by
  -- An escape with enough characters, and as many of them in the text, is long enough.
  have hlong (hn : n ≤ cs.length) (hus : us.length ≤ n) :
      us.length ≤ ((cs.take n).flatMap codeUnits).length := by
    have hle := length_le_codeUnits (cs.take n)
    rw [List.length_take_of_le hn] at hle
    exact Nat.le_trans hus hle
  rw [escaped?.eq_def] at h
  split at h
  case h_1 => cases h
  case h_2 =>
    cases h
    exact Nat.zero_le _
  case h_3 =>
    obtain ⟨m, hm, heq⟩ := Option.map_eq_some_iff.mp h
    have hle := le_of_fixedHex? hm
    cases heq
    exact hlong (by rw [List.length_cons]; omega) (by simp)
  case h_4 rest =>
    dsimp only at h
    split at h
    case isTrue => cases h
    case isFalse hclosed =>
      obtain ⟨m, -, heq⟩ := Option.map_eq_some_iff.mp h
      simp only [Bool.or_eq_true, bne_iff_ne, ne_eq, not_or, Classical.not_not] at hclosed
      have hlt := (List.getElem?_eq_some_iff.mp hclosed.2).1
      have hunits := (length_unitsOfPoint m).2
      cases heq
      exact hlong (by rw [List.length_cons, List.length_cons]; omega) (by omega)
  case h_5 =>
    obtain ⟨m, hm, heq⟩ := Option.map_eq_some_iff.mp h
    have hle := le_of_fixedHex? hm
    cases heq
    exact hlong (by rw [List.length_cons]; omega) (by simp)
  case h_6 =>
    split at h
    case isTrue => cases h
    case isFalse =>
      cases h
      exact hlong (by rw [List.length_cons]; omega) (by decide)
  case h_7 c rest _ _ _ _ _ =>
    split at h
    case isTrue => cases h
    case isFalse =>
      split at h
      case isTrue =>
        cases h
        exact Nat.zero_le _
      case isFalse =>
        cases h
        rw [List.take_succ_cons, List.take_zero, List.flatMap_singleton]
        exact length_letter_le c

/-! ### Reading -/

/-- How a kind of literal is read: what a character denotes in front of others, if it may stand for
itself, and what an escape denotes. -/
structure LiteralForm where
  plain : Char → List Char → Option (List Nat)
  escape : List Char → Option (List Nat × Nat)

/-- What the text denotes, but for the characters that belong to an escape before it. -/
def LiteralForm.read (form : LiteralForm) : (skip : Nat) → List Char → Option (List Nat)
  | _, [] => some []
  | skip + 1, _ :: cs => form.read skip cs
  | 0, c :: cs =>
    if c = '\\' then
      match form.escape cs with
      | some (us, n) => (form.read n cs).map (us ++ ·)
      | none => none
    else
      match form.plain c cs with
      | some us => (form.read 0 cs).map (us ++ ·)
      | none => none

/-- A string between such marks. -/
def stringForm (mark : Char) : LiteralForm where
  plain c _ := if c = mark ∨ c = '\n' ∨ c = '\r' then none else some (codeUnits c)
  escape := escaped?

/-- A template without substitutions, in which every line ends in the same way. -/
def templateForm : LiteralForm where
  plain c cs :=
    if c = '`' ∨ c = '$' ∧ cs.head? = some '\x7b' then none
    else if c = '\r' then some (if cs.head? = some '\n' then [] else [10])
    else some (codeUnits c)
  escape := escaped?

/-- A name, which has escapes of code points only. -/
def nameForm : LiteralForm where
  plain c _ := if c = '"' ∨ c = '\'' ∨ c = '`' then none else some (codeUnits c)
  escape cs := if cs.head? = some 'u' then escaped? cs else none

/-- What stands between two such marks. -/
def between? (mark : Char) (cs : List Char) : Option (List Char) :=
  if cs.getLast? = some mark then some cs.dropLast else none

/-- What a string or template literal denotes. -/
def literalUnits? : List Char → Option (List Nat)
  | '"' :: cs => (between? '"' cs).bind ((stringForm '"').read 0)
  | '\'' :: cs => (between? '\'' cs).bind ((stringForm '\'').read 0)
  | '`' :: cs => (between? '`' cs).bind (templateForm.read 0)
  | _ => none

example : literalUnits? "'\\x41\\n\\u\x7b1F600\x7d'".toList = some [0x41, 10, 0xd83d, 0xde00] := by
  decide

/-- What the name of a property denotes, a string or a name as it is. -/
def nameUnits? (cs : List Char) : Option (List Nat) :=
  match cs with
  | '"' :: _ | '\'' :: _ => literalUnits? cs
  | _ => nameForm.read 0 cs

/-! ### Text with and without escapes -/

/-- In the form a character denotes itself, and an escape no more than what it is written with. -/
structure LiteralForm.IsLiteral (form : LiteralForm) : Prop where
  plain : ∀ {c cs us}, form.plain c cs = some us → us = codeUnits c
  escape : ∀ {cs us n}, form.escape cs = some (us, n) →
    us.length ≤ ((cs.take n).flatMap codeUnits).length

theorem stringForm_isLiteral (mark : Char) : (stringForm mark).IsLiteral where
  plain h := by
    rw [stringForm] at h
    dsimp only at h
    split at h
    case isTrue => cases h
    case isFalse => exact (Option.some.inj h).symm
  escape h := escaped?_le h

theorem nameForm_isLiteral : nameForm.IsLiteral where
  plain h := by
    rw [nameForm] at h
    dsimp only at h
    split at h
    case isTrue => cases h
    case isFalse => exact (Option.some.inj h).symm
  escape h := by
    rw [nameForm] at h
    dsimp only at h
    split at h
    case isTrue => exact escaped?_le h
    case isFalse => cases h

theorem length_units_split (n : Nat) (cs : List Char) :
    (cs.flatMap codeUnits).length =
      ((cs.take n).flatMap codeUnits).length + ((cs.drop n).flatMap codeUnits).length := by
  rw [← List.length_append, ← List.flatMap_append, List.take_append_drop]

section

variable {form : LiteralForm} (hform : form.IsLiteral) {cs : List Char}

include hform

/-- Without escapes a text denotes its own characters. -/
theorem read_of_plain {units : List Nat} (hplain : '\\' ∉ cs) (h : form.read 0 cs = some units) :
    units = cs.flatMap codeUnits := by
  induction cs generalizing units with
  | nil =>
    cases h
    rfl
  | cons c cs ih =>
    rw [List.mem_cons, not_or] at hplain
    rw [LiteralForm.read, if_neg (Ne.symm hplain.1)] at h
    split at h
    case h_1 own hown =>
      obtain ⟨rest, hrest, rfl⟩ := Option.map_eq_some_iff.mp h
      rw [List.flatMap_cons, hform.plain hown, ih hplain.2 hrest]
    case h_2 => cases h

theorem length_read_le {skip : Nat} {units : List Nat} (h : form.read skip cs = some units) :
    units.length ≤ ((cs.drop skip).flatMap codeUnits).length := by
  induction cs generalizing skip units with
  | nil =>
    rw [LiteralForm.read] at h
    cases h
    exact Nat.zero_le _
  | cons c cs ih =>
    cases skip with
    | succ skip => exact ih h
    | zero =>
      rw [List.drop_zero, List.flatMap_cons, List.length_append]
      rw [LiteralForm.read] at h
      split at h
      case isTrue =>
        split at h
        case h_1 own n hown =>
          obtain ⟨rest, hrest, rfl⟩ := Option.map_eq_some_iff.mp h
          have hbegin := hform.escape hown
          have hend := ih hrest
          rw [length_units_split n cs, List.length_append]
          omega
        case h_2 => cases h
      case isFalse =>
        split at h
        case h_1 own hown =>
          obtain ⟨rest, hrest, rfl⟩ := Option.map_eq_some_iff.mp h
          have hend := ih hrest
          rw [List.drop_zero] at hend
          rw [hform.plain hown, List.length_append]
          omega
        case h_2 => cases h

/-- A text with escapes denotes less than its characters do. -/
theorem length_read_lt {units : List Nat} (hescape : '\\' ∈ cs)
    (h : form.read 0 cs = some units) : units.length < (cs.flatMap codeUnits).length := by
  induction cs generalizing units with
  | nil => cases hescape
  | cons c cs ih =>
    rw [List.flatMap_cons, List.length_append]
    rw [LiteralForm.read] at h
    split at h
    case isTrue =>
      split at h
      case h_1 own n hown =>
        obtain ⟨rest, hrest, rfl⟩ := Option.map_eq_some_iff.mp h
        have hbegin := hform.escape hown
        have hend := length_read_le hform hrest
        have hpos : 1 ≤ (codeUnits c).length := (length_unitsOfPoint _).1
        rw [length_units_split n cs, List.length_append]
        omega
      case h_2 => cases h
    case isFalse hplain =>
      split at h
      case h_1 own hown =>
        obtain ⟨rest, hrest, rfl⟩ := Option.map_eq_some_iff.mp h
        have hend := ih ((List.mem_cons.mp hescape).resolve_left (Ne.symm hplain)) hrest
        rw [hform.plain hown, List.length_append]
        omega
      case h_2 => cases h

end

/-! ### Quoted text -/

theorem hexNumber?_control {c : Char} (h : c.val < 32) :
    hexNumber? ['0', '0', hexDigit (c.val.toNat / 16), hexDigit c.val.toNat] =
      some c.toNat := by
  have hall : ∀ n < 32, hexNumber? ['0', '0', hexDigit (n / 16), hexDigit n] = some n := by
    decide
  exact hall c.val.toNat (UInt32.lt_iff_toNat_lt.mp h)

theorem escaped?_control {c : Char} (h : c.val < 32) (cs : List Char) :
    escaped? ('u' :: '0' :: '0' :: hexDigit (c.val.toNat / 16) :: hexDigit c.val.toNat :: cs) =
      some (codeUnits c, 5) := by
  have hsmall : c.toNat < 0x10000 :=
    Nat.lt_trans (UInt32.lt_iff_toNat_lt.mp h) (by decide)
  have hfixed : fixedHex? 4
      ('0' :: '0' :: hexDigit (c.val.toNat / 16) :: hexDigit c.val.toNat :: cs) =
        some c.toNat := by
    rw [fixedHex?, if_pos (by simp)]
    exact hexNumber?_control h
  rw [codeUnits, unitsOfPoint, if_pos hsmall]
  exact congrArg (Option.map fun n => ([n], 5)) hfixed

theorem escaped?_letter : ∀ x ∈ letterEscapes,
    ∀ cs, escaped? (x.2 :: cs) = some (codeUnits x.1, 1) := by
  intro x hx
  simp only [letterEscapes, List.mem_cons, List.not_mem_nil, or_false] at hx
  rcases hx with rfl | rfl | rfl | rfl | rfl | rfl | rfl <;> exact fun _ => rfl

/-- A quoted character is an escape that denotes it, or the character as it is. -/
theorem quoteChar_denotes (c : Char) :
    (∃ ds, quoteChar c = '\\' :: ds ∧
      ∀ cs, escaped? (ds ++ cs) = some (codeUnits c, ds.length)) ∨
    (quoteChar c = [c] ∧ c ≠ '\\' ∧ (stringForm '"').plain c = fun _ => some (codeUnits c)) := by
  rcases quoteChar_cases c with ⟨d, hd, hc⟩ | ⟨hsmall, hc⟩ | ⟨-, hnone, hc⟩
  · exact .inl ⟨[d], hc, escaped?_letter (c, d) hd⟩
  · exact .inl ⟨_, hc, escaped?_control hsmall⟩
  · have hmark : c ≠ '"' := fun h => hnone '"' (by rw [h]; decide)
    have hslash : c ≠ '\\' := fun h => hnone '\\' (by rw [h]; decide)
    have hline : c ≠ '\n' := fun h => hnone 'n' (by rw [h]; decide)
    have hreturn : c ≠ '\r' := fun h => hnone 'r' (by rw [h]; decide)
    exact .inr ⟨hc, hslash, funext fun _ => if_neg (by simp [hmark, hline, hreturn])⟩

theorem LiteralForm.read_length (form : LiteralForm) (ds cs : List Char) :
    form.read ds.length (ds ++ cs) = form.read 0 cs := by
  induction ds with
  | nil => rfl
  | cons d ds ih => exact ih

theorem read_quoteChar (c : Char) (cs : List Char) :
    (stringForm '"').read 0 (quoteChar c ++ cs) =
      ((stringForm '"').read 0 cs).map (codeUnits c ++ ·) := by
  rcases quoteChar_denotes c with ⟨ds, hquoted, hescape⟩ | ⟨hquoted, hslash, hplain⟩
  · rw [hquoted, List.cons_append, LiteralForm.read, if_pos rfl]
    dsimp only [stringForm]
    rw [hescape]
    exact congrArg (Option.map _) (LiteralForm.read_length _ ds cs)
  · rw [hquoted, List.singleton_append, LiteralForm.read, if_neg hslash, hplain]

theorem literalUnits?_quote (cs : List Char) :
    literalUnits? (quote cs) = some (cs.flatMap codeUnits) := by
  have hread : (stringForm '"').read 0 (cs.flatMap quoteChar) = some (cs.flatMap codeUnits) := by
    induction cs with
    | nil => rfl
    | cons c cs ih =>
      rw [List.flatMap_cons, List.flatMap_cons, read_quoteChar, ih]
      rfl
  rw [quote, literalUnits?, between?, if_pos List.getLast?_concat, List.dropLast_concat]
  exact hread

/-! ### Names -/

theorem unquote_of_between? {mark : Char} (hmark : mark = '"' ∨ mark = '\'') {cs raw : List Char}
    (h : between? mark cs = some raw) : unquote (mark :: cs) = raw ∧ cs = raw ++ [mark] := by
  rw [between?] at h
  split at h
  case isFalse => cases h
  case isTrue hlast =>
    obtain rfl := Option.some.inj h
    obtain ⟨front, rfl⟩ := List.getLast?_eq_some_iff.mp hlast
    refine ⟨?_, by rw [List.dropLast_concat]⟩
    cases front with
    | nil => rcases hmark with rfl | rfl <;> rfl
    | cons c front =>
      rw [List.cons_append] at hlast ⊢
      rw [unquote, hlast]
      rcases hmark with rfl | rfl <;> simp

/-- A name is read in its own form from what stands between its quotes, if it has any. -/
theorem exists_form_of_nameUnits? {cs : List Char} {units : List Nat}
    (h : nameUnits? cs = some units) :
    ∃ form : LiteralForm, form.IsLiteral ∧ form.read 0 (unquote cs) = some units ∧
      ('\\' ∈ unquote cs ↔ '\\' ∈ cs) := by
  have hquoted {mark : Char} {rest : List Char} (hmark : mark = '"' ∨ mark = '\'')
      (hrest : (between? mark rest).bind ((stringForm mark).read 0) = some units) :
      ∃ form : LiteralForm, form.IsLiteral ∧ form.read 0 (unquote (mark :: rest)) = some units ∧
        ('\\' ∈ unquote (mark :: rest) ↔ '\\' ∈ mark :: rest) := by
    obtain ⟨raw, hraw, hread⟩ := Option.bind_eq_some_iff.mp hrest
    obtain ⟨hunquote, rfl⟩ := unquote_of_between? hmark hraw
    rw [hunquote]
    refine ⟨_, stringForm_isLiteral mark, hread, ?_⟩
    rcases hmark with rfl | rfl <;> simp
  rw [nameUnits?.eq_def] at h
  split at h
  case h_1 => exact hquoted (.inl rfl) h
  case h_2 => exact hquoted (.inr rfl) h
  case h_3 hdouble hsingle =>
    have hunquote : unquote cs = cs := by
      match cs with
      | [] | [_] => rfl
      | c :: d :: rest =>
        have hplain : c ≠ '`' := by
          rintro rfl
          cases h
        have hc : c ≠ '"' := fun heq => hdouble _ (by rw [heq])
        have hc' : c ≠ '\'' := fun heq => hsingle _ (by rw [heq])
        simp [unquote, hplain, hc, hc']
    rw [hunquote]
    exact ⟨_, nameForm_isLiteral, h, Iff.rfl⟩

/-- The quoted text of a name denotes what the name denotes exactly when the name has no escapes. -/
theorem literalUnits?_quote_unquote_iff {cs : List Char} {units : List Nat}
    (h : nameUnits? cs = some units) :
    literalUnits? (quote (unquote cs)) = some units ↔ '\\' ∉ cs := by
  obtain ⟨form, hform, hread, hescape⟩ := exists_form_of_nameUnits? h
  rw [literalUnits?_quote, ← hescape, Option.some.injEq]
  constructor
  · intro heq hmem
    have hlt := length_read_lt hform hmem hread
    rw [heq] at hlt
    exact Nat.lt_irrefl _ hlt
  · intro hplain
    exact (read_of_plain hform hplain hread).symm

end CompilingProxy.Text
