/-!
# Quoted text

The quoted form that JSON documents and emitted scripts share: a quotation mark, a backslash and
the control characters are escaped, everything else stands for itself.
-/

namespace CompilingProxy.Text

def hexDigit (n : Nat) : Char := (Nat.digitChar (n % 16))

/-- How one character stands between the quotation marks. -/
def quoteChar (c : Char) : List Char :=
  if c = '"' then ['\\', '"']
  else if c = '\\' then ['\\', '\\']
  else if c = '\n' then ['\\', 'n']
  else if c = '\r' then ['\\', 'r']
  else if c = '\t' then ['\\', 't']
  else if c.val = 8 then ['\\', 'b']
  else if c.val = 12 then ['\\', 'f']
  else if c.val < 32 then
    ['\\', 'u', '0', '0', hexDigit (c.val.toNat / 16), hexDigit c.val.toNat]
  else [c]

/-- The characters that are quoted with a letter behind a backslash. -/
def letterEscapes : List (Char × Char) :=
  [('"', '"'), ('\\', '\\'), ('\n', 'n'), ('\r', 'r'), ('\t', 't'), ('\x08', 'b'), ('\x0c', 'f')]

/-- Behind a backslash stands a letter or the number of the character; other characters stand for
themselves. -/
theorem quoteChar_cases (c : Char) :
    (∃ d, (c, d) ∈ letterEscapes ∧ quoteChar c = ['\\', d]) ∨
    (c.val < 32 ∧ quoteChar c =
      ['\\', 'u', '0', '0', hexDigit (c.val.toNat / 16), hexDigit c.val.toNat]) ∨
    (¬ c.val < 32 ∧ (∀ d, (c, d) ∉ letterEscapes) ∧ quoteChar c = [c]) := by
  by_cases hletter : ∃ d, (c, d) ∈ letterEscapes
  · obtain ⟨d, hd⟩ := hletter
    refine .inl ⟨d, hd, ?_⟩
    have hall : ∀ x ∈ letterEscapes, quoteChar x.1 = ['\\', x.2] := by decide
    exact hall (c, d) hd
  · have hnone (d : Char) : (c, d) ∉ letterEscapes := fun hd => hletter ⟨d, hd⟩
    have hother : ∀ x ∈ letterEscapes, c ≠ x.1 := by
      rintro ⟨a, d⟩ hx rfl
      exact hnone d hx
    obtain ⟨hmark, hslash, hline, hreturn, htab, hback, hfeed⟩ : c ≠ '"' ∧ c ≠ '\\' ∧ c ≠ '\n' ∧
        c ≠ '\r' ∧ c ≠ '\t' ∧ c ≠ '\x08' ∧ c ≠ '\x0c' := by
      simpa [letterEscapes] using hother
    have hback : c.val ≠ 8 := fun h => hback (Char.ext h)
    have hfeed : c.val ≠ 12 := fun h => hfeed (Char.ext h)
    refine .inr ?_
    rw [quoteChar, if_neg hmark, if_neg hslash, if_neg hline, if_neg hreturn, if_neg htab,
      if_neg hback, if_neg hfeed]
    split
    case isTrue hsmall => exact .inl ⟨hsmall, rfl⟩
    case isFalse hlarge => exact .inr ⟨hlarge, hnone, rfl⟩

def quote (cs : List Char) : List Char := '"' :: (cs.flatMap quoteChar ++ ['"'])

def quoted (s : String) : String := String.ofList (quote s.toList)

end CompilingProxy.Text
