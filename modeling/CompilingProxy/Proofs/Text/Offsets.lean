import CompilingProxy.Proofs.Text.Acceptance

/-!
# Offsets before and after edits

A text and what edits make of it are cut alike: pieces that were kept, and between them pieces that
were replaced. This is the same seen from either text, and so are the offsets: what is shown for one
way holds for the other way, too.
-/

namespace CompilingProxy

open Text

namespace Text

variable {cs ds : List Char} {i : Nat}

/-- The bytes of the characters. -/
def encoding (cs : List Char) : List UInt8 := bytes (String.ofList cs)

theorem encoding_append (cs ds : List Char) : encoding (cs ++ ds) = encoding cs ++ encoding ds := by
  rw [encoding, String.ofList_append, bytes_append, encoding, encoding]

theorem length_encoding (cs : List Char) : (encoding cs).length = width cs := by
  rw [encoding, bytes_eq, String.toList_ofList]
  induction cs with
  | nil => rfl
  | cons c cs ih =>
    rw [List.flatMap_cons, List.length_append, String.length_utf8EncodeChar, ih, width_cons]

theorem width_toList (s : String) : width s.toList = s.utf8ByteSize := by
  rw [← length_encoding, encoding, String.ofList_toList, bytes, byteArray_toList,
    Array.length_toList]
  rfl

theorem getElem?_encoding_left (h : i < width cs) (ds : List Char) :
    (encoding (cs ++ ds))[i]? = (encoding cs)[i]? := by
  rw [encoding_append, List.getElem?_append_left (by rwa [length_encoding])]

theorem getElem?_encoding_right (h : width cs ≤ i) (ds : List Char) :
    (encoding (cs ++ ds))[i]? = (encoding ds)[i - width cs]? := by
  rw [encoding_append, List.getElem?_append_right (by rwa [length_encoding]), length_encoding]

end Text

/-! ### Both ways -/

namespace Replacement

variable {r : Replacement} {x y o o' : Nat}

def swap (r : Replacement) : Replacement := ⟨r.generated, r.source⟩

/-- Where an offset comes to if this is the last replacement that begins at or before it. -/
def moved (r : Replacement) (o : Nat) : Nat :=
  if o < r.source.stop then r.generated.start + min (o - r.source.start) r.generated.length
  else r.generated.stop + (o - r.source.stop)

/-- Both ranges are proper ones, and end there. -/
structure EndsAt (r : Replacement) (x y : Nat) : Prop where
  source : r.source.start ≤ x
  generated : r.generated.start ≤ y
  sourceStop : r.source.stop = x
  generatedStop : r.generated.stop = y

theorem EndsAt.swap (h : r.EndsAt x y) : r.swap.EndsAt y x :=
  ⟨h.generated, h.source, h.generatedStop, h.sourceStop⟩

theorem EndsAt.moved_of_le (h : r.EndsAt x y) (ho : x ≤ o) : r.moved o = y + (o - x) := by
  have hstop := h.sourceStop
  rw [moved, if_neg (by omega), hstop, h.generatedStop]

theorem EndsAt.moved_of_lt (h : r.EndsAt x y) (ho : o < x) :
    r.moved o = r.generated.start + min (o - r.source.start) (y - r.generated.start) := by
  have hstop := h.sourceStop
  rw [moved, if_pos (by omega), Range.length, h.generatedStop]

theorem EndsAt.le_moved (h : r.EndsAt x y) : r.generated.start ≤ r.moved o := by
  have hle := h.generated
  by_cases ho : o < x
  · rw [h.moved_of_lt ho]
    omega
  · rw [h.moved_of_le (by omega)]
    omega

theorem EndsAt.moved_mono (h : r.EndsAt x y) (hoo : o ≤ o') : r.moved o ≤ r.moved o' := by
  have hle := h.generated
  by_cases ho' : o' < x
  · rw [h.moved_of_lt ho', h.moved_of_lt (by omega)]
    omega
  · have hmoved : r.moved o' = y + (o' - x) := h.moved_of_le (by omega)
    by_cases ho : o < x
    · rw [h.moved_of_lt ho]
      omega
    · rw [h.moved_of_le (by omega)]
      omega

end Replacement

open Replacement

/-- Where an offset comes to behind a replacement and before some others. -/
def movedPast (r : Replacement) : List Replacement → Nat → Nat
  | [], o => r.moved o
  | s :: rs, o => if s.source.start ≤ o then movedPast s rs o else r.moved o

namespace OffsetMap

variable {m : OffsetMap} {o : Nat}

def swap (m : OffsetMap) : OffsetMap := ⟨m.replacements.map Replacement.swap⟩

theorem sourceOffset_eq (m : OffsetMap) : m.sourceOffset = m.swap.generatedOffset := by
  funext o
  rw [sourceOffset, generatedOffset, carry, carry, swap, List.takeWhile_map, List.getLast?_map]
  have hstart : ((fun r : Replacement => decide (r.source.start ≤ o)) ∘ Replacement.swap) =
      fun r => decide (r.generated.start ≤ o) := rfl
  rw [hstart]
  cases (m.replacements.takeWhile fun r => decide (r.generated.start ≤ o)).getLast? with
  | none => rfl
  | some r => rfl

theorem movedPast_eq (r : Replacement) (rs : List Replacement) (o : Nat) :
    movedPast r rs o =
      ((rs.takeWhile fun r => r.source.start ≤ o).getLast?.getD r).moved o := by
  induction rs generalizing r with
  | nil => rfl
  | cons s rs ih =>
    rw [movedPast]
    by_cases hs : s.source.start ≤ o
    · rw [if_pos hs, ih, List.takeWhile_cons_of_pos (by simpa using hs), List.getLast?_cons,
        Option.getD_some]
    · rw [if_neg hs, List.takeWhile_cons_of_neg (by simpa using hs)]
      rfl

/-- At the beginning, nothing has been replaced by nothing. -/
def atStart : Replacement := ⟨⟨0, 0⟩, ⟨0, 0⟩⟩

theorem generatedOffset_eq (m : OffsetMap) :
    m.generatedOffset = movedPast atStart m.replacements := by
  funext o
  rw [movedPast_eq, generatedOffset, carry]
  cases (m.replacements.takeWhile fun r => r.source.start ≤ o).getLast? with
  | none => simp [atStart, moved]
  | some r => rfl

end OffsetMap

/-- Two texts, from an offset of each on, with the replacements that make one of the other. -/
inductive Spliced : (x y : Nat) → (rest out : List Char) → List Replacement → Prop where
  | nil {x y : Nat} {rest : List Char} : Spliced x y rest rest []
  | cons {x y : Nat} {kept old new rest out : List Char} {rs : List Replacement}
      (h : Spliced (x + width kept + width old) (y + width kept + width new) rest out rs) :
      Spliced x y (kept ++ (old ++ rest)) (kept ++ (new ++ out))
        (⟨⟨x + width kept, x + width kept + width old⟩,
          ⟨y + width kept, y + width kept + width new⟩⟩ :: rs)

namespace Spliced

variable {x y o o' : Nat} {rest out : List Char} {rs : List Replacement} {r : Replacement}

theorem swap (h : Spliced x y rest out rs) : Spliced y x out rest (rs.map Replacement.swap) := by
  induction h with
  | nil => exact .nil
  | cons _ ih => exact .cons ih

theorem le_generated (h : Spliced x y rest out rs) : ∀ r ∈ rs, y ≤ r.generated.start := by
  induction h with
  | nil => simp
  | cons h ih =>
    intro r hr
    rcases List.mem_cons.mp hr with rfl | hr
    · exact Nat.le_add_right _ _
    · have hle := ih r hr
      omega

/-- The replacement at the front ends where the rest begins. -/
theorem endsAt (x y : Nat) (kept old new : List Char) :
    EndsAt ⟨⟨x + width kept, x + width kept + width old⟩,
      ⟨y + width kept, y + width kept + width new⟩⟩
      (x + width kept + width old) (y + width kept + width new) :=
  ⟨Nat.le_add_right _ _, Nat.le_add_right _ _, rfl, rfl⟩

theorem le_movedPast (h : Spliced x y rest out rs) (hr : r.EndsAt x y) (o : Nat) :
    r.generated.start ≤ movedPast r rs o := by
  induction h generalizing r with
  | nil => exact hr.le_moved
  | @cons x y kept old new rest out rs h ih =>
    rw [movedPast]
    split
    · have hle := ih (endsAt x y kept old new)
      have hbefore := hr.generated
      dsimp only at hle
      omega
    · exact hr.le_moved

theorem movedPast_mono (h : Spliced x y rest out rs) (hr : r.EndsAt x y) :
    Monotone (movedPast r rs) := by
  induction h generalizing r with
  | nil => exact fun o o' hoo => hr.moved_mono hoo
  | @cons x y kept old new rest out rs h ih =>
    intro o o' hoo
    have hs := endsAt x y kept old new
    rw [movedPast, movedPast]
    by_cases ho : x + width kept ≤ o
    · rw [if_pos ho, if_pos (by dsimp only; omega)]
      exact ih hs hoo
    · rw [if_neg ho]
      by_cases ho' : x + width kept ≤ o'
      · -- Only the second offset is behind the replacement's start, which lies between them.
        rw [if_pos ho']
        have hstart : r.moved o ≤ y + width kept := by
          calc r.moved o ≤ r.moved (x + width kept) := hr.moved_mono (by omega)
            _ = y + width kept := by rw [hr.moved_of_le (by omega), Nat.add_sub_cancel_left]
        exact hstart.trans (h.le_movedPast hs o')
      · rw [if_neg ho']
        exact hr.moved_mono hoo

/-- The ends of the texts belong to each other. -/
theorem movedPast_end (h : Spliced x y rest out rs) (hr : r.EndsAt x y) :
    movedPast r rs (x + width rest) = y + width out := by
  induction h generalizing r with
  | nil => rw [movedPast, hr.moved_of_le (Nat.le_add_right _ _), Nat.add_sub_cancel_left]
  | @cons x y kept old new rest out rs h ih =>
    have hend := ih (endsAt x y kept old new)
    simp only [width_append]
    rw [movedPast, if_pos (by dsimp only; omega)]
    rw [← Nat.add_assoc, ← Nat.add_assoc, hend]
    omega

/-- The offset lies in no range that is replaced. -/
def IsKept (rs : List Replacement) (o : Nat) : Prop :=
  ∀ r ∈ rs, ¬(r.source.start ≤ o ∧ o < r.source.stop)

/-- What is kept comes to a place that is no part of a replacement, comes back from there, and is
the same byte. -/
theorem movedPast_of_isKept (h : Spliced x y rest out rs) (hr : r.EndsAt x y) (ho : x ≤ o)
    (hkept : IsKept rs o) :
    y ≤ movedPast r rs o ∧ IsKept (rs.map Replacement.swap) (movedPast r rs o) ∧
      movedPast r.swap (rs.map Replacement.swap) (movedPast r rs o) = o ∧
      (encoding out)[movedPast r rs o - y]? = (encoding rest)[o - x]? := by
  induction h generalizing r with
  | nil =>
    rw [movedPast, hr.moved_of_le ho]
    refine ⟨Nat.le_add_right _ _, by simp [IsKept], ?_, by rw [Nat.add_sub_cancel_left]⟩
    rw [List.map_nil, movedPast, hr.swap.moved_of_le (Nat.le_add_right _ _)]
    omega
  | @cons x y kept old new rest out rs h ih =>
    have hs := endsAt x y kept old new
    obtain ⟨hfirst, hrest⟩ := List.forall_mem_cons.mp hkept
    rw [movedPast, List.map_cons, movedPast, IsKept, List.forall_mem_cons]
    by_cases hin : x + width kept ≤ o
    · -- The offset is not in the range, and so behind it.
      have hbehind : x + width kept + width old ≤ o := by
        by_contra hlt
        exact hfirst ⟨hin, Nat.lt_of_not_le hlt⟩
      rw [if_pos hin]
      obtain ⟨hle, hout, hback, hbyte⟩ := ih hs hbehind hrest
      refine ⟨by omega, ⟨?_, hout⟩, ?_, ?_⟩
      · dsimp only [Replacement.swap]
        omega
      · rw [if_pos (by dsimp only [Replacement.swap]; omega)]
        exact hback
      · rw [getElem?_encoding_right (by omega), getElem?_encoding_right (by omega),
          getElem?_encoding_right (by omega), getElem?_encoding_right (by omega)]
        simpa only [Nat.sub_sub] using hbyte
    · rw [if_neg hin, hr.moved_of_le ho]
      refine ⟨Nat.le_add_right _ _, ⟨?_, fun s hs' => ?_⟩, ?_, ?_⟩
      · dsimp only [Replacement.swap]
        omega
      · obtain ⟨s, hmem, rfl⟩ := List.mem_map.mp hs'
        have hlater := h.le_generated s hmem
        dsimp only [Replacement.swap]
        omega
      · rw [if_neg (by dsimp only [Replacement.swap]; omega),
          hr.swap.moved_of_le (Nat.le_add_right _ _)]
        omega
      · rw [getElem?_encoding_left (by omega), getElem?_encoding_left (by omega),
          Nat.add_sub_cancel_left]

end Spliced

/-! ### Performed edits -/

variable {text rest out : List Char} {edits es : List TextEdit} {m : OffsetMap}
  {cursor : Nat}

theorem Cuts.spliced (h : Cuts cursor rest es) (written : Nat) :
    Spliced cursor written rest (splice rest cursor written es).1
      (splice rest cursor written es).2 := by
  induction h generalizing written with
  | nil => exact .nil
  | @cons cursor kept old rest new es h ih =>
    rw [splice_cons_append, ← width_toList]
    exact .cons (ih _)

theorem map_source_splice (rest : List Char) (cursor written : Nat) (es : List TextEdit) :
    (splice rest cursor written es).2.map (·.source) = es.map (·.range) := by
  induction es generalizing rest cursor written with
  | nil => rfl
  | cons e es ih =>
    rw [splice, List.map_cons, List.map_cons, ih]

theorem spliced_of_applyEdits (h : applyEdits text edits = .ok (out, m)) :
    Spliced 0 0 text out m.replacements ∧
      (m.replacements.map (·.source)).Perm (edits.map (·.range)) := by
  obtain ⟨row, hordered, hsplice⟩ := applyEdits_eq_ok_iff.mp h
  obtain ⟨rfl, hfits, hrow⟩ := orderEdits_eq_ok_iff.mp hordered
  have hspliced := (cuts_text hfits hrow).spliced 0
  have hsources := map_source_splice text 0 0 (edits.mergeSort TextEdit.precedes)
  rw [hsplice] at hspliced hsources
  refine ⟨hspliced, ?_⟩
  rw [hsources]
  exact (List.mergeSort_perm edits TextEdit.precedes).map _

/-- The offsets in the ranges of edits. -/
def touched (edits : List TextEdit) : Set Nat :=
  {o | ∃ e ∈ edits, e.range.start ≤ o ∧ o < e.range.stop}

/-- The offsets in what was written for a range. -/
def OffsetMap.written (m : OffsetMap) : Set Nat :=
  {g | ∃ r ∈ m.replacements, r.generated.start ≤ g ∧ g < r.generated.stop}

theorem isKept_iff (h : (m.replacements.map (·.source)).Perm (edits.map (·.range))) {o : Nat} :
    Spliced.IsKept m.replacements o ↔ o ∈ (touched edits)ᶜ := by
  have hranges : ∀ range, (∃ r ∈ m.replacements, r.source = range) ↔
      ∃ e ∈ edits, e.range = range := by
    intro range
    rw [← List.mem_map, ← List.mem_map]
    exact h.mem_iff
  constructor
  · rintro hkept ⟨e, he, hin⟩
    obtain ⟨r, hr, hsource⟩ := (hranges e.range).mpr ⟨e, he, rfl⟩
    exact hkept r hr (hsource ▸ hin)
  · intro hkept r hr hin
    obtain ⟨e, he, hrange⟩ := (hranges r.source).mp ⟨r, hr, rfl⟩
    exact hkept ⟨e, he, hrange ▸ hin⟩

theorem isKept_swap_iff {g : Nat} :
    Spliced.IsKept (m.replacements.map Replacement.swap) g ↔ g ∈ m.writtenᶜ := by
  constructor
  · rintro hkept ⟨r, hr, hin⟩
    exact hkept r.swap (List.mem_map_of_mem hr) hin
  · intro hkept s hs hin
    obtain ⟨r, hr, rfl⟩ := List.mem_map.mp hs
    exact hkept ⟨r, hr, hin⟩

namespace Spliced

open OffsetMap

/-- What the offsets of one text are to those of the other one. -/
theorem generatedOffset_spec (h : Spliced 0 0 text out m.replacements) :
    Monotone m.generatedOffset ∧
      Set.MapsTo m.generatedOffset (Set.Iic (width text)) (Set.Iic (width out)) ∧
      ∀ o, IsKept m.replacements o → IsKept (m.replacements.map Replacement.swap)
          (m.generatedOffset o) ∧
        m.sourceOffset (m.generatedOffset o) = o ∧
        (encoding out)[m.generatedOffset o]? = (encoding text)[o]? := by
  have hstart : atStart.EndsAt 0 0 := ⟨Nat.le_refl 0, Nat.le_refl 0, rfl, rfl⟩
  have hmono := h.movedPast_mono hstart
  have hend := h.movedPast_end hstart
  rw [sourceOffset_eq, generatedOffset_eq, generatedOffset_eq]
  refine ⟨hmono, fun o ho => ?_, fun o hkept => ?_⟩
  · rw [Nat.zero_add, Nat.zero_add] at hend
    exact hend ▸ hmono ho
  · obtain ⟨-, hout, hback, hbyte⟩ := h.movedPast_of_isKept hstart (Nat.zero_le o) hkept
    exact ⟨hout, hback, hbyte⟩

end Spliced

/-- Offsets are carried in order from one text to the other, and up to the ends of both. Those that
lie in no range of an edit are in one-to-one correspondence with those that lie in nothing that was
written, and the same bytes stand there. -/
theorem applyEdits_offsets (h : applyEdits text edits = .ok (out, m)) :
    Monotone m.sourceOffset ∧ Monotone m.generatedOffset ∧
      Set.MapsTo m.sourceOffset (Set.Iic (width out)) (Set.Iic (width text)) ∧
      Set.MapsTo m.generatedOffset (Set.Iic (width text)) (Set.Iic (width out)) ∧
      Set.BijOn m.generatedOffset (touched edits)ᶜ m.writtenᶜ ∧
      Set.BijOn m.sourceOffset m.writtenᶜ (touched edits)ᶜ ∧
      Set.InvOn m.sourceOffset m.generatedOffset (touched edits)ᶜ m.writtenᶜ ∧
      ∀ g ∈ m.writtenᶜ, g < width out → ∃ byte,
        (bytes (String.ofList out))[g]? = some byte ∧
        (bytes (String.ofList text))[m.sourceOffset g]? = some byte := by
  obtain ⟨hspliced, hranges⟩ := spliced_of_applyEdits h
  obtain ⟨hmono, hmaps, hkept⟩ := hspliced.generatedOffset_spec
  -- The way back is the way there of the replacements seen from the other text.
  have hswapped : Spliced 0 0 out text m.swap.replacements := hspliced.swap
  obtain ⟨hmono', hmaps', hkept'⟩ := hswapped.generatedOffset_spec
  have htwice : m.swap.swap = m := by
    have hid : Replacement.swap ∘ Replacement.swap = id := rfl
    rw [OffsetMap.swap, OffsetMap.swap, List.map_map, hid, List.map_id]
  have hback : m.swap.sourceOffset = m.generatedOffset := by
    rw [OffsetMap.sourceOffset_eq, htwice]
  have hreplacements : m.swap.replacements.map Replacement.swap = m.replacements :=
    congrArg OffsetMap.replacements htwice
  rw [hback, hreplacements, ← OffsetMap.sourceOffset_eq] at hkept'
  rw [← OffsetMap.sourceOffset_eq] at hmono' hmaps'
  have hthere : Set.MapsTo m.generatedOffset (touched edits)ᶜ m.writtenᶜ := by
    intro o ho
    exact isKept_swap_iff.mp (hkept o ((isKept_iff hranges).mpr ho)).1
  have hhere : Set.MapsTo m.sourceOffset m.writtenᶜ (touched edits)ᶜ := by
    intro g hg
    exact (isKept_iff hranges).mp (hkept' g (isKept_swap_iff.mpr hg)).1
  have hinv : Set.InvOn m.sourceOffset m.generatedOffset (touched edits)ᶜ m.writtenᶜ := by
    constructor
    · intro o ho
      exact (hkept o ((isKept_iff hranges).mpr ho)).2.1
    · intro g hg
      exact (hkept' g (isKept_swap_iff.mpr hg)).2.1
  refine ⟨hmono', hmono, hmaps', hmaps, hinv.bijOn hthere hhere, hinv.symm.bijOn hhere hthere,
    hinv, fun g hg hlt => ?_⟩
  obtain ⟨-, -, hbyte⟩ := hkept' g (isKept_swap_iff.mpr hg)
  have hin : g < (encoding out).length := by rwa [length_encoding]
  have hhere := List.getElem?_eq_getElem hin
  exact ⟨(encoding out)[g], hhere, hbyte.trans hhere⟩

/-- Insertions at one offset, a deletion that begins there, one that ends where the next begins, and
a replacement after a character of two bytes. -/
theorem applyEdits_offsets_adjacent :
    let text := "abcdé;gh".toList
    let edits : List TextEdit := [.delete 1 3, .insert 3 "X", .insert 3 "YZ", .delete 3 4,
      .replace 6 7 "!!"]
    ∃ out m, applyEdits text edits = .ok (out, m) ∧ out = "aXYZé!!gh".toList ∧
      m.sourceOffset 4 = 4 ∧ m.generatedOffset 4 = 4 ∧
      Set.InvOn m.sourceOffset m.generatedOffset (touched edits)ᶜ m.writtenᶜ := by
  intro text edits
  have hok : applyEdits text edits = .ok ("aXYZé!!gh".toList,
      ⟨[⟨⟨1, 3⟩, ⟨1, 1⟩⟩, ⟨⟨3, 3⟩, ⟨1, 2⟩⟩, ⟨⟨3, 3⟩, ⟨2, 4⟩⟩, ⟨⟨3, 4⟩, ⟨4, 4⟩⟩,
        ⟨⟨6, 7⟩, ⟨6, 8⟩⟩]⟩) := by
    have hsorted : edits.mergeSort TextEdit.precedes = edits :=
      List.mergeSort_of_pairwise (by decide)
    rw [applyEdits, orderEdits, hsorted]
    decide +kernel
  obtain ⟨-, -, -, -, -, -, hinv, -⟩ := applyEdits_offsets hok
  exact ⟨_, _, hok, rfl, by decide, by decide, hinv⟩

end CompilingProxy
