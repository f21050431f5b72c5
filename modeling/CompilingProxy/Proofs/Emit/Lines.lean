import CompilingProxy.Proofs.Emit.Elision
import CompilingProxy.Proofs.Emit.Margin
import CompilingProxy.Proofs.Text.Alike

/-!
# Lines that are laid out anew

The statements of a body on one line get lines of their own, one level deeper than the body. What
stands on a line of a statement's text stands on a line then, and at its head if it did so before;
and what stands behind something else stands behind it.
-/

namespace CompilingProxy

namespace Text

variable {c : Char} {front back line mid : List Char}

/-- What is no blank is not taken off the ends of a text. -/
theorem mem_trim (hmem : c ∈ line) (hc : isBlank c = false) : c ∈ trim line := by
  have hdrop : ∀ {cs : List Char}, c ∈ cs → c ∈ cs.dropWhile isBlank := by
    intro cs hcs
    rw [← List.takeWhile_append_dropWhile (p := isBlank) (l := cs), List.mem_append] at hcs
    rcases hcs with hcs | hcs
    · rw [List.mem_takeWhile_imp hcs] at hc
      cases hc
    · exact hcs
  rw [trim, trimBy, List.mem_reverse]
  exact hdrop (List.mem_reverse.mpr (hdrop hmem))

theorem isBlank_head_trim (h : (trim line).head? = some c) : isBlank c = false := by
  have hprefix : trim line <+: line.dropWhile isBlank := by
    rw [← List.reverse_suffix, trim, trimBy, List.reverse_reverse]
    exact List.dropWhile_suffix _
  obtain ⟨rest, hrest⟩ := hprefix
  have hhead := List.head?_dropWhile_not isBlank line
  rw [← hrest, List.head?_append, h] at hhead
  exact hhead

/-! ### Lines that something stands on -/

/-- A piece without the return at its end. -/
def unreturned (piece : List Char) : List Char :=
  if piece.getLast? = some '\r' then piece.dropLast else piece

/-- The lines of a text that hold something else than blanks. -/
def solidLines (cs : List Char) : List (List Char) :=
  (lines cs).filter fun line => !(trim line).isEmpty

theorem solidLines_eq (cs : List Char) :
    solidLines cs =
      ((splitOnChar '\n' cs).map unreturned).filter fun line => !(trim line).isEmpty := by
  have hpieces : lines cs = (if (splitOnChar '\n' cs).getLast? = some [] then
      (splitOnChar '\n' cs).dropLast else splitOnChar '\n' cs).map unreturned := rfl
  rw [solidLines, hpieces]
  split
  case isTrue hlast =>
    obtain ⟨pieces, hsplit⟩ := List.getLast?_eq_some_iff.mp hlast
    rw [hsplit, List.dropLast_concat, List.map_append, List.filter_append]
    exact (List.append_nil _).symm
  case isFalse => rfl

theorem solidLines_append_cons :
    solidLines (front ++ '\n' :: back) = solidLines front ++ solidLines back := by
  rw [solidLines_eq, solidLines_eq, solidLines_eq, splitOnChar_append_cons, List.map_append,
    List.filter_append]

theorem solidLines_of_notMem (hline : '\n' ∉ line) (hmem : c ∈ unreturned line)
    (hc : isBlank c = false) : solidLines line = [unreturned line] := by
  have hsolid : !(trim (unreturned line)).isEmpty := by
    rw [Bool.not_eq_true', List.isEmpty_eq_false_iff]
    exact List.ne_nil_of_mem (mem_trim hmem hc)
  rw [solidLines_eq, splitOnChar_of_notMem hline, List.map_singleton]
  exact List.filter_cons_of_pos hsolid

/-- What does not end with a return stays with its front on the line. -/
theorem exists_unreturned (hc : c ≠ '\r') :
    ∃ rest, unreturned (front ++ (mid ++ [c] ++ back)) = front ++ (mid ++ [c] ++ rest) := by
  rw [unreturned]
  split
  case isFalse => exact ⟨back, rfl⟩
  case isTrue hlast =>
    rcases List.eq_nil_or_concat' back with rfl | ⟨rest, d, rfl⟩
    · rw [List.append_nil, ← List.append_assoc, List.getLast?_concat] at hlast
      exact absurd (Option.some.inj hlast) hc
    · refine ⟨rest, ?_⟩
      rw [← List.append_assoc (mid ++ [c]), ← List.append_assoc front, List.dropLast_concat]

end Text

namespace Emit

open Text

/-- A line one level deeper than the indentation. -/
def laidOut (indent line : List Char) : String :=
  String.ofList indent ++ Layout.unit ++ String.ofList ((dropFront? indent line).getD line)

/-- What begins with no blank stays on its line, with only blanks in front if there were no other
characters in front of it. -/
theorem exists_laidOut {indent front back : List Char} {c : Char}
    (hindent : ∀ d ∈ indent, Layout.isBlankOfLine d) (hc : Layout.isBlankOfLine c = false) :
    ∃ front', (laidOut indent (front ++ c :: back)).toList = front' ++ c :: back ∧
      ((∀ d ∈ front, Layout.isBlankOfLine d) → ∀ d ∈ front', Layout.isBlankOfLine d) := by
  have hunit : ∀ d ∈ Layout.unit.toList, Layout.isBlankOfLine d := by
    rw [Layout.unit]
    simp [Layout.isBlankOfLine]
  have hmargin : ∀ {rest : List Char}, (∀ d ∈ rest, Layout.isBlankOfLine d) →
      ∀ d ∈ indent ++ Layout.unit.toList ++ rest, Layout.isBlankOfLine d := by
    intro rest hrest d hd
    simp only [List.mem_append] at hd
    rcases hd with (hd | hd) | hd
    · exact hindent d hd
    · exact hunit d hd
    · exact hrest d hd
  have htext : (laidOut indent (front ++ c :: back)).toList = indent ++ Layout.unit.toList ++
      (dropFront? indent (front ++ c :: back)).getD (front ++ c :: back) := by
    simp [laidOut]
  rw [htext]
  cases hdrop : dropFront? indent (front ++ c :: back) with
  | none => exact ⟨indent ++ Layout.unit.toList ++ front, by simp, hmargin⟩
  | some rest =>
    rw [Option.getD_some]
    rcases List.append_eq_append_iff.mp (eq_of_dropFront? hdrop) with
      ⟨mid, hfront, hback⟩ | ⟨mid, hfront, hback⟩
    · -- the indentation would reach over the character, which is no blank
      cases mid with
      | nil =>
        obtain rfl : c :: back = rest := hback
        refine ⟨indent ++ Layout.unit.toList ++ [], by simp, fun _ => hmargin fun d hd => ?_⟩
        cases hd
      | cons d mid =>
        obtain ⟨rfl, -⟩ := List.cons.inj hback
        rw [hindent c (by simp [hfront])] at hc
        cases hc
    · refine ⟨indent ++ Layout.unit.toList ++ mid, by rw [hback]; simp, fun h => hmargin ?_⟩
      exact fun d hd => h d (by simp [hfront, hd])

/-! ### Texts -/

/-- What is written on one line, and is found again when the line is laid out anew. -/
structure IsPiece (piece : List Char) : Prop where
  notMem : '\n' ∉ piece
  head : ∀ c, piece.head? = some c → isBlank c = false
  last : ∃ front c, piece = front ++ [c] ∧ c ≠ '\r'

/-- The lines of a text behind line breaks, each one level deeper than the indentation. -/
def relaid (indent cs : List Char) : List Char :=
  (solidLines cs).flatMap fun line => '\n' :: (laidOut indent line).toList

section

variable {indent front mid back piece next : List Char}

theorem relaid_append_cons :
    relaid indent (front ++ '\n' :: back) = relaid indent front ++ relaid indent back := by
  rw [relaid, solidLines_append_cons, List.flatMap_append]
  rfl

theorem exists_relaid_line (indent mid : List Char)
    (hfront : front = [] ∨ ∃ cs, front = cs ++ ['\n'])
    (hback : back = [] ∨ ∃ cs, back = '\n' :: cs) :
    ∃ before after, relaid indent (front ++ (mid ++ back)) =
      before ++ relaid indent mid ++ after := by
  have hmid : ∃ after, relaid indent (mid ++ back) = relaid indent mid ++ after := by
    rcases hback with rfl | ⟨cs, rfl⟩
    · exact ⟨[], by simp⟩
    · exact ⟨_, relaid_append_cons⟩
  obtain ⟨after, hmid⟩ := hmid
  rcases hfront with rfl | ⟨cs, rfl⟩
  · exact ⟨[], after, hmid⟩
  · refine ⟨relaid indent cs, after, ?_⟩
    rw [List.append_assoc, List.singleton_append, relaid_append_cons, hmid, List.append_assoc]

/-- Two pieces on a line are in one that begins with the first and ends with the second. -/
theorem IsPiece.append (h : IsPiece piece) (hmid : '\n' ∉ mid) (hnext : IsPiece next) :
    IsPiece (piece ++ mid ++ next) := by
  refine ⟨?_, fun c hc => ?_, ?_⟩
  · simp only [List.mem_append, not_or]
    exact ⟨⟨h.notMem, hmid⟩, hnext.notMem⟩
  · obtain ⟨front, d, rfl, -⟩ := h.last
    refine h.head c ?_
    rw [List.append_assoc, List.head?_append] at hc
    cases front <;> exact hc
  · obtain ⟨front, d, rfl, hd⟩ := hnext.last
    exact ⟨piece ++ mid ++ front, d, by simp, hd⟩

variable (hindent : ∀ c ∈ indent, Layout.isBlankOfLine c)

include hindent

theorem exists_relaid_of_notMem (h : IsPiece piece) (hfront : '\n' ∉ front) (hback : '\n' ∉ back) :
    ∃ margin after, relaid indent (front ++ (piece ++ back)) = '\n' :: (margin ++ piece) ++ after ∧
      ((∀ c ∈ front, Layout.isBlankOfLine c) → ∀ c ∈ margin, Layout.isBlankOfLine c) := by
  obtain ⟨mid, d, hpiece, hd⟩ := h.last
  obtain ⟨c, cs, hcs⟩ := List.exists_cons_of_ne_nil (show piece ≠ [] by simp [hpiece])
  have hc : isBlank c = false := h.head c (by rw [hcs]; rfl)
  have hplain : Layout.isBlankOfLine c = false := by
    rw [Bool.eq_false_iff]
    intro hblank
    rw [Layout.isBlank_of_isBlankOfLine hblank] at hc
    cases hc
  have hline : '\n' ∉ front ++ (piece ++ back) := by
    simp only [List.mem_append, not_or]
    exact ⟨hfront, h.notMem, hback⟩
  obtain ⟨after, hafter⟩ : ∃ after, unreturned (front ++ (piece ++ back)) =
      front ++ (piece ++ after) := by
    rw [hpiece]
    exact exists_unreturned hd
  have hmem : c ∈ unreturned (front ++ (piece ++ back)) := by
    rw [hafter, hcs]
    simp
  obtain ⟨margin, hlaid, hmargin⟩ := @exists_laidOut indent front (cs ++ after) c hindent hplain
  refine ⟨margin, after, ?_, hmargin⟩
  rw [relaid, solidLines_of_notMem hline hmem hc, hafter, hcs]
  simp only [List.flatMap_cons, List.flatMap_nil, List.append_nil, List.cons_append, hlaid,
    List.append_assoc]

/-- A piece stands behind a line break, with only blanks between them if there were no other
characters in front of it on its line. -/
theorem exists_relaid (h : IsPiece piece) (front back : List Char) :
    ∃ before margin after,
      relaid indent (front ++ (piece ++ back)) =
        before ++ '\n' :: (margin ++ piece) ++ after ∧
      ((∀ c ∈ lastLine front, Layout.isBlankOfLine c) → ∀ c ∈ margin, Layout.isBlankOfLine c) := by
  obtain ⟨start, hfront, -, hlast, hstart⟩ := exists_lastLine front
  obtain ⟨rest, stop, rfl, hrest, hstop⟩ : ∃ rest stop, back = rest ++ stop ∧ '\n' ∉ rest ∧
      (stop = [] ∨ ∃ cs, stop = '\n' :: cs) := by
    by_cases hback : '\n' ∈ back
    · obtain ⟨rest, stop, hcut, hrest⟩ := List.eq_append_cons_of_mem hback
      exact ⟨rest, '\n' :: stop, hcut, hrest, .inr ⟨stop, rfl⟩⟩
    · exact ⟨back, [], by simp, hback, .inl rfl⟩
  obtain ⟨margin, after, hline, hmargin⟩ := exists_relaid_of_notMem hindent h hlast hrest
  obtain ⟨before, behind, hwhole⟩ := 
    exists_relaid_line indent (lastLine front ++ (piece ++ rest)) hstart hstop
  refine ⟨before, margin, after ++ behind, ?_, hmargin⟩
  have htext : front ++ (piece ++ (rest ++ stop)) =
      start ++ (lastLine front ++ (piece ++ rest) ++ stop) := by
    nth_rewrite 1 [hfront]
    simp only [List.append_assoc]
  rw [htext, hwhole, hline]
  simp

/-- Two pieces, one behind the other, stay so. -/
theorem exists_relaid_pair (h : IsPiece piece) (hnext : IsPiece next)
    (front mid back : List Char) :
    ∃ before margin between after,
      relaid indent (front ++ (piece ++ (mid ++ (next ++ back)))) =
        before ++ '\n' :: (margin ++ piece) ++ between ++ next ++ after ∧
      ((∀ c ∈ lastLine front, Layout.isBlankOfLine c) → ∀ c ∈ margin, Layout.isBlankOfLine c) := by
  by_cases hmid : '\n' ∈ mid
  · obtain ⟨first, second, rfl⟩ := List.append_of_mem hmid
    obtain ⟨before, margin, after, hfirst, hmargin⟩ := exists_relaid hindent h front first
    obtain ⟨before', margin', after', hsecond, -⟩ := exists_relaid hindent hnext second back
    refine ⟨before, margin, after ++ before' ++ '\n' :: margin', after', ?_, hmargin⟩
    have hbreak : front ++ (piece ++ (first ++ '\n' :: second ++ (next ++ back))) =
        (front ++ (piece ++ first)) ++ '\n' :: (second ++ (next ++ back)) := by simp
    rw [hbreak, relaid_append_cons, hfirst, hsecond]
    simp
  · obtain ⟨before, margin, after, hrelaid, hmargin⟩ :=
      exists_relaid hindent (h.append hmid hnext) front back
    refine ⟨before, margin, mid, after, ?_, hmargin⟩
    simpa using hrelaid

theorem exists_relaid_triple {last : List Char} (h : IsPiece piece) (hnext : IsPiece next)
    (hlast : IsPiece last) (front mid mid' back : List Char) :
    ∃ before between between' after,
      relaid indent (front ++ (piece ++ (mid ++ (next ++ (mid' ++ (last ++ back)))))) =
        before ++ piece ++ between ++ next ++ between' ++ last ++ after := by
  by_cases hmid : '\n' ∈ mid
  · obtain ⟨first, second, rfl⟩ := List.append_of_mem hmid
    obtain ⟨before, margin, after, hfirst, -⟩ := exists_relaid hindent h front first
    obtain ⟨before', margin', between, after', hsecond, -⟩ :=
      exists_relaid_pair hindent hnext hlast second mid' back
    refine ⟨before ++ '\n' :: margin, after ++ before' ++ '\n' :: margin', between, after', ?_⟩
    have hbreak : front ++ (piece ++
          (first ++ '\n' :: second ++ (next ++ (mid' ++ (last ++ back))))) =
        (front ++ (piece ++ first)) ++ '\n' :: (second ++ (next ++ (mid' ++ (last ++ back)))) := by
      simp
    rw [hbreak, relaid_append_cons, hfirst, hsecond]
    simp
  · obtain ⟨before, margin, between, after, hrelaid, -⟩ :=
      exists_relaid_pair hindent (h.append hmid hnext) hlast front mid' back
    refine ⟨before ++ '\n' :: margin, mid, between, after, ?_⟩
    simpa using hrelaid

end

/-! ### The lines of statements -/

variable {t : Setting} {v : Visit} {f : Frame} {indent : List Char} {scope : List String}

/-- The lines of a body's statements are those of the compiled text of each of them. -/
theorem statementLines_mem {ps : List (Place × Node)} {own : List String}
    (h : statementLines t v f indent scope ps = .ok own) {p : Place} {n : Node}
    (hmem : (p, n) ∈ ps) :
    ∃ scope' text scope'', render t v f p scope' n = .ok (text, scope'') ∧
      (solidLines text).map (laidOut indent) <:+: own := by
  induction ps generalizing scope own with
  | nil => cases hmem
  | cons first ps ih =>
    obtain ⟨q, m⟩ := first
    rw [statementLines] at h
    obtain ⟨⟨text, next⟩, htext, h⟩ := bind_eq_ok_iff.mp h
    obtain ⟨more, hmore, h⟩ := bind_eq_ok_iff.mp h
    cases h
    rcases List.mem_cons.mp hmem with heq | hmem
    · cases heq
      exact ⟨scope, text, next, htext, (List.prefix_append _ _).isInfix⟩
    · obtain ⟨scope', text', scope'', hrender, hlines⟩ := ih hmore hmem
      exact ⟨scope', text', scope'', hrender, hlines.trans (List.suffix_append _ _).isInfix⟩

theorem infix_join {text : String} {texts : List String} (h : text ∈ texts) :
    text.toList <:+: (String.join texts).toList := by
  obtain ⟨front, back, rfl⟩ := List.append_of_mem h
  refine ⟨(String.join front).toList, (String.join back).toList, ?_⟩
  simp [String.toList_join]

theorem break_intercalate {lines : List String} (h : lines ≠ []) :
    "\n" ++ "\n".intercalate lines = String.join (lines.map ("\n" ++ ·)) := by
  induction lines with
  | nil => exact absurd rfl h
  | cons line lines ih =>
    cases lines with
    | nil => simp
    | cons next lines =>
      rw [String.intercalate_cons_cons, List.map_cons, String.join_cons, ← ih (by simp)]
      simp only [String.append_assoc]

/-- The lines of a text that are among those between braces are its lines laid out anew. -/
theorem relaid_infix_bracedLines {cs : List Char} {lines : List String}
    (h : (solidLines cs).map (laidOut indent) <:+: lines) (outer : String) :
    relaid indent cs <:+: (bracedLines outer lines).toList := by
  have hjoin : ∀ texts : List String,
      (String.join (texts.map ("\n" ++ ·))).toList =
        texts.flatMap fun text => '\n' :: text.toList := by
    intro texts
    simp [String.toList_join, List.flatMap_map]
  by_cases hlines : lines = []
  · subst hlines
    have hnone := List.map_eq_nil_iff.mp (List.infix_nil.mp h)
    rw [relaid, hnone]
    exact List.nil_infix
  · obtain ⟨front, back, rfl⟩ := h
    rw [bracedLines, if_neg (by simpa using hlines), break_intercalate hlines,
      String.toList_append, String.toList_append, hjoin, List.flatMap_append, List.flatMap_append,
      List.flatMap_map, List.append_assoc, List.append_assoc, List.append_assoc]
    exact (List.prefix_append _ _).isInfix.trans (List.suffix_append _ _).isInfix

end Emit

end CompilingProxy
