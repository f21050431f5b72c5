import CompilingProxy.Grammar.Lexeme
import CompilingProxy.Module.Path
import CompilingProxy.Proofs.Text.Split

/-!
# String literals and the paths between their quotes

A text can stand between quotes when it has no quote and no line's end outside escapes, and no
escape that is not one. A slash or a dot ends whatever escape has begun before it, so that the
pieces of a quoted path can be put together anew.
-/

namespace CompilingProxy

namespace Lexeme

open Text

/-- A character that stands for itself in a string between such quotes. -/
def isPlainIn (quote c : Char) : Bool := !(c == quote || c == '\\' || c == '\n' || c == '\r')

/-- Whether the text can stand between the quotes, when its first characters are those of an escape
that has begun before it. -/
def isQuotable (quote : Char) : (skip : Nat) → List Char → Bool
  | 0, [] => true
  | _ + 1, [] => false
  | skip + 1, _ :: cs => isQuotable quote skip cs
  | 0, c :: cs =>
    if c = '\\' then
      match escape? (c :: cs) with
      | some n => isQuotable quote (n - 1) cs
      | none => false
    else isPlainIn quote c && isQuotable quote 0 cs

/-- Whether the text is a string with its quotes. -/
def isLiteral : List Char → Bool
  | [] => false
  | quote :: rest =>
    (quote == '"' || quote == '\'') && rest.getLast? == some quote &&
      isQuotable quote 0 rest.dropLast

/-- The characters between the segments of a path and between a name and its suffix. -/
def isMark (c : Char) : Bool := c == '/' || c == '.'

variable {quote d : Char} {xs ys : List Char} {n skip : Nat}

theorem eq_of_isMark (hd : isMark d) : d = '/' ∨ d = '.' := by
  simpa [isMark] using hd

/-! ### Escapes -/

theorem runFrom_le (p : Char → Bool) (n : Nat) (xs : List Char) :
    runFrom p n xs ≤ n + xs.length := by
  induction xs generalizing n with
  | nil => exact Nat.le_refl _
  | cons x xs ih =>
    rw [runFrom]
    split
    · have hrest := ih (n + 1)
      rw [List.length_cons]
      omega
    · omega

theorem run_le (p : Char → Bool) (xs : List Char) : run p xs ≤ xs.length := by
  have hle := runFrom_le p 0 xs
  rwa [Nat.zero_add] at hle

theorem runFrom_append {p : Char → Bool} (hd : p d = false) (n : Nat) (xs ys : List Char) :
    runFrom p n (xs ++ d :: ys) = runFrom p n xs := by
  induction xs generalizing n with
  | nil => simp [runFrom, hd]
  | cons x xs ih =>
    rw [List.cons_append, runFrom, runFrom, ih]

theorem run_append {p : Char → Bool} (hd : p d = false) (xs ys : List Char) :
    run p (xs ++ d :: ys) = run p xs :=
  runFrom_append hd 0 xs ys

theorem head?_drop_append (h : n ≤ xs.length) {c : Char} (hc : c ≠ d) :
    (((xs ++ d :: ys).drop n).head? == some c) = ((xs.drop n).head? == some c) := by
  rw [List.drop_append_of_le_length h]
  cases xs.drop n with
  | nil => simp [Ne.symm hc]
  | cons x rest => rfl

theorem unicodeEscape?_braced :
    unicodeEscape? ('\\' :: 'u' :: '{' :: xs) =
      if run isHexDigit xs > 0 && (xs.drop (run isHexDigit xs)).head? == some '}' then
        some (run isHexDigit xs + 4) else none := rfl

theorem unicodeEscape?_unbraced (h : ∀ cs, xs ≠ '{' :: cs) :
    unicodeEscape? ('\\' :: 'u' :: xs) =
      if 4 ≤ xs.length && (xs.take 4).all isHexDigit then some 6 else none := by
  unfold unicodeEscape?
  split
  case h_1 heq => exact absurd (List.cons.inj (List.cons.inj heq).2).2 (h _)
  case h_2 heq =>
    rw [(List.cons.inj (List.cons.inj heq).2).2]
    simp
  case h_3 hshort =>
    match xs with
    | [] | [_] | [_, _] | [_, _, _] => simp
    | _ :: _ :: _ :: _ :: _ => exact absurd rfl (hshort _ _ _ _ _)

theorem isHexDigit_of_isMark (hd : isMark d) : isHexDigit d = false := by
  rcases eq_of_isMark hd with rfl | rfl <;> decide

/-- A mark is no part of an escape by its number. -/
theorem unicodeEscape?_append (hd : isMark d) :
    unicodeEscape? ('\\' :: 'u' :: (xs ++ d :: ys)) = unicodeEscape? ('\\' :: 'u' :: xs) := by
  have hhex := isHexDigit_of_isMark hd
  by_cases hbrace : ∃ cs, xs = '{' :: cs
  · obtain ⟨cs, rfl⟩ := hbrace
    have hclose : '}' ≠ d := by rcases eq_of_isMark hd with rfl | rfl <;> decide
    rw [List.cons_append, unicodeEscape?_braced, unicodeEscape?_braced, run_append hhex,
      head?_drop_append (run_le _ _) hclose]
  · have hplain : ∀ cs, xs ≠ '{' :: cs := fun cs h => hbrace ⟨cs, h⟩
    have hplain' : ∀ cs, xs ++ d :: ys ≠ '{' :: cs := by
      intro cs h
      cases xs with
      | nil =>
        obtain rfl : d = '{' := (List.cons.inj h).1
        exact absurd hd (by decide)
      | cons x rest => exact hplain rest (by rw [(List.cons.inj h).1])
    rw [unicodeEscape?_unbraced hplain, unicodeEscape?_unbraced hplain']
    by_cases hlong : 4 ≤ xs.length
    · rw [List.take_append_of_le_length hlong]
      have hlonger : 4 ≤ (xs ++ d :: ys).length := by
        rw [List.length_append]
        omega
      simp [hlong, hlonger, -List.length_append]
    · have hmem : d ∈ (xs ++ d :: ys).take 4 := by
        rw [List.take_append, List.mem_append]
        obtain ⟨m, hm⟩ : ∃ m, 4 - xs.length = m + 1 := ⟨3 - xs.length, by omega⟩
        rw [hm, List.take_succ_cons]
        exact .inr List.mem_cons_self
      have hall : ((xs ++ d :: ys).take 4).all isHexDigit = false :=
        List.all_eq_false.mpr ⟨d, hmem, by simp [hhex]⟩
      simp [hlong, hall]

theorem escape?_hex : escape? ('\\' :: 'x' :: xs) =
    if 2 ≤ xs.length && (xs.take 2).all isHexDigit then some 4 else none := by
  match xs with
  | [] | [_] => rfl
  | a :: b :: rest => simp [escape?]

/-- The escapes other than those of a character by its number. -/
theorem escape?_other {c : Char} (hx : c ≠ 'x') (hu : c ≠ 'u') : escape? ('\\' :: c :: xs) =
    if isOctalDigit c then some (2 + min 2 (run isOctalDigit xs))
    else if (c == '\r' || c == '?') &&
      xs.head?.any (fun d => d == '\n' || d.val == 0x2028 || d.val == 0x2029) then some 3
    else some 2 := by
  unfold escape?
  split
  case h_1 heq => exact absurd (List.cons.inj (List.cons.inj heq).2).1 hx
  case h_2 heq => exact absurd (List.cons.inj (List.cons.inj heq).2).1 hu
  case h_3 heq =>
    obtain ⟨rfl, rfl⟩ := List.cons.inj (List.cons.inj heq).2
    cases xs <;> by_cases hreturn : (c == '\r' || c == '?') = true <;> simp [hreturn, hx]
  case h_4 hshort => exact absurd rfl (hshort _ _)

/-- An escape that has begun before a mark does not depend on what stands from the mark on, unless
the mark is what is escaped. -/
theorem escape?_append (hd : isMark d) (hne : xs ≠ []) :
    escape? ('\\' :: (xs ++ d :: ys)) = escape? ('\\' :: xs) := by
  have hhex := isHexDigit_of_isMark hd
  cases xs with
  | nil => exact absurd rfl hne
  | cons c cs =>
    rw [List.cons_append]
    by_cases hu : c = 'u'
    · subst hu
      exact unicodeEscape?_append hd
    · by_cases hx : c = 'x'
      · subst hx
        rw [escape?_hex, escape?_hex]
        match cs with
        | [] => simp [hhex]
        | [a] => simp [hhex]
        | a :: b :: cs => simp
      · have hoctal : isOctalDigit d = false := by
          rcases eq_of_isMark hd with rfl | rfl <;> decide
        have hend : (d == '\n' || d.val == 0x2028 || d.val == 0x2029) = false := by
          rcases eq_of_isMark hd with rfl | rfl <;> decide
        rw [escape?_other hx hu, escape?_other hx hu, run_append hoctal]
        cases cs with
        | nil =>
          rw [List.nil_append, List.head?_cons, Option.any_some, hend]
          rfl
        | cons a cs => rfl

/-- A mark that is escaped is all of its escape. -/
theorem escape?_mark (hd : isMark d) : escape? ('\\' :: d :: ys) = some 2 := by
  rcases eq_of_isMark hd with rfl | rfl
  all_goals
    rw [escape?_other (by decide) (by decide)]
    rfl

/-- An escape takes the backslash and more, and all of it stands there. -/
theorem escape?_bounds (h : escape? ('\\' :: xs) = some n) : 2 ≤ n ∧ n ≤ xs.length + 1 := by
  cases xs with
  | nil => cases h
  | cons c cs =>
    rw [List.length_cons]
    by_cases hu : c = 'u'
    · subst hu
      change unicodeEscape? ('\\' :: 'u' :: cs) = some n at h
      by_cases hbrace : ∃ ds, cs = '{' :: ds
      · obtain ⟨ds, rfl⟩ := hbrace
        rw [unicodeEscape?_braced] at h
        split at h
        case isTrue hclosed =>
          obtain rfl := Option.some.inj h
          have hle := run_le isHexDigit ds
          have hlt : run isHexDigit ds < ds.length := by
            refine Nat.lt_of_not_le fun hge => ?_
            rw [List.drop_eq_nil_of_le hge] at hclosed
            simp at hclosed
          rw [List.length_cons]
          omega
        case isFalse => cases h
      · rw [unicodeEscape?_unbraced fun ds heq => hbrace ⟨ds, heq⟩] at h
        split at h
        case isTrue hlong =>
          rw [Bool.and_eq_true, decide_eq_true_eq] at hlong
          obtain rfl := Option.some.inj h
          omega
        case isFalse => cases h
    · by_cases hx : c = 'x'
      · subst hx
        rw [escape?_hex] at h
        split at h
        case isTrue hlong =>
          rw [Bool.and_eq_true, decide_eq_true_eq] at hlong
          obtain rfl := Option.some.inj h
          omega
        case isFalse => cases h
      · rw [escape?_other hx hu] at h
        have hrun := run_le isOctalDigit cs
        split at h
        · obtain rfl := Option.some.inj h
          omega
        · split at h
          case isTrue hreturn =>
            obtain rfl := Option.some.inj h
            cases cs with
            | nil => simp at hreturn
            | cons a cs => exact ⟨by omega, by simp⟩
          case isFalse =>
            obtain rfl := Option.some.inj h
            omega

/-! ### Pieces of what stands between quotes -/

theorem isPlainIn_of_isMark (hquote : quote = '"' ∨ quote = '\'') (hd : isMark d) :
    isPlainIn quote d := by
  rcases hquote with rfl | rfl <;> rcases eq_of_isMark hd with rfl | rfl <;> decide

theorem isQuotable_plain {c : Char} (h : isPlainIn quote c) :
    isQuotable quote 0 (c :: xs) = isQuotable quote 0 xs := by
  have hc : c ≠ '\\' := by
    rintro rfl
    simp [isPlainIn] at h
  rw [isQuotable, if_neg hc, h, Bool.true_and]

/-- What stands up to a mark and what stands behind it can be judged apart, and which mark it is
does not matter. -/
theorem isQuotable_append (hquote : quote = '"' ∨ quote = '\'') (hd : isMark d)
    (hskip : skip ≤ xs.length + 1) :
    isQuotable quote skip (xs ++ d :: ys) =
      (isQuotable quote skip (xs ++ ['/']) && isQuotable quote 0 ys) := by
  have hslash : isMark '/' := by decide
  induction xs generalizing skip with
  | nil =>
    match skip with
    | 0 =>
      rw [List.nil_append, List.nil_append, isQuotable_plain (isPlainIn_of_isMark hquote hd),
        isQuotable_plain (isPlainIn_of_isMark hquote hslash)]
      simp [isQuotable]
    | 1 => simp [isQuotable]
    | skip + 2 => simp at hskip
  | cons x xs ih =>
    rw [List.length_cons] at hskip
    match skip with
    | skip + 1 => exact ih (Nat.le_of_succ_le_succ hskip)
    | 0 =>
      rw [List.cons_append, List.cons_append, isQuotable, isQuotable]
      split
      case isTrue hx =>
        subst hx
        cases xs with
        | nil =>
          rw [List.nil_append, escape?_mark hd, List.nil_append, escape?_mark hslash]
          exact ih (by simp)
        | cons a xs =>
          rw [escape?_append hd (List.cons_ne_nil a xs),
            escape?_append hslash (List.cons_ne_nil a xs)]
          cases hescape : escape? ('\\' :: a :: xs) with
          | none => rfl
          | some n =>
            have hbounds := escape?_bounds hescape
            exact ih (by omega)
      case isFalse => rw [ih (Nat.zero_le _), Bool.and_assoc]

theorem isQuotable_concat (hquote : quote = '"' ∨ quote = '\'') (hd : isMark d)
    (h : isQuotable quote skip xs) : isQuotable quote skip (xs ++ [d]) := by
  induction xs generalizing skip with
  | nil =>
    cases skip with
    | zero => rw [List.nil_append, isQuotable_plain (isPlainIn_of_isMark hquote hd), isQuotable]
    | succ skip => cases h
  | cons x xs ih =>
    cases skip with
    | succ skip => exact ih h
    | zero =>
      rw [isQuotable] at h
      rw [List.cons_append, isQuotable]
      split
      case isTrue hx =>
        subst hx
        rw [if_pos rfl] at h
        cases xs with
        | nil => cases h
        | cons a xs =>
          rw [escape?_append hd (List.cons_ne_nil a xs)]
          cases hescape : escape? ('\\' :: a :: xs) with
          | none =>
            rw [hescape] at h
            cases h
          | some n =>
            rw [hescape] at h
            exact ih h
      case isFalse hx =>
        rw [if_neg hx, Bool.and_eq_true] at h
        rw [h.1, Bool.true_and]
        exact ih h.2

theorem isQuotable_of_forall (h : ∀ c ∈ xs, isPlainIn quote c) : isQuotable quote 0 xs := by
  induction xs with
  | nil => rw [isQuotable]
  | cons x xs ih =>
    rw [isQuotable_plain (h x List.mem_cons_self)]
    exact ih fun c hc => h c (List.mem_cons_of_mem _ hc)

/-- The pieces of what stands between quotes do so too, up to the marks behind them. -/
theorem isQuotable_of_mem_splitOnChar (hquote : quote = '"' ∨ quote = '\'')
    (h : isQuotable quote 0 xs) {piece : List Char} (hpiece : piece ∈ splitOnChar '/' xs) :
    isQuotable quote 0 (piece ++ ['/']) := by
  obtain ⟨first, rest, hsplit, htext, -⟩ := splitOnChar_spec '/' xs
  rw [← htext] at h
  rw [hsplit] at hpiece
  clear hsplit htext
  induction rest generalizing first with
  | nil =>
    rw [List.flatMap_nil, List.append_nil] at h
    rw [List.mem_singleton.mp hpiece]
    exact isQuotable_concat hquote (by decide) h
  | cons next rest ih =>
    rw [List.flatMap_cons, List.cons_append, isQuotable_append hquote (by decide) (Nat.zero_le _),
      Bool.and_eq_true] at h
    rcases List.mem_cons.mp hpiece with rfl | hpiece
    · exact h.1
    · exact ih next hpiece h.2

/-- Pieces that are put together with marks between them can stand between the quotes. -/
theorem isQuotable_pieces (hquote : quote = '"' ∨ quote = '\'') (hd : isMark d)
    {pieces : List (List Char)} (hxs : isQuotable quote 0 (xs ++ ['/']))
    (hpieces : ∀ s ∈ pieces, isQuotable quote 0 (s ++ ['/'])) :
    isQuotable quote 0 (xs ++ (pieces.flatMap ('/' :: ·) ++ d :: ys)) =
      isQuotable quote 0 ys := by
  induction pieces generalizing xs with
  | nil =>
    rw [List.flatMap_nil, List.nil_append, isQuotable_append hquote hd (Nat.zero_le _), hxs,
      Bool.true_and]
  | cons s pieces ih =>
    rw [List.flatMap_cons, List.cons_append, List.cons_append,
      isQuotable_append hquote (by decide) (Nat.zero_le _), hxs, Bool.true_and, List.append_assoc]
    exact ih (hpieces s List.mem_cons_self) fun t ht => hpieces t (List.mem_cons_of_mem _ ht)

end Lexeme

/-! ### Paths between quotes -/

namespace ModulePath

open Text Lexeme

variable {p target : ModulePath} {path s : List Char} {quote : Char}

/-- The path can be written between quotes of either kind as it is. -/
def isBare (p : ModulePath) : Bool :=
  p.text.toList.all fun c => isPlainIn '"' c && isPlainIn '\'' c

theorem mem_walk {walked : List (List Char)} {piece : List Char} (h : s ∈ walk walked piece) :
    s ∈ walked ∨ s = piece := by
  rw [walk] at h
  split at h
  · exact .inl h
  · split at h
    · exact .inl (List.mem_of_mem_tail h)
    · exact (List.mem_cons.mp h).symm

/-- A path leads through nothing but what stands between its slashes. -/
theorem mem_splitOnChar_of_mem_segments (h : s ∈ segments path) : s ∈ splitOnChar '/' path := by
  rw [segments, List.mem_reverse] at h
  have hwalked : ∀ {pieces walked : List (List Char)}, s ∈ pieces.foldl walk walked →
      s ∈ walked ∨ s ∈ pieces := by
    intro pieces
    induction pieces with
    | nil => exact fun h => .inl h
    | cons piece pieces ih =>
      intro walked h
      rw [List.foldl_cons] at h
      rcases ih h with h | h
      · exact (mem_walk h).imp_right fun heq => List.mem_cons.mpr (.inl heq)
      · exact .inr (List.mem_cons_of_mem _ h)
  exact (hwalked h).resolve_left List.not_mem_nil

theorem afterLast_spec (sep : Char) (path : List Char) :
    ∃ front, path = front ++ afterLast sep path := by
  rw [afterLast]
  split
  case h_1 front back hcut => exact ⟨front ++ [sep], by rw [cutLast?_eq hcut]; simp⟩
  case h_2 => exact ⟨[], rfl⟩

/-- The suffix of a script stands behind a dot. -/
theorem eq_of_hasScriptExtension (h : hasScriptExtension path) :
    ∃ front, ∃ ext ∈ scriptExtensions, path = front ++ '.' :: ext.toList := by
  rw [hasScriptExtension] at h
  split at h
  case h_1 stem ext hcut =>
    obtain ⟨front, hpath⟩ := afterLast_spec '/' path
    rw [cutLast?_eq hcut] at hpath
    rw [Bool.and_eq_true, List.contains_iff_mem] at h
    exact ⟨front ++ stem, _, h.2, by rw [String.toList_ofList, List.append_assoc]; exact hpath⟩
  case h_2 => cases h

/-- What a bare path and a quoted specifier come to can stand between the same quotes. -/
theorem isQuotable_withDefaultExtension (hquote : quote = '"' ∨ quote = '\'')
    (h : ∀ s ∈ splitOnChar '/' path, isQuotable quote 0 (s ++ ['/'])) :
    isQuotable quote 0
      (ModulePath.mk (String.ofList (normalize path))).withDefaultExtension.text.toList := by
  have hsegments : ∀ s ∈ segments path, isQuotable quote 0 (s ++ ['/']) :=
    fun s hs => h s (mem_splitOnChar_of_mem_segments hs)
  rw [normalize]
  generalize segments path = ss at hsegments
  cases ss with
  | nil =>
    have hroot : (ModulePath.mk (String.ofList (renderSegments []))).withDefaultExtension.text.toList
        = "/.ts".toList := by decide
    rw [hroot]
    rcases hquote with rfl | rfl <;> decide
  | cons s ss =>
    have hrender : renderSegments (s :: ss) = '/' :: (s ++ ss.flatMap ('/' :: ·)) := rfl
    have hbehind : ∀ {d : Char} {ys : List Char}, isMark d →
        isQuotable quote 0 (renderSegments (s :: ss) ++ d :: ys) = isQuotable quote 0 ys := by
      intro d ys hd
      rw [hrender, List.cons_append, isQuotable_plain (isPlainIn_of_isMark hquote (by decide)),
        List.append_assoc]
      exact isQuotable_pieces hquote hd (hsegments s List.mem_cons_self)
        fun t ht => hsegments t (List.mem_cons_of_mem _ ht)
    rw [withDefaultExtension, String.toList_ofList]
    split
    case isTrue hext =>
      obtain ⟨front, ext, hscript, heq⟩ := eq_of_hasScriptExtension hext
      rw [String.toList_ofList]
      have hends : isQuotable quote 0 (renderSegments (s :: ss) ++ ['/']) = isQuotable quote 0 [] :=
        hbehind (by decide)
      rw [heq, List.append_assoc, List.cons_append,
        isQuotable_append hquote (by decide) (Nat.zero_le _), isQuotable, Bool.and_eq_true] at hends
      rw [heq, isQuotable_append hquote (by decide) (Nat.zero_le _), hends.1, Bool.true_and]
      rw [scriptExtensions] at hscript
      simp only [List.mem_cons, List.not_mem_nil, or_false] at hscript
      rcases hquote with rfl | rfl <;> rcases hscript with rfl | rfl | rfl | rfl <;> decide
    case isFalse =>
      rw [String.toList_append, String.toList_ofList]
      have hsuffix : isQuotable quote 0 (renderSegments (s :: ss) ++ ".ts".toList) =
          isQuotable quote 0 "ts".toList := hbehind (by decide)
      rw [hsuffix]
      rcases hquote with rfl | rfl <;> decide

theorem isQuotable_of_mem_dir (hquote : quote = '"' ∨ quote = '\'') (hbare : p.isBare)
    {specifier : List Char} (hspecifier : isQuotable quote 0 specifier)
    (hs : s ∈ splitOnChar '/' (p.dir ++ specifier)) : isQuotable quote 0 (s ++ ['/']) := by
  have hplain : ∀ c ∈ p.text.toList, isPlainIn quote c := by
    intro c hc
    have hboth := List.all_eq_true.mp hbare c hc
    rw [Bool.and_eq_true] at hboth
    rcases hquote with rfl | rfl
    · exact hboth.1
    · exact hboth.2
  obtain ⟨front, hfront, hdir⟩ : ∃ front, front ⊆ p.text.toList ∧ p.dir = front ++ ['/'] := by
    rw [dir]
    split
    case h_1 front back hcut =>
      refine ⟨front, ?_, rfl⟩
      rw [cutLast?_eq hcut]
      exact List.subset_append_left _ _
    case h_2 => exact ⟨[], List.nil_subset _, rfl⟩
  rw [hdir, List.append_assoc, List.singleton_append, splitOnChar_append_cons,
    List.mem_append] at hs
  rcases hs with hs | hs
  · refine isQuotable_concat hquote (by decide) (isQuotable_of_forall fun c hc => ?_)
    exact hplain c (hfront (subset_of_mem_splitOnChar hs hc))
  · exact isQuotable_of_mem_splitOnChar hquote hspecifier hs

/-- A specifier that a bare path makes canonical stays a literal. -/
theorem isLiteral_respelled {rest : List Char} (hbare : p.isBare)
    (hliteral : isLiteral (quote :: rest))
    (htarget : p.resolve? (String.ofList rest.dropLast) = some target) :
    isLiteral (quote :: target.withDefaultExtension.text.toList ++ [quote]) := by
  rw [isLiteral, Bool.and_eq_true, Bool.and_eq_true, Bool.or_eq_true, beq_iff_eq,
    beq_iff_eq] at hliteral
  obtain ⟨⟨hquote, -⟩, hquotable⟩ := hliteral
  rw [List.cons_append, isLiteral, List.getLast?_concat, List.dropLast_concat, beq_self_eq_true,
    Bool.and_true, Bool.and_eq_true, Bool.or_eq_true, beq_iff_eq, beq_iff_eq]
  refine ⟨hquote, ?_⟩
  rw [resolve?, String.toList_ofList] at htarget
  split at htarget
  · rw [← Option.some.inj htarget]
    exact isQuotable_withDefaultExtension hquote
      fun s => isQuotable_of_mem_dir hquote hbare hquotable
  · split at htarget
    · rw [← Option.some.inj htarget]
      exact isQuotable_withDefaultExtension hquote
        fun s => isQuotable_of_mem_splitOnChar hquote hquotable
    · cases htarget

end ModulePath

end CompilingProxy
