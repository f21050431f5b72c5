import Mathlib.Algebra.Group.Nat.Defs
import CompilingProxy.Proofs.Time.Calendar
import CompilingProxy.Time.Reading

/-!
# Reading dates that were written

The date that is written of an instant is read as the instant again, whatever text the instant was
read from first.
-/

namespace CompilingProxy

open Text Calendar Instant

namespace DateReader

/-! ### Steps of a reader -/

section

variable {α β : Type} {x : DateReader α} {f : α → DateReader β} {a : α} {cs rest : List Char}

theorem bind_run (h : x.run cs = some (a, rest)) : (x >>= f).run cs = (f a).run rest := by
  rw [StateT.run_bind, h]
  rfl

theorem set_bind_run {f : PUnit → DateReader β} : (set rest >>= f).run cs = (f ⟨⟩).run rest := rfl

theorem get_bind_run {f : List Char → DateReader β} : (get >>= f).run cs = (f cs).run cs := rfl

/-- The text does not begin with a character of the kind. -/
def Stops (kind : Char → Bool) (cs : List Char) : Prop := ∀ c rest, cs = c :: rest → kind c = false

theorem stops_nil {kind : Char → Bool} : Stops kind [] := by
  rintro _ _ ⟨⟩

theorem stops_cons {kind : Char → Bool} {c : Char} (h : kind c = false) :
    Stops kind (c :: rest) := by
  rintro _ _ ⟨⟩
  exact h

theorem takeWhile_append_of_stops {kind : Char → Bool} {ds : List Char}
    (hds : ∀ c ∈ ds, kind c) (hrest : Stops kind rest) : (ds ++ rest).takeWhile kind = ds := by
  induction ds with
  | nil =>
    cases rest with
    | nil => rfl
    | cons c rest => rw [List.nil_append, List.takeWhile_cons_of_neg (by simp [hrest c rest rfl])]
  | cons d ds ih =>
    rw [List.cons_append, List.takeWhile_cons_of_pos (hds d List.mem_cons_self),
      ih fun c hc => hds c (List.mem_cons_of_mem _ hc)]

theorem blanks_run (h : Stops isBlank cs) : blanks.run cs = some ((), cs) := by
  have hkept : cs.dropWhile isBlank = cs := by
    cases cs with
    | nil => rfl
    | cons c cs => exact List.dropWhile_cons_of_neg (by simp [h c cs rfl])
  have hrun : blanks.run cs = some ((), cs.dropWhile isBlank) := rfl
  rw [hrun, hkept]

theorem mark_run {c : Char} : (mark c).run (c :: rest) = some ((), rest) := by
  rw [mark, get_bind_run]
  dsimp only
  rw [if_pos rfl]
  rfl

theorem isBlank_of_isDigit {c : Char} (h : c.isDigit) : isBlank c = false := by
  rw [Char.isDigit_iff_toNat] at h
  have hlow : 48 ≤ c.toNat := h.1
  have hhigh : c.toNat ≤ 57 := h.2
  simp only [isBlank, Bool.or_eq_false_iff, Bool.and_eq_false_iff, decide_eq_false_iff_not,
    beq_eq_false_iff_ne, UInt32.le_iff_toNat_le, ne_eq, ← UInt32.toNat_inj]
  simp
  omega

/-! ### Digits -/

theorem digits_run {ds : List Char} {least most : Nat} (hds : ∀ c ∈ ds, c.isDigit)
    (hleast : least ≤ ds.length) (hmost : ds.length ≤ most)
    (hend : ds.length = most ∨ Stops Char.isDigit rest) :
    (digits least most).run (ds ++ rest) =
      some ((Nat.ofDigitChars 10 ds 0, ds.length), rest) := by
  have hread : ((ds ++ rest).take most).takeWhile Char.isDigit = ds := by
    rw [List.take_append, List.take_of_length_le hmost]
    apply takeWhile_append_of_stops hds
    rcases hend with hend | hend
    · rw [hend, Nat.sub_self]
      rintro _ _ ⟨⟩
    · intro c more hmore
      cases rest with
      | nil => simp at hmore
      | cons d rest =>
        cases hleft : most - ds.length with
        | zero => simp [hleft] at hmore
        | succ n =>
          rw [hleft, List.take_succ_cons] at hmore
          obtain ⟨rfl, -⟩ := List.cons.inj hmore
          exact hend _ rest rfl
  have hvalue : ds.foldl (fun n c => n * 10 + (c.toNat - 48)) 0 = Nat.ofDigitChars 10 ds 0 := by
    rw [Nat.ofDigitChars_eq_foldl]
    congr 1
    funext n c
    rw [Nat.mul_comm]
    rfl
  rw [digits, get_bind_run, hread]
  dsimp only
  rw [if_neg (Nat.not_lt.mpr hleast), hvalue]
  have hdrop : (ds ++ rest).drop ds.length = rest := List.drop_left
  rw [hdrop]
  rfl

theorem number_run {ds : List Char} {least most : Nat} (hds : ∀ c ∈ ds, c.isDigit)
    (hleast : least ≤ ds.length) (hmost : ds.length ≤ most)
    (hend : ds.length = most ∨ Stops Char.isDigit rest) :
    (number least most).run (ds ++ rest) = some (Nat.ofDigitChars 10 ds 0, rest) := by
  rw [number, bind_run (digits_run hds hleast hmost hend)]
  rfl

/-- A number with zeros in front is written in digits that stand for it. -/
structure AreDigitsOf (ds : List Char) (width n : Nat) : Prop where
  isDigit : ∀ c ∈ ds, c.isDigit
  length : width ≤ ds.length ∧ (n < 10 ^ width → 0 < width → ds.length = width)
  value : Nat.ofDigitChars 10 ds 0 = n

theorem padded_areDigitsOf (width n : Nat) : AreDigitsOf (padded width n).toList width n := by
  have hlist : (padded width n).toList =
      List.replicate (width - (Nat.toDigits 10 n).length) '0' ++ Nat.toDigits 10 n := by
    rw [padded, Nat.toString_eq_ofList_toDigits, String.toList_append, String.toList_ofList,
      String.toList_ofList, String.length_ofList]
  rw [hlist]
  refine ⟨fun c hc => ?_, ⟨?_, fun hn hwidth => ?_⟩, ?_⟩
  · rcases List.mem_append.mp hc with hc | hc
    · rw [List.eq_of_mem_replicate hc]
      rfl
    · exact Nat.isDigit_of_mem_toDigits (by decide) (by decide) hc
  · rw [List.length_append, List.length_replicate]
    omega
  · have hfits := (Nat.length_toDigits_le_iff (by decide) hwidth).mpr hn
    rw [List.length_append, List.length_replicate]
    omega
  · rw [Nat.ofDigitChars_append, Nat.ofDigitChars_replicate_zero, Nat.mul_zero,
      Nat.ofDigitChars_ten_toDigits]

/-- A number is read from as many digits as it is written in. -/
theorem number_padded {least width n : Nat} (hleast : least ≤ width) (hwidth : 0 < width)
    (hn : n < 10 ^ width) :
    (number least width).run ((padded width n).toList ++ rest) = some (n, rest) := by
  obtain ⟨hdigits, ⟨-, hlength⟩, hvalue⟩ := padded_areDigitsOf width n
  rw [number_run hdigits (by rw [hlength hn hwidth]; exact hleast)
    (Nat.le_of_eq (hlength hn hwidth)) (.inl (hlength hn hwidth)), hvalue]

theorem padded_eq_cons {width : Nat} (n : Nat) (hwidth : 0 < width) :
    ∃ d ds, (padded width n).toList = d :: ds ∧ d.isDigit := by
  obtain ⟨hdigits, ⟨hlength, -⟩, -⟩ := padded_areDigitsOf width n
  cases hds : (padded width n).toList with
  | nil =>
    rw [hds] at hlength
    exact absurd hlength (Nat.not_le.mpr hwidth)
  | cons d ds =>
    rw [hds] at hdigits
    exact ⟨d, ds, rfl, hdigits d List.mem_cons_self⟩

theorem stops_blank_padded {width n : Nat} (hwidth : 0 < width) :
    Stops isBlank ((padded width n).toList ++ rest) := by
  obtain ⟨d, ds, hds, hdigit⟩ := padded_eq_cons n hwidth
  rw [hds]
  exact stops_cons (isBlank_of_isDigit hdigit)

/-! ### Dates of documents -/

theorem signedYear_minus :
    signedYear.run ('-' :: cs) = (do return -((← number 1 cs.length) : Int)).run cs := rfl

theorem signedYear_plus :
    signedYear.run ('+' :: cs) = (do return ((← number 1 cs.length) : Int)).run cs := rfl

theorem number_all {n : Nat} (hrest : Stops Char.isDigit rest) :
    (number 1 ((padded 4 n).toList ++ rest).length).run ((padded 4 n).toList ++ rest) =
      some (n, rest) := by
  obtain ⟨hdigits, ⟨hlength, -⟩, hvalue⟩ := padded_areDigitsOf 4 n
  rw [number_run hdigits (Nat.le_trans (by decide) hlength) (by simp) (.inr hrest), hvalue]

theorem signedYear_run {year : Int} (hrest : Stops Char.isDigit rest) :
    signedYear.run ((yearText year).toList ++ rest) = some (year, rest) := by
  rw [yearText]
  split
  case isTrue hyear =>
    have hfits : year.toNat < 10 ^ 4 := by omega
    have hnumber : (number 1 4).run ((padded 4 year.toNat).toList ++ rest) =
        some (year.toNat, rest) := number_padded (by decide) (by decide) hfits
    obtain ⟨d, ds, hds, hdigit⟩ := padded_eq_cons year.toNat (by decide : 0 < 4)
    rw [signedYear, bind_run (blanks_run (stops_blank_padded (by decide))), get_bind_run]
    split
    case h_1 hminus =>
      rw [hds] at hminus
      cases hminus
      cases hdigit
    case h_2 hplus =>
      rw [hds] at hplus
      cases hplus
      cases hdigit
    case h_3 =>
      rw [bind_run hnumber, Int.toNat_of_nonneg hyear.1]
      rfl
  case isFalse hyear =>
    split
    case isTrue hnegative =>
      have hminus : ("-" ++ padded 4 year.natAbs).toList ++ rest =
          '-' :: ((padded 4 year.natAbs).toList ++ rest) := by simp
      have hvalue : -(year.natAbs : Int) = year := by omega
      rw [hminus, signedYear_minus, bind_run (number_all hrest), hvalue]
      rfl
    case isFalse hpositive =>
      have hplus : ("+" ++ padded 4 year.natAbs).toList ++ rest =
          '+' :: ((padded 4 year.natAbs).toList ++ rest) := by simp
      have hvalue : (year.natAbs : Int) = year := by omega
      rw [hplus, signedYear_plus, bind_run (number_all hrest), hvalue]
      rfl

theorem nanoseconds_dot :
    nanoseconds.run ('.' :: cs) = (digits 1 9 >>= fun (n, length) => do
      modify (·.dropWhile Char.isDigit)
      return n * Nat.pow 10 (9 - length)).run cs := rfl

/-- Digits behind a point count as billionths. -/
theorem nanoseconds_point {width n : Nat} (hwidth : 0 < width ∧ width ≤ 9) (hn : n < 10 ^ width)
    (hrest : Stops Char.isDigit rest) :
    nanoseconds.run ('.' :: ((padded width n).toList ++ rest)) =
      some (n * Nat.pow 10 (9 - width), rest) := by
  obtain ⟨hdigits, ⟨-, hlength⟩, hvalue⟩ := padded_areDigitsOf width n
  have hwritten := hlength hn hwidth.1
  have hread : (digits 1 9).run ((padded width n).toList ++ rest) =
      some ((n, width), rest) := by
    rw [digits_run hdigits (by rw [hwritten]; exact hwidth.1) (by rw [hwritten]; exact hwidth.2)
      (.inr hrest), hvalue, hwritten]
  have hdropped : rest.dropWhile Char.isDigit = rest := by
    cases rest with
    | nil => rfl
    | cons c rest => exact List.dropWhile_cons_of_neg (by simp [hrest c rest rfl])
  have hskip : (modify (·.dropWhile Char.isDigit) : DateReader PUnit).run rest =
      some (⟨⟩, rest) := by
    have hmodify : (modify (·.dropWhile Char.isDigit) : DateReader PUnit).run rest =
        some (⟨⟩, rest.dropWhile Char.isDigit) := rfl
    rw [hmodify, hdropped]
  rw [nanoseconds_dot, bind_run hread]
  dsimp only
  rw [bind_run hskip]
  generalize n * Nat.pow 10 (9 - width) = value
  rfl

theorem nanoseconds_run {n : Nat} (hn : n < 1000000000) (hrest : Stops Char.isDigit rest)
    (hpoint : Stops (· == '.') rest) :
    nanoseconds.run ((fraction n).toList ++ rest) = some (n, rest) := by
  have hdotted (s : String) : ("." ++ s).toList ++ rest = '.' :: (s.toList ++ rest) := by simp
  rw [fraction]
  split
  case isTrue hzero =>
    rw [nanoseconds, get_bind_run]
    split
    case h_1 hdot => cases hpoint _ _ hdot
    case h_2 =>
      rw [hzero]
      rfl
  split
  case isTrue hmillis =>
    rw [hdotted, nanoseconds_point (by decide) (by omega) hrest]
    have hvalue : n / 1000000 * Nat.pow 10 (9 - 3) = n := by
      rw [show Nat.pow 10 (9 - 3) = 1000000 from rfl]
      omega
    rw [hvalue]
  split
  case isTrue hmicros =>
    rw [hdotted, nanoseconds_point (by decide) (by omega) hrest]
    have hvalue : n / 1000 * Nat.pow 10 (9 - 6) = n := by
      rw [show Nat.pow 10 (9 - 6) = 1000 from rfl]
      omega
    rw [hvalue]
  case isFalse =>
    rw [hdotted, nanoseconds_point (by decide) (by omega) hrest]
    exact congrArg (fun n => some (n, rest)) (Nat.mul_one n)

theorem documentZone_run : documentZone.run ['Z'] = some (0, []) := by
  rw [documentZone, get_bind_run]
  rfl

theorem documentDate_run (year : Int) {month day hour minute second n : Nat} (hmonth : month < 100)
    (hday : day < 100) (hhour : hour < 100) (hminute : minute < 100) (hsecond : second < 100)
    (hn : n < 1000000000) :
    documentDate.run (s!"{yearText year}-{padded 2 month}-{padded 2 day}T" ++
      Instant.clockText hour minute second ++ Instant.fraction n ++ "Z").toList =
      some (⟨year, month, day, hour, minute, second, n, 0, none⟩, []) := by
  have htext : (s!"{yearText year}-{padded 2 month}-{padded 2 day}T" ++
      Instant.clockText hour minute second ++ Instant.fraction n ++ "Z").toList =
      (yearText year).toList ++ '-' :: ((padded 2 month).toList ++ '-' ::
        ((padded 2 day).toList ++ 'T' :: ((padded 2 hour).toList ++ ':' ::
          ((padded 2 minute).toList ++ ':' :: ((padded 2 second).toList ++
            ((fraction n).toList ++ ['Z'])))))) := by
    simp [clockText, toString]
  have htwo {k : Nat} {more : List Char} (hk : k < 100) :
      (number 1 2).run ((padded 2 k).toList ++ more) = some (k, more) :=
    number_padded (by decide) (by decide) hk
  have hzone : Stops Char.isDigit ['Z'] ∧ Stops (· == '.') ['Z'] :=
    ⟨stops_cons rfl, stops_cons rfl⟩
  rw [htext, documentDate, bind_run (signedYear_run (stops_cons rfl)),
    bind_run (blanks_run (stops_cons rfl)), bind_run mark_run,
    bind_run (blanks_run (stops_blank_padded (by decide))), bind_run (htwo hmonth),
    bind_run (blanks_run (stops_cons rfl)), bind_run mark_run,
    bind_run (blanks_run (stops_blank_padded (by decide))), bind_run (htwo hday), get_bind_run]
  split
  case h_1 htime =>
    obtain ⟨-, rfl⟩ := List.cons.inj htime
    rw [set_bind_run, bind_run (blanks_run (stops_blank_padded (by decide))), bind_run (htwo hhour),
      bind_run (blanks_run (stops_cons rfl)), bind_run mark_run,
      bind_run (blanks_run (stops_blank_padded (by decide))), bind_run (htwo hminute),
      bind_run (blanks_run (stops_cons rfl)), bind_run mark_run,
      bind_run (blanks_run (stops_blank_padded (by decide))), bind_run (htwo hsecond),
      bind_run (nanoseconds_run hn hzone.1 hzone.2), bind_run (blanks_run (stops_cons rfl)),
      bind_run documentZone_run, bind_run (blanks_run stops_nil), StateT.run_pure]
    rfl
  case h_2 htime => simp at htime
  case h_3 htime => simp at htime
  case h_4 htime _ _ => exact absurd rfl (htime _)

end

/-! ### Dates in headers -/

section

variable {α β : Type} {x : DateReader α} {f : α → DateReader β}

/-- Whatever the reader reads is of the kind. -/
def Gives (kind : α → Prop) (x : DateReader α) : Prop :=
  ∀ cs a rest, x.run cs = some (a, rest) → kind a

theorem Gives.pure {kind : α → Prop} {a : α} (h : kind a) : Gives kind (pure a : DateReader α) := by
  intro cs b rest hb
  cases hb
  exact h

theorem Gives.failure {kind : α → Prop} : Gives kind (failure : DateReader α) := by
  intro cs a rest h
  cases h

theorem Gives.bind {kind : β → Prop} {kind' : α → Prop} (hx : Gives kind' x)
    (hf : ∀ a, kind' a → Gives kind (f a)) : Gives kind (x >>= f) := by
  intro cs b rest h
  rw [StateT.run_bind] at h
  obtain ⟨⟨a, mid⟩, ha, hb⟩ := Option.bind_eq_some_iff.mp h
  exact hf a (hx cs a mid ha) mid b rest hb

theorem Gives.after {kind : β → Prop} (hf : ∀ a, Gives kind (f a)) : Gives kind (x >>= f) := by
  have hx : Gives (fun _ => True) x := fun _ _ _ _ => trivial
  exact hx.bind fun a _ => hf a

theorem gives_offset {signs : List (Char × Int)} {between : DateReader Unit} :
    Gives (fun east => (60 : Int) ∣ east) (offset signs between) := by
  unfold offset
  refine .after fun cs => ?_
  split
  case h_1 =>
    split
    case h_1 =>
      refine .after fun _ => .after fun hours => .after fun _ => .after fun minutes => ?_
      split
      · exact .failure
      · refine .pure (Int.dvd_trans ?_ (Int.dvd_mul_left _ _))
        omega
    case h_2 => exact .failure
  case h_2 => exact .failure

theorem gives_zone : Gives (fun east => (60 : Int) ∣ east) zone := by
  unfold zone
  refine .after fun cs => ?_
  dsimp only
  split
  · exact gives_offset
  · refine .after fun _ => ?_
    split
    · exact .pure (by omega)
    · split
      · exact .pure (by omega)
      · exact .failure

/-- A date in the form of mail has whole seconds, and a zone of whole minutes. -/
theorem gives_mailDate :
    Gives (fun r : Reading => r.nanoseconds = 0 ∧ (60 : Int) ∣ r.offset) mailDate := by
  unfold mailDate
  refine .after fun _ => .after fun _ => .after fun _ => .after fun _ => .after fun _ =>
    .after fun _ => .after fun _ => .after fun _ => .after fun _ => ?_
  refine .after fun _ => .after fun _ => .after fun _ => .after fun _ => .after fun _ =>
    .after fun _ => .after fun _ => .after fun _ => .bind gives_zone fun east heast => ?_
  exact .after fun _ => .after fun _ => .pure ⟨rfl, heast⟩

end

end DateReader

/-! ### Instants -/

namespace Instant

/-- The instant can be written in a document: the calendar goes as far, and only the last second of a
minute is a leap second. -/
structure IsWritable (i : Instant) : Prop where
  covered : covers i.seconds
  second : i.nanoseconds < 1000000000 ∨ i.nanoseconds < 2000000000 ∧ i.seconds % 60 = 59

theorem parts_eq {i : Instant} {days : Int} {hour minute second nanoseconds : Nat}
    (h : parts i = (days, hour, minute, second, nanoseconds)) (hi : i.IsWritable) :
    hour < 24 ∧ minute < 60 ∧ second ≤ 60 ∧ nanoseconds < 1000000000 ∧
      i.seconds = days * 86400 + (hour * 3600 + minute * 60 + if second = 60 then 59 else second : Nat) ∧
      i.nanoseconds = if second = 60 then nanoseconds + 1000000000 else nanoseconds := by
  obtain ⟨-, hsecond⟩ := hi
  rw [parts, Int.fdiv_eq_ediv_of_nonneg _ (by decide)] at h
  simp only [Prod.mk.injEq] at h
  obtain ⟨rfl, rfl, rfl, h⟩ := h
  split at h
  case isTrue hleap =>
    obtain ⟨rfl, rfl⟩ := h
    dsimp only
    have hminute : (i.seconds - i.seconds / 86400 * 86400).toNat % 60 = 59 := by omega
    rw [hminute]
    refine ⟨by omega, by omega, by omega, by omega, ?_, ?_⟩
    · rw [if_pos rfl]
      omega
    · rw [if_pos rfl]
      omega
  case isFalse hplain =>
    obtain ⟨rfl, rfl⟩ := h
    dsimp only
    have hless : (i.seconds - i.seconds / 86400 * 86400).toNat % 60 < 60 := Nat.mod_lt _ (by decide)
    rw [if_neg (by omega), if_neg (by omega)]
    exact ⟨by omega, by omega, by omega, by omega, by omega, rfl⟩

/-- An instant that can be written in a document is read back from there. -/
theorem ofDocument?_documentText {i : Instant} (hi : i.IsWritable) :
    ofDocument? i.documentText = some i := by
  obtain ⟨⟨days, hour, minute, second, nanoseconds⟩, hparts⟩ : ∃ x, parts i = x := ⟨_, rfl⟩
  obtain ⟨⟨year, month, day⟩, hdate⟩ : ∃ x, date days = x := ⟨_, rfl⟩
  obtain ⟨hhour, hminute, hsecond, hnanoseconds, hseconds, hfraction⟩ := parts_eq hparts hi
  obtain ⟨hnumber, hmonth, hmonth', hday, hday'⟩ := dayNumber_date hdate
  have hlength : daysInMonth year month ≤ 31 := by
    unfold daysInMonth
    split <;> (try split) <;> decide
  have hrun := DateReader.documentDate_run year (n := nanoseconds)
    (Nat.lt_of_le_of_lt hmonth' (by decide : 12 < 100)) (by omega : day < 100)
    (by omega : hour < 100) (by omega : minute < 100) (by omega : second < 100) hnanoseconds
  have htext : i.documentText = s!"{yearText year}-{padded 2 month}-{padded 2 day}T" ++
      clockText hour minute second ++ fraction nanoseconds ++ "Z" := by
    rw [documentText, hparts]
    dsimp only
    rw [hdate]
    rfl
  rw [ofDocument?, readWhole, htext, hrun]
  dsimp only
  rw [Reading.instant?]
  dsimp only
  rw [hnumber, if_pos (by simp; omega)]
  rw [← hseconds, ← hfraction, Int.sub_zero, hi.covered]
  rfl

/-- The date of a header is an instant that can be written in a document. -/
theorem isWritable_of_ofHeader? {value : String} {i : Instant} (h : ofHeader? value = some i) :
    i.IsWritable := by
  rw [ofHeader?, readWhole] at h
  split at h
  case h_1 r hrun =>
    obtain ⟨hwhole, hzone⟩ := DateReader.gives_mailDate _ _ _ hrun
    rw [Reading.instant?] at h
    dsimp only at h
    rw [Option.ite_none_right_eq_some, Option.ite_none_right_eq_some] at h
    obtain ⟨hexists, hcovered, h⟩ := h
    cases h
    rw [Bool.and_eq_true] at hcovered
    have hsecond : r.second ≤ 60 := by
      simp only [Bool.and_eq_true, decide_eq_true_eq] at hexists
      omega
    refine ⟨hcovered.2, ?_⟩
    dsimp only
    rw [hwhole]
    split
    case isTrue => omega
    case isFalse => omega
  case h_2 => cases h

end Instant

end CompilingProxy
