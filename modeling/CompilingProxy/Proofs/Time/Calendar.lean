import CompilingProxy.Time.Instant

/-!
# Days and dates

Every day number has a date, which is the only one that it is the number of: the calendar reads
back what it writes.
-/

namespace CompilingProxy.Calendar

/-! ### Days of an era -/

/-- A day of an era of 400 years: whole centuries, whole groups of four years in what is left,
whole years in what is left then, and days. The day behind 365 others is the last one of a leap
year. -/
structure IsDayOfEra (n c q t u : Int) : Prop where
  eq : n = 36524 * c + 1461 * q + 365 * t + u
  century : 0 ≤ c ∧ c ≤ 3
  four : 0 ≤ q ∧ q ≤ 24
  year : 0 ≤ t ∧ t ≤ 3
  day : 0 ≤ u ∧ u ≤ 365
  leap : u = 365 → t = 3 ∧ (q < 24 ∨ c = 3)

theorem exists_isDayOfEra {n : Int} (h₀ : 0 ≤ n) (h : n < 146097) :
    ∃ c q t u, IsDayOfEra n c q t u := by
  let c := min 3 (n / 36524)
  let r := n - 36524 * c
  let q := r / 1461
  let s := r - 1461 * q
  let t := min 3 (s / 365)
  exact ⟨c, q, t, s - 365 * t, by omega, by omega, by omega, by omega, by omega, by omega⟩

/-- The year that is estimated from the day is the right one. -/
theorem IsDayOfEra.yearOfEra {n c q t u : Int} (h : IsDayOfEra n c q t u) :
    (n - n / 1460 + n / 36524 - n / 146096) / 365 = 100 * c + 4 * q + t := by
  obtain ⟨hn, hc, hq, ht, hu, hleap⟩ := h
  have hcentury : 1461 * q + 365 * t + u ≤ 36523 ∨
      c = 3 ∧ 1461 * q + 365 * t + u = 36524 := by
    by_cases hlast : u = 365
    · obtain ⟨rfl, hlast⟩ := hleap hlast
      omega
    · omega
  have hcenturies : n / 36524 - n / 146096 = c := by
    rcases hcentury with hcentury | ⟨rfl, hcentury⟩
    · have hwhole : n / 36524 = c := by omega
      have hnone : n / 146096 = 0 := by omega
      omega
    · omega
  have hfours : n / 1460 = 25 * c + q ∧ u ≤ 364 ∨ n / 1460 = 25 * c + q + 1 ∧ 1 ≤ u := by
    clear hcenturies
    by_cases hlate : 24 * c + q + 365 * t + u < 1460
    · have hwhole : n / 1460 = 25 * c + q := by omega
      omega
    · have hwhole : n / 1460 = 25 * c + q + 1 := by omega
      omega
  generalize n / 36524 = x at *
  generalize n / 146096 = y at *
  generalize n / 1460 = z at *
  omega

theorem IsDayOfEra.dayOfYear {n c q t u : Int} (h : IsDayOfEra n c q t u) :
    n - (365 * (100 * c + 4 * q + t) + (100 * c + 4 * q + t) / 4 - (100 * c + 4 * q + t) / 100) =
      u := by
  obtain ⟨hn, hc, hq, ht, hu, hleap⟩ := h
  have hfours : (100 * c + 4 * q + t) / 4 = 25 * c + q := by omega
  have hcenturies : (100 * c + 4 * q + t) / 100 = c := by omega
  rw [hfours, hcenturies]
  omega

/-- A year that has a day behind 365 others ends in a leap year's February. -/
theorem IsDayOfEra.isLeapYear {n c q t u era : Int} (h : IsDayOfEra n c q t u) (hu : u = 365) :
    isLeapYear (100 * c + 4 * q + t + era * 400 + 1) := by
  obtain ⟨hn, hc, hq, ht, -, hleap⟩ := h
  obtain ⟨rfl, hlast⟩ := hleap hu
  rw [Calendar.isLeapYear, Bool.or_eq_true, Bool.and_eq_true, beq_iff_eq, bne_iff_ne, beq_iff_eq]
  omega

/-! ### Days of a year -/

/-- The month, counted from March, of a day of a year that begins in March, and the day of the
month. -/
theorem month_of_dayOfYear {u m : Int} (hu : 0 ≤ u ∧ u ≤ 365) (hm : m = (5 * u + 2) / 153) :
    0 ≤ m ∧ m ≤ 11 ∧ 1 ≤ u - (153 * m + 2) / 5 + 1 ∧
      u - (153 * m + 2) / 5 + 1 ≤
        if m = 11 then (if u = 365 then 29 else 28)
        else if m = 1 ∨ m = 3 ∨ m = 6 ∨ m = 8 then 30 else 31 := by
  omega

/-- The days of the month that is so many months behind March. -/
theorem daysInMonth_fromMarch (year : Int) {m : Int} {month : Nat} (hm : 0 ≤ m ∧ m ≤ 11)
    (hmonth : (if m < 10 then m + 3 else m - 9).toNat = month) :
    (daysInMonth year month : Int) =
      if m = 11 then (if isLeapYear year then 29 else 28)
      else if m = 1 ∨ m = 3 ∨ m = 6 ∨ m = 8 then 30 else 31 := by
  obtain rfl | rfl | rfl | rfl | rfl | rfl | rfl | rfl | rfl | rfl | rfl | rfl :
      m = 0 ∨ m = 1 ∨ m = 2 ∨ m = 3 ∨ m = 4 ∨ m = 5 ∨ m = 6 ∨ m = 7 ∨ m = 8 ∨ m = 9 ∨ m = 10 ∨
        m = 11 := by
    omega
  case inr.inr.inr.inr.inr.inr.inr.inr.inr.inr.inr =>
    subst hmonth
    rw [if_pos rfl]
    exact apply_ite Nat.cast _ _ _
  all_goals
    subst hmonth
    rfl

/-! ### Dates -/

/-- The date of a day: its year begins in March, and January and February belong to the next. -/
theorem date_eq (days : Int) : ∃ era c q t u m : Int, ∃ n,
    IsDayOfEra n c q t u ∧ days = era * 146097 + n - 719468 ∧ m = (5 * u + 2) / 153 ∧
      date days =
        (100 * c + 4 * q + t + era * 400 + (if m < 10 then 0 else 1),
          (if m < 10 then m + 3 else m - 9).toNat, (u - (153 * m + 2) / 5 + 1).toNat) := by
  let era := (days + 719468) / 146097
  let n := (days + 719468) - era * 146097
  obtain ⟨c, q, t, u, hday⟩ := exists_isDayOfEra (n := n) (by omega) (by omega)
  refine ⟨era, c, q, t, u, (5 * u + 2) / 153, n, hday, by omega, rfl, ?_⟩
  have hera : (days + 719468).fdiv 146097 = era := Int.fdiv_eq_ediv_of_nonneg _ (by decide)
  have hu := hday.day
  rw [date, hera, hday.yearOfEra, hday.dayOfYear]
  congr 2
  split
  · split
    · omega
    · omega
  · split
    · omega
    · omega

/-- The calendar has a date for every day, and the number of the date is the day's. -/
theorem dayNumber_date {days year : Int} {month day : Nat} (h : date days = (year, month, day)) :
    dayNumber year month day = days ∧ 1 ≤ month ∧ month ≤ 12 ∧ 1 ≤ day ∧
      day ≤ daysInMonth year month := by
  obtain ⟨era, c, q, t, u, m, n, hparts, hdays, hm, hdate⟩ := date_eq days
  rw [hdate, Prod.mk.injEq, Prod.mk.injEq] at h
  obtain ⟨hyear, hmonth, hday⟩ := h
  have hu := hparts.day
  obtain ⟨hm₀, hm₁, hfirst, hlast⟩ := month_of_dayOfYear hu hm
  have hmarch : (if month ≤ 2 then year - 1 else year) = 100 * c + 4 * q + t + era * 400 := by
    by_cases hten : m < 10
    · rw [if_pos hten] at hyear hmonth
      rw [if_neg (by omega)]
      omega
    · rw [if_neg hten] at hyear hmonth
      rw [if_pos (by omega)]
      omega
  have hmonth' : (month + 9) % 12 = m.toNat := by
    split at hmonth
    · omega
    · omega
  have hdayOfYear : (((153 * m.toNat + 2) / 5 + day - 1 : Nat) : Int) = u := by omega
  have hera : (100 * c + 4 * q + t + era * 400).fdiv 400 = era := by
    have hc := hparts.century
    have hq := hparts.four
    have ht := hparts.year
    rw [Int.fdiv_eq_ediv_of_nonneg _ (by decide)]
    omega
  refine ⟨?_, ?_, ?_, ?_, ?_⟩
  · have hn := hparts.dayOfYear
    rw [dayNumber, hmarch, hera, hmonth', hdayOfYear, Int.add_sub_cancel]
    omega
  · split at hmonth
    · omega
    · omega
  · split at hmonth
    · omega
    · omega
  · omega
  · have hlength := daysInMonth_fromMarch year ⟨hm₀, hm₁⟩ hmonth
    have hleap : u = 365 → m = 11 → isLeapYear year := by
      rintro hlate rfl
      have hyear' : year = 100 * c + 4 * q + t + era * 400 + 1 := hyear.symm
      rw [hyear']
      exact hparts.isLeapYear hlate
    by_cases hfebruary : m = 11
    · rw [if_pos hfebruary] at hlength hlast
      by_cases hlate : u = 365
      · rw [if_pos hlate] at hlast
        rw [if_pos (hleap hlate hfebruary)] at hlength
        omega
      · rw [if_neg hlate] at hlast
        split at hlength
        · omega
        · omega
    · rw [if_neg hfebruary] at hlength hlast
      omega

end CompilingProxy.Calendar
