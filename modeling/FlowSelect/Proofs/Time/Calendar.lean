/-
# Day numbers count days

The days of the proleptic Gregorian calendar stand in order, by year, month and day. The number of a day
is computed from the years before its year and the months before its month. It is nothing else than a
count of the days from 1970/01/01 on (`Date.dayNumber_eq_daysFrom`). For the places grow with the days
(`Date.ordinal_lt`), and no place is left out (`Date.exists_ordinal`): from one year to the next they grow
by the length of the year, with the rules for centuries (`Calendar.daysBeforeYear_succ`), from one month to
the next by the length of the month, and every place falls into a year and a month.

Key definitions: `Date.Real`, `Date.Before`, `Date.daysFrom`, `Date.ordinal`.
Key theorems: `Date.isDate_iff`, `Date.ordinal_lt`, `Date.exists_ordinal`, `Date.daysFrom_eq`,
`Date.dayNumber_eq_daysFrom`.
-/
import Mathlib
import FlowSelect.Time.Calendar

namespace FlowSelect

/-- A day as the calendar names it, not necessarily real. -/
structure Date where
  year : Nat
  month : Nat
  day : Nat
  deriving DecidableEq, Repr

namespace Date

/-- A leap year is divisible by four, and if it is a century, by 400. -/
def LeapYear (year : Nat) : Prop := 4 ∣ year ∧ (100 ∣ year → 400 ∣ year)

instance (year : Nat) : Decidable (LeapYear year) := inferInstanceAs (Decidable (_ ∧ _))

/-- The lengths of the months of a year, from January on. -/
def monthLengths (year : Nat) : List Nat :=
  [31, if LeapYear year then 29 else 28, 31, 30, 31, 30, 31, 31, 30, 31, 30, 31]

/-- The day exists. -/
def Real (d : Date) : Prop :=
  1 ≤ d.month ∧ 1 ≤ d.day ∧ ∃ length ∈ (monthLengths d.year)[d.month - 1]?, d.day ≤ length

/-- The order of days. -/
def Before (a b : Date) : Prop :=
  a.year < b.year ∨ a.year = b.year ∧ (a.month < b.month ∨ a.month = b.month ∧ a.day < b.day)

/-- The number of days from one day to another, negative if the other one comes first. -/
noncomputable def daysFrom (a b : Date) : Int :=
  (({d : Date | d.Real ∧ ¬d.Before a ∧ d.Before b}.ncard : Nat) : Int)
    - (({d : Date | d.Real ∧ ¬d.Before b ∧ d.Before a}.ncard : Nat) : Int)

/-- The day that times are counted from. -/
def epoch : Date := ⟨1970, 1, 1⟩

end Date

/-! ### Months and years -/

namespace Calendar

theorem isLeapYear_iff {year : Nat} : isLeapYear year = true ↔ Date.LeapYear year := by
  unfold isLeapYear Date.LeapYear
  simp only [Bool.and_eq_true, Bool.or_eq_true, beq_iff_eq, bne_iff_ne]
  omega

theorem daysInMonth_eq_zero (year : Nat) {month : Nat} (h : month < 1 ∨ 12 < month) :
    daysInMonth year month = 0 := by
  unfold daysInMonth
  split <;> omega

theorem daysBeforeMonth_mono (year : Nat) : Monotone (daysBeforeMonth year) := by
  apply monotone_nat_of_le_succ
  intro month
  rw [daysBeforeMonth]
  omega

/-- The months of a year make its 365 days, or 366. -/
theorem daysBeforeMonth_thirteen (year : Nat) :
    daysBeforeMonth year 13 = if isLeapYear year then 366 else 365 := by
  simp only [daysBeforeMonth, daysInMonth]
  split <;> rfl

/-- How many numbers below a bound are multiples goes up by one at each multiple. -/
theorem div_succ_eq (n k : Nat) (hk : 0 < k) :
    (n + 1 + (k - 1)) / k = (n + (k - 1)) / k + if n % k = 0 then 1 else 0 := by
  have hshift : n + 1 + (k - 1) = n + (k - 1) + 1 := by omega
  have hback : n + (k - 1) + 1 = n + k := by omega
  rw [hshift, Nat.succ_div, hback]
  simp only [Nat.dvd_iff_mod_eq_zero, Nat.add_mod_right]

theorem leapYearsBefore_succ (year : Nat) :
    leapYearsBefore (year + 1) = leapYearsBefore year + if isLeapYear year then 1 else 0 := by
  have hfours : (year + 1 + 3) / 4 = (year + 3) / 4 + if year % 4 = 0 then 1 else 0 :=
    div_succ_eq year 4 (by decide)
  have hcenturies : (year + 1 + 99) / 100 = (year + 99) / 100 + if year % 100 = 0 then 1 else 0 :=
    div_succ_eq year 100 (by decide)
  have hfourths : (year + 1 + 399) / 400 = (year + 399) / 400 + if year % 400 = 0 then 1 else 0 :=
    div_succ_eq year 400 (by decide)
  have hfewer : (year + 99) / 100 ≤ (year + 3) / 4 := by omega
  unfold leapYearsBefore isLeapYear
  rw [hfours, hcenturies, hfourths]
  by_cases hfour : year % 4 = 0
  · by_cases hcentury : year % 100 = 0
    · by_cases hfourth : year % 400 = 0
      · simp [hfour, hcentury, hfourth]
        omega
      · simp [hfour, hcentury, hfourth]
    · have hfourth : year % 400 ≠ 0 := by omega
      simp [hfour, hcentury, hfourth]
      omega
  · have hcentury : year % 100 ≠ 0 := by omega
    have hfourth : year % 400 ≠ 0 := by omega
    simp [hfour, hcentury, hfourth]

/-- **From one year to the next there are as many days as the months of the year have.** -/
theorem daysBeforeYear_succ (year : Nat) :
    daysBeforeYear (year + 1) = daysBeforeYear year + daysBeforeMonth year 13 := by
  rw [daysBeforeMonth_thirteen]
  unfold daysBeforeYear
  rw [leapYearsBefore_succ]
  split <;> omega

theorem daysBeforeYear_mono : Monotone daysBeforeYear := by
  apply monotone_nat_of_le_succ
  intro year
  rw [daysBeforeYear_succ]
  omega

end Calendar

namespace Date

open Calendar

theorem monthLengths_eq {year month : Nat} (h : 1 ≤ month) :
    (monthLengths year)[month - 1]? = if month ≤ 12 then some (daysInMonth year month) else none := by
  by_cases hmonth : month ≤ 12
  · rw [if_pos hmonth]
    interval_cases month <;> simp [monthLengths, daysInMonth, isLeapYear_iff]
  · rw [if_neg hmonth, List.getElem?_eq_none]
    simp only [monthLengths, List.length_cons, List.length_nil]
    omega

/-- **The calendar's days are the real ones.** -/
theorem isDate_iff {d : Date} : isDate d.year d.month d.day = true ↔ d.Real := by
  unfold isDate Real
  simp only [Bool.and_eq_true, decide_eq_true_eq]
  by_cases hmonth : 1 ≤ d.month
  · rw [monthLengths_eq hmonth]
    by_cases hlast : d.month ≤ 12
    · simp [hmonth, hlast]
    · have hzero := daysInMonth_eq_zero d.year (.inr (not_le.mp hlast))
      simp [hlast, hzero]
      omega
  · have hzero := daysInMonth_eq_zero d.year (.inl (not_le.mp hmonth))
    simp [hmonth, hzero]
    omega

variable {a b d : Date}

theorem Real.bounds (h : d.Real) :
    1 ≤ d.month ∧ d.month ≤ 12 ∧ 1 ≤ d.day ∧ d.day ≤ daysInMonth d.year d.month := by
  obtain ⟨hmonth, hday, length, hlength, hle⟩ := h
  rw [monthLengths_eq hmonth] at hlength
  split at hlength
  · next hlast =>
    obtain rfl := Option.some.inj hlength
    exact ⟨hmonth, hlast, hday, hle⟩
  · cases hlength

/-! ### Places in the order of days -/

/-- The place of a day among all days; the first one has place 1. -/
def ordinal (d : Date) : Nat := daysBeforeYear d.year + daysBeforeMonth d.year d.month + d.day

theorem dayNumber_eq (d : Date) :
    dayNumber d.year d.month d.day = (d.ordinal : Int) - (epoch.ordinal : Int) := rfl

theorem Real.ordinal_le (h : d.Real) :
    d.ordinal ≤ daysBeforeYear d.year + daysBeforeMonth d.year (d.month + 1) := by
  have hday := h.bounds.2.2.2
  unfold ordinal
  rw [daysBeforeMonth]
  omega

theorem Real.ordinal_le_year (h : d.Real) : d.ordinal ≤ daysBeforeYear (d.year + 1) := by
  have hmonths : daysBeforeMonth d.year (d.month + 1) ≤ daysBeforeMonth d.year 13 :=
    daysBeforeMonth_mono d.year (Nat.succ_le_succ h.bounds.2.1)
  have hle := h.ordinal_le
  rw [daysBeforeYear_succ]
  omega

/-- **The places grow with the days.** -/
theorem ordinal_lt (ha : a.Real) (hb : b.Real) (h : a.Before b) : a.ordinal < b.ordinal := by
  have hfirst := hb.bounds.2.2.1
  rcases h with hyear | ⟨hyear, hmonth | ⟨hmonth, hday⟩⟩
  · calc a.ordinal ≤ daysBeforeYear (a.year + 1) := ha.ordinal_le_year
      _ ≤ daysBeforeYear b.year := daysBeforeYear_mono hyear
      _ < b.ordinal := by unfold ordinal; omega
  · have hmonths : daysBeforeMonth a.year (a.month + 1) ≤ daysBeforeMonth a.year b.month :=
      daysBeforeMonth_mono a.year hmonth
    calc a.ordinal ≤ daysBeforeYear a.year + daysBeforeMonth a.year (a.month + 1) := ha.ordinal_le
      _ < b.ordinal := by unfold ordinal; rw [← hyear]; omega
  · unfold ordinal
    rw [hyear, hmonth]
    omega

theorem before_or_eq (a b : Date) : a.Before b ∨ a = b ∨ b.Before a := by
  obtain ⟨y, m, d⟩ := a
  obtain ⟨y', m', d'⟩ := b
  simp only [Before, Date.mk.injEq]
  omega

theorem before_iff (ha : a.Real) (hb : b.Real) : a.Before b ↔ a.ordinal < b.ordinal := by
  refine ⟨ordinal_lt ha hb, fun hlt => ?_⟩
  rcases before_or_eq a b with h | rfl | h
  · exact h
  · omega
  · have hgt := ordinal_lt hb ha h
    omega

theorem ordinal_inj (ha : a.Real) (hb : b.Real) (h : a.ordinal = b.ordinal) : a = b := by
  rcases before_or_eq a b with hlt | heq | hlt
  · exact absurd (ordinal_lt ha hb hlt) (by omega)
  · exact heq
  · exact absurd (ordinal_lt hb ha hlt) (by omega)

/-- A function that starts below a number and reaches it passes it at some step. -/
theorem exists_step {f : Nat → Nat} {n : Nat} (hstart : f 0 < n) : ∀ {k : Nat}, n ≤ f k →
    ∃ i < k, f i < n ∧ n ≤ f (i + 1)
  | 0, hk => by omega
  | k + 1, hk => by
    by_cases hbefore : n ≤ f k
    · obtain ⟨i, hi, hstep⟩ := exists_step hstart hbefore
      exact ⟨i, by omega, hstep⟩
    · exact ⟨k, by omega, by omega, hk⟩

/-- **No place is left out**: it falls into a year, and in the year into a month. -/
theorem exists_ordinal {n : Nat} (hn : 0 < n) : ∃ d : Date, d.Real ∧ d.ordinal = n := by
  have hreached : n ≤ daysBeforeYear n := by
    unfold daysBeforeYear
    omega
  obtain ⟨year, -, hyear, hnext⟩ := exists_step (f := daysBeforeYear) hn hreached
  rw [daysBeforeYear_succ] at hnext
  have hstart : daysBeforeMonth year 0 < n - daysBeforeYear year := by
    rw [daysBeforeMonth]
    omega
  obtain ⟨month, hlast, hmonth, hday⟩ := exists_step (k := 13) hstart (by omega)
  rw [daysBeforeMonth] at hday
  refine ⟨⟨year, month, n - daysBeforeYear year - daysBeforeMonth year month⟩, ?_, ?_⟩
  · simp only [← isDate_iff, isDate, Bool.and_eq_true, decide_eq_true_eq]
    omega
  · simp only [ordinal]
    omega

/-! ### Counting days -/

theorem ncard_between (ha : a.Real) (hb : b.Real) :
    {d : Date | d.Real ∧ ¬d.Before a ∧ d.Before b}.ncard = b.ordinal - a.ordinal := by
  have hinj : Set.InjOn ordinal {d : Date | d.Real ∧ ¬d.Before a ∧ d.Before b} :=
    fun d hd e he h => ordinal_inj hd.1 he.1 h
  have himage : Set.image ordinal {d : Date | d.Real ∧ ¬d.Before a ∧ d.Before b} =
      Set.Ico a.ordinal b.ordinal := by
    ext n
    constructor
    · rintro ⟨d, ⟨hd, hfrom, hto⟩, rfl⟩
      rw [before_iff hd ha, not_lt] at hfrom
      exact ⟨hfrom, ordinal_lt hd hb hto⟩
    · rintro ⟨hfrom, hto⟩
      have hfirst := ha.bounds.2.2.1
      obtain ⟨d, hd, rfl⟩ : ∃ d : Date, d.Real ∧ d.ordinal = n := by
        apply exists_ordinal
        unfold ordinal at hfrom
        omega
      refine ⟨d, ⟨hd, ?_, (before_iff hd hb).mpr hto⟩, rfl⟩
      rw [before_iff hd ha]
      omega
  rw [← hinj.ncard_image, himage, ← Finset.coe_Ico, Set.ncard_coe_finset, Nat.card_Ico]

/-- **The days from one day to another are counted by their places.** -/
theorem daysFrom_eq (ha : a.Real) (hb : b.Real) :
    daysFrom a b = (b.ordinal : Int) - (a.ordinal : Int) := by
  unfold daysFrom
  rw [ncard_between ha hb, ncard_between hb ha]
  omega

theorem epoch_real : epoch.Real := isDate_iff.mp (by decide)

/-- **A day number counts the days from the first one.** -/
theorem dayNumber_eq_daysFrom (h : d.Real) :
    dayNumber d.year d.month d.day = daysFrom epoch d := by
  rw [dayNumber_eq, daysFrom_eq epoch_real h]

end Date

end FlowSelect
