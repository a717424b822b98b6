import Interpose.Log.Calendar
import Mathlib.Algebra.BigOperators.Intervals
import Mathlib.Algebra.Order.BigOperators.Group.Finset
import Mathlib.Data.Prod.Lex
import Mathlib.Tactic.IntervalCases

/-!
# The calendar

`Date.ofDays` computes a date by a chain of divisions. Here the calendar is built up from its rules:
which years are leap years, how long the months are, and which day comes next. The two agree
(`Date.ofDays_exact`): the date of a day number is one of the calendar, it is that many days after
1970-01-01, the next number has the next date, and every date from 1970-01-01 on is reached.

Everything follows from one count of the days up to a date (`Date.dayNumber`). It tells the dates of
the calendar apart and orders them (`Date.strictMonoOn_dayNumber`), so it is enough to know that the
conversion gives a date of the calendar with the right count. For this the conversion is taken apart
at the first of March (`Date.ofMarch`): in front of it are the years, which `Date.yearOfEra` counts,
century by century (`Date.yearOfEra_bounds`), and behind it the months.

The last part performs the conversion on numbers of 64 bits, where every operation that leaves their
range fails (`Date.ofDays?`).
-/

namespace Interpose.Date

/-! ### The rules of the calendar -/

/-- Every fourth year is a leap year, but of the full centuries every fourth only. -/
def IsLeap (year : ℕ) : Prop := 4 ∣ year ∧ (¬100 ∣ year ∨ 400 ∣ year)

instance (year : ℕ) : Decidable (IsLeap year) := inferInstanceAs (Decidable (_ ∧ _))

/-- The number of days of a month. -/
def monthLength (year : ℕ) : ℕ → ℕ
  | 2 => if IsLeap year then 29 else 28
  | 4 | 6 | 9 | 11 => 30
  | _ => 31

/-- A date of the calendar. -/
structure IsValid (date : Date) : Prop where
  one_le_month : 1 ≤ date.month
  month_le : date.month ≤ 12
  one_le_day : 1 ≤ date.day
  day_le : date.day ≤ monthLength date.year date.month

/-- The date of the next day. -/
def next (date : Date) : Date :=
  if date.day < monthLength date.year date.month then { date with day := date.day + 1 }
  else if date.month < 12 then { date with month := date.month + 1, day := 1 }
  else ⟨date.year + 1, 1, 1⟩

/-- Dates in order: by year, then by month, then by day. -/
def lex (date : Date) : Lex (ℕ × Lex (ℕ × ℕ)) := toLex (date.year, toLex (date.month, date.day))

theorem lex_injective : Function.Injective lex := by
  rintro ⟨y, m, d⟩ ⟨y', m', d'⟩ h
  simpa [lex] using h

instance : LinearOrder Date := LinearOrder.lift' lex lex_injective

/-- The order of dates, spelled out. -/
theorem lt_iff {a b : Date} : a < b ↔ a.year < b.year ∨ a.year = b.year ∧
    (a.month < b.month ∨ a.month = b.month ∧ a.day < b.day) := by
  show a.lex < b.lex ↔ _
  simp [lex, Prod.Lex.toLex_lt_toLex]

/-! ### Counting days -/

/-- The days of a year before a month. -/
def daysBeforeMonth (year month : ℕ) : ℕ := ∑ m ∈ Finset.Ico 1 month, monthLength year m

/-- The days before a year, from the first year on. -/
def daysBeforeYear (year : ℕ) : ℕ := ∑ y ∈ Finset.range year, daysBeforeMonth y 13

/-- The days before a date, from the first year on. -/
def dayNumber (date : Date) : ℕ :=
  daysBeforeYear date.year + daysBeforeMonth date.year date.month + (date.day - 1)

/-- Years follow each other. -/
theorem daysBeforeYear_succ (year : ℕ) :
    daysBeforeYear (year + 1) = daysBeforeYear year + daysBeforeMonth year 13 :=
  Finset.sum_range_succ _ _

/-- Months follow each other. -/
theorem daysBeforeMonth_succ (year : ℕ) {month : ℕ} (h : 1 ≤ month) :
    daysBeforeMonth year (month + 1) = daysBeforeMonth year month + monthLength year month :=
  Finset.sum_Ico_succ_top h _

theorem daysBeforeYear_mono : Monotone daysBeforeYear := fun _ _ h ↦
  Finset.sum_le_sum_of_subset (Finset.range_mono h)

theorem daysBeforeMonth_mono (year : ℕ) : Monotone (daysBeforeMonth year) := fun _ _ h ↦
  Finset.sum_le_sum_of_subset (Finset.Ico_subset_Ico_right h)

/-- A date is within its month. -/
theorem IsValid.dayNumber_lt {date : Date} (h : date.IsValid) :
    dayNumber date < daysBeforeYear date.year + daysBeforeMonth date.year (date.month + 1) := by
  have hday := h.one_le_day
  have hlength := h.day_le
  rw [dayNumber, daysBeforeMonth_succ _ h.one_le_month]
  omega

/-- **Later dates have higher numbers.** -/
theorem strictMonoOn_dayNumber : StrictMonoOn dayNumber {date | date.IsValid} := by
  intro a ha b hb hab
  have hlt := ha.dayNumber_lt
  obtain hyear | ⟨hyear, hmonth | ⟨hmonth, hday⟩⟩ := lt_iff.mp hab
  · calc dayNumber a
        < daysBeforeYear a.year + daysBeforeMonth a.year (a.month + 1) := hlt
      _ ≤ daysBeforeYear a.year + daysBeforeMonth a.year 13 :=
          Nat.add_le_add_left (daysBeforeMonth_mono _ (Nat.succ_le_succ ha.month_le)) _
      _ = daysBeforeYear (a.year + 1) := (daysBeforeYear_succ _).symm
      _ ≤ daysBeforeYear b.year := daysBeforeYear_mono hyear
      _ ≤ dayNumber b := by rw [dayNumber, Nat.add_assoc]; exact Nat.le_add_right _ _
  · have hle : daysBeforeMonth b.year (a.month + 1) ≤ daysBeforeMonth b.year b.month :=
      daysBeforeMonth_mono b.year hmonth
    rw [hyear] at hlt
    show dayNumber a < daysBeforeYear b.year + daysBeforeMonth b.year b.month + (b.day - 1)
    omega
  · have hone := ha.one_le_day
    rw [dayNumber, dayNumber, hyear, hmonth]
    omega

theorem one_le_monthLength (year month : ℕ) : 1 ≤ monthLength year month := by
  unfold monthLength
  split
  · split <;> decide
  all_goals decide

/-- The next day is a date of the calendar again, also from one month or year to the next. -/
theorem IsValid.next {date : Date} (h : date.IsValid) : date.next.IsValid := by
  obtain ⟨hone, hmonth, hday, hle⟩ := h
  unfold Date.next
  split
  · next hlt => exact ⟨hone, hmonth, Nat.succ_pos _, hlt⟩
  · split
    · next hlt => exact ⟨Nat.succ_pos _, hlt, Nat.le_refl 1, one_le_monthLength _ _⟩
    · exact ⟨Nat.le_refl 1, show 1 ≤ 12 by decide, Nat.le_refl 1, one_le_monthLength _ _⟩

/-- **The next day has the next number.** -/
theorem IsValid.dayNumber_next {date : Date} (h : date.IsValid) :
    dayNumber date.next = dayNumber date + 1 := by
  obtain ⟨hone, hmonth, hday, hle⟩ := h
  unfold Date.next
  split
  · next hlt =>
    simp only [dayNumber]
    omega
  · next hlast =>
    split
    · next hlt =>
      simp only [dayNumber, daysBeforeMonth_succ _ hone]
      omega
    · next hdecember =>
      obtain hmonth : date.month = 12 := by omega
      have hyear : daysBeforeMonth date.year 13 =
          daysBeforeMonth date.year 12 + monthLength date.year 12 :=
        daysBeforeMonth_succ _ (by decide)
      rw [hmonth] at hle hlast
      have hjanuary (year : ℕ) : daysBeforeMonth year 1 = 0 := rfl
      simp only [dayNumber, daysBeforeYear_succ, hjanuary, hmonth]
      omega

/-! ### Years that begin in March -/

/-- The days from 0000-03-01 to the first of March of a year. -/
def marchFirst (year : ℕ) : ℕ := 365 * year + year / 4 - year / 100 + year / 400

/-- The date of a day in the year that begins in March of a year. -/
def ofMarch (year dayOfYear : ℕ) : Date :=
  let index := monthIndex dayOfYear
  let month := if index < 10 then index + 3 else index - 9
  { year := year + if month ≤ 2 then 1 else 0
    month
    day := dayOfYear - firstOfMonth index + 1 }

/-- The four kinds of years. -/
theorem leap_cases (year : ℕ) :
    (¬4 ∣ year ∧ ¬100 ∣ year ∧ ¬400 ∣ year) ∨ (4 ∣ year ∧ ¬100 ∣ year ∧ ¬400 ∣ year) ∨
      (4 ∣ year ∧ 100 ∣ year ∧ ¬400 ∣ year) ∨ (4 ∣ year ∧ 100 ∣ year ∧ 400 ∣ year) := by
  omega

/-- A year that begins in March ends with the next February. -/
theorem marchFirst_succ (year : ℕ) :
    marchFirst (year + 1) = marchFirst year + 337 + monthLength (year + 1) 2 := by
  have hle : year / 100 ≤ year / 4 := Nat.div_le_div_left (by decide) (by decide)
  show _ = marchFirst year + 337 + if IsLeap (year + 1) then 29 else 28
  rw [marchFirst, marchFirst, Nat.succ_div, Nat.succ_div, Nat.succ_div]
  obtain ⟨h4, h100, h400⟩ | ⟨h4, h100, h400⟩ | ⟨h4, h100, h400⟩ | ⟨h4, h100, h400⟩ :=
    leap_cases (year + 1)
  all_goals
    simp only [IsLeap, h4, h100, h400, if_true, if_false, true_and, false_and, not_true_eq_false,
      not_false_eq_true, or_false, or_true]
    omega

/-- No year is longer than 366 days. -/
theorem marchFirst_succ_le (year : ℕ) : marchFirst (year + 1) ≤ marchFirst year + 366 := by
  have hfebruary : (if IsLeap (year + 1) then 29 else 28) ≤ 29 := by split <;> decide
  rw [marchFirst_succ]
  exact Nat.add_le_add_left hfebruary _

/-- Months follow each other as they do in the calendar. -/
theorem firstOfMonth_succ (year : ℕ) {index : ℕ} (h : index < 10) :
    firstOfMonth (index + 1) = firstOfMonth index + monthLength year (index + 3) := by
  interval_cases index <;> rfl

/-- What comes before a month from March on: January, February, and the days since the first of
March. -/
theorem daysBeforeMonth_add_three (year : ℕ) {index : ℕ} (h : index ≤ 10) :
    daysBeforeMonth year (index + 3) = 31 + monthLength year 2 + firstOfMonth index := by
  induction index with
  | zero => rfl
  | succ index ih =>
    rw [Nat.add_right_comm, daysBeforeMonth_succ year (by omega), ih (by omega),
      firstOfMonth_succ year (by omega), Nat.add_assoc]

/-- The first of March is behind the first two months of its year. -/
theorem daysBeforeYear_add_february (year : ℕ) :
    daysBeforeYear year + monthLength year 2 = marchFirst year + 29 := by
  induction year with
  | zero => rfl
  | succ year ih =>
    have hyear : daysBeforeMonth year 13 = 31 + monthLength year 2 + 306 :=
      daysBeforeMonth_add_three year (Nat.le_refl 10)
    rw [daysBeforeYear_succ, marchFirst_succ, hyear]
    omega

section Months

variable {year day : ℕ}

/-- A day is in the month that is computed for it. -/
theorem firstOfMonth_le_day (day : ℕ) :
    firstOfMonth (monthIndex day) ≤ day ∧ day < firstOfMonth (monthIndex day + 1) := by
  unfold firstOfMonth monthIndex
  omega

theorem monthIndex_le (h : day ≤ 365) : monthIndex day ≤ 11 := by
  unfold monthIndex
  omega

/-- The year that begins in March ends with the first two months of the next calendar year. -/
theorem ofMarch_cases (h : marchFirst year + day < marchFirst (year + 1)) :
    (∃ index < 10, firstOfMonth index ≤ day ∧ day < firstOfMonth (index + 1) ∧
      ofMarch year day = ⟨year, index + 3, day - firstOfMonth index + 1⟩) ∨
    (306 ≤ day ∧ day < 337 ∧ ofMarch year day = ⟨year + 1, 1, day - 306 + 1⟩) ∨
    (337 ≤ day ∧ day < 337 + monthLength (year + 1) 2 ∧
      ofMarch year day = ⟨year + 1, 2, day - 337 + 1⟩) := by
  obtain ⟨hfirst, hlast⟩ := firstOfMonth_le_day day
  have hyear := marchFirst_succ_le year
  have hindex : monthIndex day ≤ 11 := monthIndex_le (by omega)
  obtain hlt | hten | heleven :
      monthIndex day < 10 ∨ monthIndex day = 10 ∨ monthIndex day = 11 := by
    omega
  · refine .inl ⟨monthIndex day, hlt, hfirst, hlast, ?_⟩
    have hmonth : ¬monthIndex day + 3 ≤ 2 := by omega
    simp only [ofMarch, if_pos hlt, if_neg hmonth, Nat.add_zero]
  · rw [hten] at hfirst hlast
    refine .inr (.inl ⟨hfirst, hlast, ?_⟩)
    simp only [ofMarch, hten]
    rfl
  · rw [heleven] at hfirst
    rw [marchFirst_succ] at h
    refine .inr (.inr ⟨hfirst, by omega, ?_⟩)
    simp only [ofMarch, heleven]
    rfl

/-- A day of a year that begins in March is a date of the calendar. -/
theorem isValid_ofMarch (h : marchFirst year + day < marchFirst (year + 1)) :
    (ofMarch year day).IsValid := by
  obtain ⟨index, hindex, hfirst, hlast, heq⟩ | ⟨hfirst, hlast, heq⟩ | ⟨hfirst, hlast, heq⟩ :=
    ofMarch_cases h
  all_goals rw [heq]
  · rw [firstOfMonth_succ year hindex] at hlast
    exact ⟨by simp only; omega, by simp only; omega, Nat.succ_pos _, by simp only; omega⟩
  · refine ⟨Nat.le_refl 1, show 1 ≤ 12 by decide, Nat.succ_pos _, ?_⟩
    show day - 306 + 1 ≤ 31
    omega
  · exact ⟨show 1 ≤ 2 by decide, show 2 ≤ 12 by decide, Nat.succ_pos _, by simp only; omega⟩

/-- **Days of years that begin in March are numbered like dates**, from 60 days later on: January
and February of the year zero come before. -/
theorem dayNumber_ofMarch (h : marchFirst year + day < marchFirst (year + 1)) :
    dayNumber (ofMarch year day) = marchFirst year + day + 60 := by
  have hfebruary := daysBeforeYear_add_february year
  have hyear := daysBeforeYear_add_february (year + 1)
  have hmarch := marchFirst_succ year
  obtain ⟨index, hindex, hfirst, hlast, heq⟩ | ⟨hfirst, hlast, heq⟩ | ⟨hfirst, hlast, heq⟩ :=
    ofMarch_cases h
  all_goals rw [heq, dayNumber]
  · simp only [daysBeforeMonth_add_three year hindex.le]
    omega
  · have hjanuary : daysBeforeMonth (year + 1) 1 = 0 := rfl
    simp only [hjanuary]
    omega
  · have hjanuary : daysBeforeMonth (year + 1) 2 = 31 := rfl
    simp only [hjanuary]
    omega

end Months

/-! ### Years and eras -/

/-- All eras have the same length. -/
theorem marchFirst_add_eras (year era : ℕ) :
    marchFirst (year + era * 400) = era * daysPerEra + marchFirst year := by
  unfold marchFirst daysPerEra
  omega

/-- Within an era, no four hundred years have gone by. -/
theorem marchFirst_of_lt {year : ℕ} (h : year < 400) :
    marchFirst year = 365 * year + year / 4 - year / 100 := by
  rw [marchFirst, Nat.div_eq_of_lt h, Nat.add_zero]

/-- An era is made of three centuries of 36524 days and one that has a day more. -/
theorem exists_century {dayOfEra : ℕ} (h : dayOfEra < daysPerEra) :
    ∃ century day, dayOfEra = 36524 * century + day ∧ century ≤ 3 ∧
      (day < 36524 ∨ century = 3 ∧ day = 36524) := by
  rw [daysPerEra] at h
  refine ⟨min (dayOfEra / 36524) 3, dayOfEra - 36524 * min (dayOfEra / 36524) 3, ?_⟩
  omega

/-- Within a century, every fourth year has a day more. -/
theorem marchFirst_century {century year : ℕ} (hcentury : century ≤ 3) (hyear : year ≤ 99) :
    marchFirst (100 * century + year) = 36524 * century + (365 * year + year / 4) := by
  unfold marchFirst
  interval_cases century <;> omega

/-- **Days are counted to their years.** A day of an era is in the year that is computed for it. -/
theorem yearOfEra_bounds {dayOfEra : ℕ} (h : dayOfEra < daysPerEra) :
    yearOfEra dayOfEra < 400 ∧ marchFirst (yearOfEra dayOfEra) ≤ dayOfEra ∧
      dayOfEra < marchFirst (yearOfEra dayOfEra + 1) := by
  obtain ⟨century, day, rfl, hcentury, hday⟩ := exists_century h
  obtain ⟨year, hyear⟩ : ∃ year, year = (day - (day + 24 * century) / 1460) / 365 := ⟨_, rfl⟩
  have heq : yearOfEra (36524 * century + day) = 100 * century + year := by
    unfold yearOfEra
    omega
  have hbounds : year ≤ 99 ∧ 365 * year + year / 4 ≤ day ∧
      day < 365 * (year + 1) + (year + 1) / 4 := by
    clear heq h
    omega
  obtain ⟨hle, hfirst, hlast⟩ := hbounds
  rw [heq, marchFirst_century hcentury hle]
  refine ⟨by omega, by omega, ?_⟩
  -- The last year of a century is apart, since the next one begins another century
  obtain hlt | rfl : year < 99 ∨ year = 99 := by omega
  · rw [Nat.add_assoc, marchFirst_century hcentury hlt]
    omega
  · have hnext : 36524 * (century + 1) + (if century = 3 then 1 else 0) =
        marchFirst (100 * century + 99 + 1) := by
      interval_cases century <;> rfl
    rw [← hnext]
    split <;> omega

/-- The day within the year is counted from the first of March of the year. -/
theorem dayOfYear_eq {dayOfEra : ℕ} (h : dayOfEra < daysPerEra) :
    dayOfYear dayOfEra = dayOfEra - marchFirst (yearOfEra dayOfEra) := by
  rw [marchFirst_of_lt (yearOfEra_bounds h).1, dayOfYear]

/-- Days are counted in eras. -/
theorem exists_era (shifted : ℕ) :
    ∃ era dayOfEra, shifted / daysPerEra = era ∧ shifted % daysPerEra = dayOfEra ∧
      dayOfEra < daysPerEra ∧ era * daysPerEra + dayOfEra = shifted :=
  ⟨_, _, rfl, rfl, Nat.mod_lt _ (by decide), Nat.div_add_mod' _ _⟩

/-- The conversion finds the year that begins in March and the day within it. -/
theorem ofDays_eq_ofMarch (days : ℕ) :
    ∃ year day, marchFirst year + day = days + daysToEpoch ∧
      marchFirst year + day < marchFirst (year + 1) ∧ ofDays days = ofMarch year day := by
  obtain ⟨era, dayOfEra, hera, hday, hlt, hshifted⟩ := exists_era (days + daysToEpoch)
  obtain ⟨hyear, hle, hnext⟩ := yearOfEra_bounds hlt
  refine ⟨yearOfEra dayOfEra + era * 400, dayOfYear dayOfEra, ?_, ?_, ?_⟩
  · rw [marchFirst_add_eras, dayOfYear_eq hlt]
    omega
  · rw [Nat.add_right_comm, marchFirst_add_eras, marchFirst_add_eras, dayOfYear_eq hlt]
    omega
  · rw [ofDays, hera, hday, ofMarch]

/-! ### The conversion and the calendar -/

/-- **Every number of days is converted to a date of the calendar.** -/
theorem isValid_ofDays (days : ℕ) : (ofDays days).IsValid := by
  obtain ⟨year, day, -, hlt, heq⟩ := ofDays_eq_ofMarch days
  exact heq ▸ isValid_ofMarch hlt

/-- **The date is that many days after 1970-01-01**, the day with the number 719528. -/
theorem dayNumber_ofDays (days : ℕ) : dayNumber (ofDays days) = 719528 + days := by
  obtain ⟨year, day, hday, hlt, heq⟩ := ofDays_eq_ofMarch days
  rw [heq, dayNumber_ofMarch hlt, hday, daysToEpoch]
  omega

/-- Dates of the calendar with the same number are equal. -/
theorem injOn_dayNumber : Set.InjOn dayNumber {date | date.IsValid} :=
  strictMonoOn_dayNumber.injOn

theorem ofDays_zero : ofDays 0 = ⟨1970, 1, 1⟩ := by
  decide

/-- One day more is the next day, because dates of the calendar are known by their numbers. -/
theorem ofDays_succ (days : ℕ) : ofDays (days + 1) = (ofDays days).next := by
  have hvalid := isValid_ofDays days
  refine injOn_dayNumber (isValid_ofDays _) hvalid.next ?_
  rw [hvalid.dayNumber_next, dayNumber_ofDays, dayNumber_ofDays, Nat.add_assoc]

/-- Later days have later dates. -/
theorem strictMono_ofDays : StrictMono ofDays := fun a b hab ↦ by
  refine (strictMonoOn_dayNumber.lt_iff_lt (isValid_ofDays a) (isValid_ofDays b)).mp ?_
  rw [dayNumber_ofDays, dayNumber_ofDays]
  omega

/-- Every date of the calendar from 1970-01-01 on is the date of a number of days. -/
theorem exists_ofDays {date : Date} (h : date.IsValid) (hle : ofDays 0 ≤ date) :
    ∃ days, ofDays days = date := by
  have hnumber := (strictMonoOn_dayNumber.le_iff_le (isValid_ofDays 0) h).mpr hle
  rw [dayNumber_ofDays] at hnumber
  refine ⟨dayNumber date - 719528, injOn_dayNumber (isValid_ofDays _) h ?_⟩
  rw [dayNumber_ofDays]
  omega

/-- Up to any last day, the numbers of days and the dates of the calendar correspond to each
other. -/
theorem bijOn_ofDays (last : ℕ) : Set.BijOn ofDays (Set.Iic last)
    {date | date.IsValid ∧ ofDays 0 ≤ date ∧ date ≤ ofDays last} := by
  refine ⟨fun days hle ↦ ⟨isValid_ofDays days, ?_, ?_⟩, strictMono_ofDays.injective.injOn, ?_⟩
  · exact strictMono_ofDays.monotone (Nat.zero_le days)
  · exact strictMono_ofDays.monotone hle
  · rintro date ⟨hvalid, hfirst, hlast⟩
    obtain ⟨days, rfl⟩ := exists_ofDays hvalid hfirst
    exact ⟨days, strictMono_ofDays.le_iff_le.mp hlast, rfl⟩

/-! ### The conversion on 64 bits

The conversion, operation by operation and in the same order. It has no result if one of them leaves
the range. Quotients and remainders never do.
-/

/-- Addition of numbers of 64 bits. -/
def add? (a b : ℕ) : Option ℕ := if a + b < 2 ^ 64 then some (a + b) else none

/-- Multiplication of numbers of 64 bits. -/
def mul? (a b : ℕ) : Option ℕ := if a * b < 2 ^ 64 then some (a * b) else none

/-- Subtraction of numbers without a sign. -/
def sub? (a b : ℕ) : Option ℕ := if b ≤ a then some (a - b) else none

theorem add?_of_lt {a b : ℕ} (h : a + b < 2 ^ 64) : add? a b = some (a + b) := if_pos h

theorem mul?_of_lt {a b : ℕ} (h : a * b < 2 ^ 64) : mul? a b = some (a * b) := if_pos h

theorem sub?_of_le {a b : ℕ} (h : b ≤ a) : sub? a b = some (a - b) := if_pos h

/-- `yearOfEra` on numbers of 64 bits. -/
def yearOfEra? (dayOfEra : ℕ) : Option ℕ := do
  let days ← sub? dayOfEra (dayOfEra / 1460)
  let days ← add? days (dayOfEra / 36524)
  let days ← sub? days (dayOfEra / 146096)
  return days / 365

/-- `dayOfYear` on numbers of 64 bits. -/
def dayOfYear? (dayOfEra : ℕ) : Option ℕ := do
  let year ← yearOfEra? dayOfEra
  let days ← mul? 365 year
  let days ← add? days (year / 4)
  let days ← sub? days (year / 100)
  sub? dayOfEra days

/-- `monthIndex` on numbers of 64 bits. -/
def monthIndex? (dayOfYear : ℕ) : Option ℕ := do
  let days ← mul? 5 dayOfYear
  let days ← add? days 2
  return days / 153

/-- `firstOfMonth` on numbers of 64 bits. -/
def firstOfMonth? (monthIndex : ℕ) : Option ℕ := do
  let days ← mul? 153 monthIndex
  let days ← add? days 2
  return days / 5

/-- `Date.ofDays` on numbers of 64 bits. -/
def ofDays? (days : ℕ) : Option Date := do
  let shifted ← add? days daysToEpoch
  let era := shifted / daysPerEra
  let dayOfEra := shifted % daysPerEra
  let yearOfEra ← yearOfEra? dayOfEra
  let dayOfYear ← dayOfYear? dayOfEra
  let index ← monthIndex? dayOfYear
  let first ← firstOfMonth? index
  let day ← sub? dayOfYear first
  let day ← add? day 1
  let month ← if index < 10 then add? index 3 else sub? index 9
  let years ← mul? era 400
  let year ← add? yearOfEra years
  let year ← add? year (if month ≤ 2 then 1 else 0)
  return { year, month, day }

theorem yearOfEra?_eq {dayOfEra : ℕ} (h : dayOfEra < daysPerEra) :
    yearOfEra? dayOfEra = some (yearOfEra dayOfEra) := by
  rw [daysPerEra] at h
  simp (disch := omega) only [yearOfEra?, sub?_of_le, add?_of_lt, Option.bind_eq_bind,
    Option.bind_some]
  rfl

theorem dayOfYear?_eq {dayOfEra : ℕ} (h : dayOfEra < daysPerEra) :
    dayOfYear? dayOfEra = some (dayOfYear dayOfEra) := by
  obtain ⟨hyear, hle, -⟩ := yearOfEra_bounds h
  rw [marchFirst_of_lt hyear] at hle
  simp (disch := omega) only [dayOfYear?, yearOfEra?_eq h, mul?_of_lt, sub?_of_le, add?_of_lt,
    Option.bind_eq_bind, Option.bind_some]
  rfl

theorem monthIndex?_eq {dayOfYear : ℕ} (h : dayOfYear ≤ 365) :
    monthIndex? dayOfYear = some (monthIndex dayOfYear) := by
  simp (disch := omega) only [monthIndex?, mul?_of_lt, add?_of_lt, Option.bind_eq_bind,
    Option.bind_some]
  rfl

theorem firstOfMonth?_eq {monthIndex : ℕ} (h : monthIndex ≤ 11) :
    firstOfMonth? monthIndex = some (firstOfMonth monthIndex) := by
  simp (disch := omega) only [firstOfMonth?, mul?_of_lt, add?_of_lt, Option.bind_eq_bind,
    Option.bind_some]
  rfl

/-- The last day within a year has the number 365, since days are counted from zero. -/
theorem dayOfYear_le {dayOfEra : ℕ} (h : dayOfEra < daysPerEra) : dayOfYear dayOfEra ≤ 365 := by
  obtain ⟨-, hle, hlt⟩ := yearOfEra_bounds h
  have hyear := marchFirst_succ_le (yearOfEra dayOfEra)
  rw [dayOfYear_eq h]
  omega

/-- Nothing but the step to the first day of the calendar can leave the range. -/
theorem ofDays?_eq_some {days : ℕ} (h : days + daysToEpoch < 2 ^ 64) :
    ofDays? days = some (ofDays days) := by
  obtain ⟨era, dayOfEra, hera, hday, hlt, hshifted⟩ := exists_era (days + daysToEpoch)
  have hyear := (yearOfEra_bounds hlt).1
  have hdayOfYear := dayOfYear_le hlt
  have hindex := monthIndex_le hdayOfYear
  have hfirst := (firstOfMonth_le_day (dayOfYear dayOfEra)).1
  have heras : era * 400 < 2 ^ 60 := by
    rw [daysPerEra] at hshifted
    omega
  have hcalendar (month : ℕ) :
      add? (yearOfEra dayOfEra + era * 400) (if month ≤ 2 then 1 else 0) =
        some (yearOfEra dayOfEra + era * 400 + if month ≤ 2 then 1 else 0) :=
    add?_of_lt (by split <;> omega)
  rw [ofDays?, ofDays, add?_of_lt h, Option.bind_eq_bind, Option.bind_some, hera, hday]
  clear hshifted h
  simp (disch := omega) only [Option.bind_some, yearOfEra?_eq hlt, dayOfYear?_eq hlt,
    monthIndex?_eq, firstOfMonth?_eq, sub?_of_le, add?_of_lt, mul?_of_lt, hcalendar]
  split <;> rfl

/-- **The conversion is exact.** The date of a number of days is a date of the calendar, that many
days after 1970-01-01, and the next number has the next date. The numbers up to any last one have
each date of the calendar from 1970-01-01 up to the last one's once. For the days of a count of
seconds in 64 bits, no operation leaves the range of 64 bits. -/
theorem ofDays_exact :
    (∀ days, (ofDays days).IsValid ∧ dayNumber (ofDays days) = dayNumber ⟨1970, 1, 1⟩ + days ∧
      ofDays (days + 1) = (ofDays days).next) ∧
    (∀ last, Set.BijOn ofDays (Set.Iic last)
      {date | date.IsValid ∧ ⟨1970, 1, 1⟩ ≤ date ∧ date ≤ ofDays last}) ∧
    ∀ days ≤ (2 ^ 64 - 1) / 86400, ofDays? days = some (ofDays days) := by
  refine ⟨fun days ↦ ⟨isValid_ofDays days, ?_, ofDays_succ days⟩, fun last ↦ ?_, fun days h ↦ ?_⟩
  · rw [← ofDays_zero, dayNumber_ofDays, dayNumber_ofDays, Nat.add_zero]
  · rw [← ofDays_zero]
    exact bijOn_ofDays last
  · refine ofDays?_eq_some ?_
    rw [daysToEpoch]
    omega

/-- The last day that a number of seconds of 64 bits can reach, and a 29th of February in a full
century. -/
theorem ofDays_exact_last_day :
    213503982334601 ≤ (2 ^ 64 - 1) / 86400 ∧
      ofDays? 213503982334601 = some ⟨584554051223, 11, 9⟩ ∧
      (ofDays 11016).next = ⟨2000, 3, 1⟩ := by
  have hlast : 213503982334601 ≤ (2 ^ 64 - 1) / 86400 := by decide
  obtain ⟨hdays, -, hrange⟩ := ofDays_exact
  refine ⟨hlast, (hrange _ hlast).trans ?_, (hdays 11016).2.2.symm.trans ?_⟩ <;> decide

end Interpose.Date
