import Interpose.Proofs.Calendar
import Mathlib.Data.List.Forall2
import Mathlib.Data.List.Lex
import Mathlib.Data.String.Basic

/-!
# Timestamps in the order of time

A timestamp is a row of numbers in **columns** of fixed width, each with a mark behind it
(`toList_timestamp`). What is said about timestamps is said about columns first, for any layout,
as long as the numbers fit: they are in the order of the first numbers that differ
(`columns_lt_columns`), and the numbers are read back from them (`read?_columns`). Both come from
the digits of one number, which are in its order when they are as many (`lt_of_ofDigitChars_lt`).

It remains that a later instant has the greater numbers (`numbers_lt_numbers`), which is the order
of dates followed by that of the remainders of a day, and that before the year 10000 every number
fits its column (`fits_numbers`). That year begins where the count of days says so
(`Date.beginning`), and the same count leads from the numbers back to the instant
(`Instant.ofTimestamp?`).
-/

namespace Interpose

/-! ### Digits in order -/

section Digits

variable {s t : List Char}

/-- The first digit is worth ten to the number of digits behind it. -/
theorem ofDigitChars_cons_eq (c : Char) (s : List Char) :
    Nat.ofDigitChars 10 (c :: s) 0 =
      10 ^ s.length * (c.toNat - '0'.toNat) + Nat.ofDigitChars 10 s 0 := by
  rw [Nat.ofDigitChars_cons, Nat.mul_zero, Nat.zero_add, Nat.ofDigitChars_eq_ofDigitChars_zero]

/-- The number of some digits is less than ten to how many they are. -/
theorem ofDigitChars_lt (hs : ∀ c ∈ s, c.isDigit = true) :
    Nat.ofDigitChars 10 s 0 < 10 ^ s.length := by
  induction s with
  | nil => decide
  | cons c s ih =>
    obtain ⟨hc, hs⟩ := List.forall_mem_cons.mp hs
    have hdigit : c.toNat - '0'.toNat ≤ 9 := Nat.sub_le_sub_right (Char.isDigit_iff_toNat.mp hc).2 _
    calc Nat.ofDigitChars 10 (c :: s) 0
        = 10 ^ s.length * (c.toNat - '0'.toNat) + Nat.ofDigitChars 10 s 0 :=
          ofDigitChars_cons_eq c s
      _ < 10 ^ s.length * 9 + 10 ^ s.length :=
          Nat.add_lt_add_of_le_of_lt (Nat.mul_le_mul_left _ hdigit) (ih hs)
      _ = 10 ^ (s.length + 1) := (Nat.mul_succ _ 9).symm

/-- **Digits at as many places are in the order of their numbers.** -/
theorem lt_of_ofDigitChars_lt (hlength : s.length = t.length) (hs : ∀ c ∈ s, c.isDigit = true)
    (ht : ∀ c ∈ t, c.isDigit = true) (h : Nat.ofDigitChars 10 s 0 < Nat.ofDigitChars 10 t 0) :
    s < t := by
  induction s generalizing t with
  | nil =>
    obtain rfl := List.eq_nil_of_length_eq_zero hlength.symm
    cases h
  | cons c s ih =>
    cases t with
    | nil => cases hlength
    | cons d t =>
      obtain ⟨hc, hsmore⟩ := List.forall_mem_cons.mp hs
      obtain ⟨hd, htmore⟩ := List.forall_mem_cons.mp ht
      have hrests : s.length = t.length := Nat.succ.inj hlength
      rw [ofDigitChars_cons_eq, ofDigitChars_cons_eq, hrests] at h
      obtain hlt | rfl | hgt := lt_trichotomy c d
      · exact .rel hlt
      · exact .cons (ih hrests hsmore htmore (Nat.add_lt_add_iff_left.mp h))
      · -- The first digit would make the first number the greater one.
        have hrest := ofDigitChars_lt htmore
        have hzero : '0'.toNat ≤ d.toNat := (Char.isDigit_iff_toNat.mp hd).1
        have hdigit : d.toNat - '0'.toNat + 1 ≤ c.toNat - '0'.toNat := by
          have hnat : d.toNat < c.toNat := UInt32.lt_iff_toNat_lt.mp (Char.lt_def.mp hgt)
          omega
        have hplaces := Nat.mul_le_mul_left (10 ^ t.length) hdigit
        rw [Nat.mul_succ] at hplaces
        omega

/-- A number with no more digits than there are places takes all of them, with zeros in front. -/
theorem length_padded {width n : ℕ} (hwidth : 0 < width) (hn : n < 10 ^ width) :
    (padded width n).toList.length = width := by
  have hlength := (Nat.length_toDigits_le_iff (by decide) hwidth).mpr hn
  rw [toList_padded, List.length_append, List.length_replicate]
  omega

/-- Numbers that fit are in order as texts of the same width. -/
theorem padded_lt_padded {width m n : ℕ} (hwidth : 0 < width) (hn : n < 10 ^ width) (h : m < n) :
    (padded width m).toList < (padded width n).toList := by
  refine lt_of_ofDigitChars_lt ?_ (fun _ ↦ isDigit_of_mem_padded) (fun _ ↦ isDigit_of_mem_padded) ?_
  · rw [length_padded hwidth hn, length_padded hwidth (h.trans hn)]
  · rwa [ofDigitChars_padded, ofDigitChars_padded]

/-- The first texts that differ decide, if they are equally long. -/
theorem append_lt_append (hlength : s.length = t.length) (h : s < t) (s' t' : List Char) :
    s ++ s' < t ++ t' := by
  induction h with
  | nil => cases hlength
  | cons _ ih => exact .cons (ih (Nat.succ.inj hlength))
  | rel h => exact .rel h

end Digits

/-! ### Columns -/

namespace Timestamp

/-- The columns of a timestamp: how many places each has, and the mark behind it. -/
def layout : List (ℕ × Char) :=
  [(4, '-'), (2, '-'), (2, 'T'), (2, ':'), (2, ':'), (2, '.'), (3, 'Z')]

/-- Numbers in columns. -/
def columns : List (ℕ × Char) → List ℕ → List Char
  | (width, mark) :: layout, n :: numbers =>
    (padded width n).toList ++ mark :: columns layout numbers
  | _, _ => []

/-- A number fits its column. -/
def Fits (column : ℕ × Char) (n : ℕ) : Prop := 0 < column.1 ∧ n < 10 ^ column.1

variable {l : List (ℕ × Char)} {numbers numbers' : List ℕ}

/-- **Numbers in columns are in the order of the first ones that differ.** -/
theorem columns_lt_columns (h : List.Forall₂ Fits l numbers) (h' : List.Forall₂ Fits l numbers')
    (hlt : numbers < numbers') : columns l numbers < columns l numbers' := by
  induction h generalizing numbers' with
  | nil =>
    cases h'
    cases hlt
  | @cons column n l numbers hn _ ih =>
    cases h' with
    | @cons _ n' _ numbers' hn' h' =>
      rw [columns, columns]
      obtain hless | ⟨rfl, hrest⟩ := List.cons_lt_cons_iff.mp hlt
      · refine append_lt_append ?_ (padded_lt_padded hn.1 hn'.2 hless) _ _
        rw [length_padded hn.1 hn.2, length_padded hn.1 hn'.2]
      · exact List.append_left_lt (List.cons_lt_cons_iff.mpr (.inr ⟨rfl, ih h' hrest⟩))

/-- The form of columns: a `d` for each place, and the marks. -/
def form : List (ℕ × Char) → List Char
  | (width, mark) :: layout => List.replicate width 'd' ++ mark :: form layout
  | [] => []

/-- A character has its place in a form: a digit at a `d`, and elsewhere the character itself. -/
def FitsForm (place c : Char) : Prop := if place = 'd' then c.isDigit = true else c = place

theorem forall₂_replicate {s : List Char} (hs : ∀ c ∈ s, c.isDigit = true) :
    List.Forall₂ FitsForm (List.replicate s.length 'd') s := by
  induction s with
  | nil => exact .nil
  | cons c s ih =>
    obtain ⟨hc, hs⟩ := List.forall_mem_cons.mp hs
    exact .cons (by simpa [FitsForm] using hc) (ih hs)

/-- Numbers that fit their columns have the form of the columns. -/
theorem forall₂_form (hmarks : ∀ column ∈ l, column.2 ≠ 'd') (h : List.Forall₂ Fits l numbers) :
    List.Forall₂ FitsForm (form l) (columns l numbers) := by
  induction h with
  | nil => exact .nil
  | @cons column n l numbers hn _ ih =>
    obtain ⟨hmark, hmarks⟩ := List.forall_mem_cons.mp hmarks
    have hdigits := forall₂_replicate fun c (hc : c ∈ (padded column.1 n).toList) ↦
      isDigit_of_mem_padded hc
    rw [length_padded hn.1 hn.2] at hdigits
    exact List.rel_append hdigits (.cons (by simp [FitsForm, hmark]) (ih hmarks))

/-- The numbers in columns. -/
def read? : List (ℕ × Char) → List Char → Option (List ℕ)
  | [], [] => some []
  | [], _ :: _ => none
  | (width, mark) :: layout, s =>
    match s.drop width with
    | [] => none
    | c :: rest =>
      let digits := s.take width
      if digits.all Char.isDigit && c = mark then
        (read? layout rest).map (Nat.ofDigitChars 10 digits 0 :: ·)
      else none

/-- Numbers that were put in columns are read back. -/
theorem read?_columns (h : List.Forall₂ Fits l numbers) :
    read? l (columns l numbers) = some numbers := by
  induction h with
  | nil => rfl
  | @cons column n l numbers hn _ ih =>
    have hlength := length_padded hn.1 hn.2
    have hdigits : (padded column.1 n).toList.all Char.isDigit = true :=
      List.all_eq_true.mpr fun _ ↦ isDigit_of_mem_padded
    rw [columns, read?, List.drop_left' hlength]
    simp [List.take_left' hlength, hdigits, ih, ofDigitChars_padded]

end Timestamp

/-! ### Instants -/

namespace Date

theorem dayNumber_epoch : dayNumber ⟨1970, 1, 1⟩ = 719528 := by
  rw [← ofDays_zero, dayNumber_ofDays]

theorem monthLength_le (year month : ℕ) : monthLength year month ≤ 31 := by
  unfold monthLength
  split
  · split <;> decide
  all_goals decide

/-- The beginning of a date, in nanoseconds from that of 1970 on. -/
def beginning (date : Date) : ℤ :=
  ((dayNumber date : ℤ) - dayNumber ⟨1970, 1, 1⟩) * 86400 * 1000000000

theorem ofDays_tenThousand : ofDays 2932897 = ⟨10000, 1, 1⟩ := by
  decide

theorem beginning_tenThousand : beginning ⟨10000, 1, 1⟩ = 2932897 * 86400 * 1000000000 := by
  rw [beginning, ← ofDays_tenThousand, dayNumber_ofDays, dayNumber_epoch]
  rfl

/-- What comes before the year 10000 is told by the count of days. -/
theorem year_lt_of_days_lt {days : ℕ} (h : days < 2932897) : (ofDays days).year < 10000 := by
  obtain ⟨hmonth, -, hday, -⟩ := isValid_ofDays days
  have hlt := strictMono_ofDays h
  rw [ofDays_tenThousand, lt_iff] at hlt
  dsimp only at hlt
  omega

end Date

namespace Instant

open Timestamp

/-- The reading of a clock some nanoseconds after the beginning of 1970: its millisecond. -/
def ofNanos (nanos : ℤ) : Instant := ⟨nanos / 1000000⟩

/-- The numbers in a timestamp: the date, and what of the day has passed. -/
def numbers (t : Instant) : List ℕ :=
  let millis := t.millis.toNat
  let seconds := millis / 1000
  let date := Date.ofDays (seconds / 86400)
  [date.year, date.month, date.day, seconds % 86400 / 3600, seconds % 3600 / 60, seconds % 60,
    millis % 1000]

/-- The instant of the numbers in a timestamp, by the count of days up to its date. -/
def ofNumbers? : List ℕ → Option Instant
  | [year, month, day, hour, minute, second, milli] =>
    let days : ℤ := Date.dayNumber ⟨year, month, day⟩ - Date.dayNumber ⟨1970, 1, 1⟩
    some ⟨(((days * 24 + hour) * 60 + minute) * 60 + second) * 1000 + milli⟩
  | _ => none

/-- The instant of a timestamp. -/
def ofTimestamp? (s : String) : Option Instant := (read? layout s.toList).bind ofNumbers?

theorem toList_columns (year month day hour minute second milli : ℕ) :
    (padded 4 year ++ "-" ++ padded 2 month ++ "-" ++ padded 2 day ++ "T" ++ padded 2 hour ++ ":" ++
        padded 2 minute ++ ":" ++ padded 2 second ++ "." ++ padded 3 milli ++ "Z").toList =
      columns layout [year, month, day, hour, minute, second, milli] := by
  simp [columns, layout]

/-- A timestamp is its numbers in columns. -/
theorem toList_timestamp (t : Instant) : t.timestamp.toList = columns layout t.numbers :=
  toList_columns ..

/-- Later instants have greater numbers, in the first place where they differ. -/
theorem numbers_lt_numbers {t u : Instant} (h : t.millis.toNat < u.millis.toNat) :
    t.numbers < u.numbers := by
  rw [numbers, numbers]
  generalize t.millis.toNat = m at h ⊢
  generalize u.millis.toNat = n at h ⊢
  have hday : m / 1000 / 86400 ≤ n / 1000 / 86400 := by omega
  obtain hday | hday := hday.lt_or_eq
  · obtain hyear | ⟨hyear, hmonth | ⟨hmonth, hday⟩⟩ :=
      Date.lt_iff.mp (Date.strictMono_ofDays hday)
    · exact .rel hyear
    · simp [List.cons_lt_cons_iff, hyear, hmonth]
    · simp [List.cons_lt_cons_iff, hyear, hmonth, hday]
  · simp only [List.cons_lt_cons_iff, hday, lt_irrefl, true_and, false_or]
    omega

/-- The numbers of a timestamp tell its millisecond. -/
theorem ofNumbers?_numbers (t : Instant) : ofNumbers? t.numbers = some ⟨t.millis.toNat⟩ := by
  rw [numbers, ofNumbers?, Date.dayNumber_ofDays, Date.dayNumber_epoch]
  generalize t.millis.toNat = m
  simp only [Option.some.injEq, mk.injEq]
  omega

/-- Before the year 10000, every number of a timestamp fits its column. -/
theorem fits_numbers {nanos : ℤ} (h : nanos < Date.beginning ⟨10000, 1, 1⟩) :
    List.Forall₂ Fits layout (ofNanos nanos).numbers := by
  rw [numbers, ofNanos]
  rw [Date.beginning_tenThousand] at h
  have hdays : (nanos / 1000000).toNat / 1000 / 86400 < 2932897 := by omega
  generalize (nanos / 1000000).toNat = m at hdays ⊢
  obtain ⟨honeMonth, hmonth, honeDay, hday⟩ := Date.isValid_ofDays (m / 1000 / 86400)
  have hmonthLength := Date.monthLength_le (Date.ofDays (m / 1000 / 86400)).year
    (Date.ofDays (m / 1000 / 86400)).month
  have hyear := Date.year_lt_of_days_lt hdays
  generalize Date.ofDays (m / 1000 / 86400) = date at *
  simp only [layout, List.forall₂_cons, Fits]
  refine ⟨?_, ?_, ?_, ?_, ?_, ?_, ?_, .nil⟩ <;> omega

/-- Before the year 10000, a timestamp has the usual form. -/
theorem forall₂_timestamp {nanos : ℤ} (h : nanos < Date.beginning ⟨10000, 1, 1⟩) :
    List.Forall₂ FitsForm "dddd-dd-ddTdd:dd:dd.dddZ".toList (ofNanos nanos).timestamp.toList := by
  rw [toList_timestamp]
  exact forall₂_form (by decide) (fits_numbers h)

/-- **Timestamps do not decrease** as time goes on. -/
theorem timestamp_mono {t u : ℤ} (ht : t < Date.beginning ⟨10000, 1, 1⟩)
    (hu : u < Date.beginning ⟨10000, 1, 1⟩) (h : t ≤ u) :
    (ofNanos t).timestamp ≤ (ofNanos u).timestamp := by
  have hmillis : (ofNanos t).millis.toNat ≤ (ofNanos u).millis.toNat :=
    Int.toNat_le_toNat (Int.ediv_le_ediv (by decide) h)
  rw [String.le_iff_toList_le, toList_timestamp, toList_timestamp]
  obtain hlt | heq := hmillis.lt_or_eq
  · exact (columns_lt_columns (fits_numbers ht) (fits_numbers hu) (numbers_lt_numbers hlt)).le
  · rw [numbers, numbers, heq]

/-- The millisecond of an instant is read back from its timestamp. -/
theorem ofTimestamp?_timestamp {nanos : ℤ} (h : nanos < Date.beginning ⟨10000, 1, 1⟩) :
    ofTimestamp? (ofNanos nanos).timestamp = some ⟨(ofNanos nanos).millis.toNat⟩ := by
  rw [ofTimestamp?, toList_timestamp, read?_columns (fits_numbers h), Option.bind_some,
    ofNumbers?_numbers]

end Instant

/-- **Timestamps are in the order of time.**

Let two readings of the clock lie before the year 10000, in nanoseconds from the beginning of 1970
on. A timestamp has 24 characters of the usual form. If the first reading is not later than the
second, its timestamp is not greater. From 1970 on, two timestamps are equal just if the readings
lie in the same millisecond, and that millisecond is read back from the timestamp by the rules of
the calendar. A reading before 1970 has the timestamp of the beginning of 1970. -/
theorem timestamps_sort {t u : ℤ} (ht : t < Date.beginning ⟨10000, 1, 1⟩)
    (hu : u < Date.beginning ⟨10000, 1, 1⟩) :
    let stamp (nanos : ℤ) : String := (Instant.ofNanos nanos).timestamp
    (stamp t).length = 24 ∧
      List.Forall₂ Timestamp.FitsForm "dddd-dd-ddTdd:dd:dd.dddZ".toList (stamp t).toList ∧
      (t ≤ u → stamp t ≤ stamp u) ∧
      (0 ≤ t → 0 ≤ u → (stamp t = stamp u ↔ t / 1000000 = u / 1000000)) ∧
      (0 ≤ t → Instant.ofTimestamp? (stamp t) = some (Instant.ofNanos t)) ∧
      (t < 0 → stamp t = stamp 0) := by
  intro stamp
  have hform := Instant.forall₂_timestamp ht
  have hread := Instant.ofTimestamp?_timestamp ht
  have hmillis {n : ℤ} (hn : 0 ≤ n) : ((Instant.ofNanos n).millis.toNat : ℤ) = n / 1000000 :=
    Int.toNat_of_nonneg (Int.ediv_nonneg hn (by decide))
  refine ⟨hform.length_eq.symm, hform, Instant.timestamp_mono ht hu, fun ht₀ hu₀ ↦ ⟨fun h ↦ ?_, ?_⟩,
    fun ht₀ ↦ ?_, fun ht₀ ↦ ?_⟩
  · -- Both milliseconds are read back from one text.
    have hsame : (Instant.ofNanos t).timestamp = (Instant.ofNanos u).timestamp := h
    rw [hsame, Instant.ofTimestamp?_timestamp hu, Option.some.injEq, Instant.mk.injEq, hmillis ht₀,
      hmillis hu₀] at hread
    exact hread.symm
  · exact fun h ↦ congrArg (fun millis ↦ (Instant.mk millis).timestamp) h
  · rw [hread, hmillis ht₀, Instant.ofNanos]
  · exact Instant.timestamp_of_nonpos (Int.le_of_lt (Int.ediv_neg_of_neg_of_pos ht₀ (by decide)))

/-- The last nanosecond of 1999 is before the first one of 2000, also in their timestamps. -/
theorem timestamps_sort_new_year :
    let stamp (nanos : ℤ) : String := (Instant.ofNanos nanos).timestamp
    946684799999999999 < Date.beginning ⟨10000, 1, 1⟩ ∧
      946684800000000000 < Date.beginning ⟨10000, 1, 1⟩ ∧
      (stamp 946684799999999999).length = 24 ∧
      stamp 946684799999999999 ≤ stamp 946684800000000000 ∧
      stamp 946684799999999999 ≠ stamp 946684800000000000 ∧
      Instant.ofTimestamp? (stamp 946684799999999999) = some ⟨946684799999⟩ ∧
      -1 < Date.beginning ⟨10000, 1, 1⟩ ∧ stamp (-1) = stamp 0 := by
  intro stamp
  have hlast : 946684799999999999 < Date.beginning ⟨10000, 1, 1⟩ := by
    rw [Date.beginning_tenThousand]
    decide
  have hfirst : 946684800000000000 < Date.beginning ⟨10000, 1, 1⟩ := by
    rw [Date.beginning_tenThousand]
    decide
  have hbefore : -1 < Date.beginning ⟨10000, 1, 1⟩ := by
    rw [Date.beginning_tenThousand]
    decide
  obtain ⟨hlength, -, hle, heq, hread, -⟩ := timestamps_sort hlast hfirst
  obtain ⟨-, -, -, -, -, hepoch⟩ := timestamps_sort hbefore hbefore
  refine ⟨hlast, hfirst, hlength, hle (by decide), fun h ↦ ?_, hread (by decide), hbefore,
    hepoch (by decide)⟩
  exact absurd ((heq (by decide) (by decide)).mp h) (by decide)

end Interpose
