/-!
# Instants and dates

The proleptic Gregorian calendar from a count of days. Years are taken to begin on the first of
March, so that a leap day is the last day of its year and a month's first day within the year is a
linear function of the month, rounded. Four hundred such years are an **era** of 146097 days, after
which everything repeats. Day zero of era zero is 0000-03-01, which is `daysToEpoch` days before
1970-01-01.

Each quantity of the conversion is a function of its own, from the day to the date.

A timestamp has the fixed form `YYYY-MM-DDTHH:MM:SS.mmmZ`; a year beyond 9999 takes the digits it
needs. Instants before 1970 are written as the first one of 1970.
-/

namespace Interpose

/-! ### From days to dates -/

/-- A date of the Gregorian calendar. -/
structure Date where
  year : Nat
  month : Nat
  day : Nat
  deriving DecidableEq, Repr

namespace Date

/-- The days from 0000-03-01 to 1970-01-01. -/
def daysToEpoch : Nat := 719468

/-- The days of four hundred years. -/
def daysPerEra : Nat := 146097

/-- The year within an era of a day within the era. -/
def yearOfEra (dayOfEra : Nat) : Nat :=
  (dayOfEra - dayOfEra / 1460 + dayOfEra / 36524 - dayOfEra / 146096) / 365

/-- The day within its year of a day within an era. -/
def dayOfYear (dayOfEra : Nat) : Nat :=
  let year := yearOfEra dayOfEra
  dayOfEra - (365 * year + year / 4 - year / 100)

/-- The month, counted from March as zero, of a day within its year. -/
def monthIndex (dayOfYear : Nat) : Nat := (5 * dayOfYear + 2) / 153

/-- The first day within its year of a month counted from March. -/
def firstOfMonth (monthIndex : Nat) : Nat := (153 * monthIndex + 2) / 5

/-- The date that lies a number of days after 1970-01-01. -/
def ofDays (days : Nat) : Date :=
  let shifted := days + daysToEpoch
  let era := shifted / daysPerEra
  let dayOfEra := shifted % daysPerEra
  let dayOfYear := dayOfYear dayOfEra
  let index := monthIndex dayOfYear
  let month := if index < 10 then index + 3 else index - 9
  { year := yearOfEra dayOfEra + era * 400 + if month ≤ 2 then 1 else 0
    month
    day := dayOfYear - firstOfMonth index + 1 }

end Date

/-! ### Timestamps -/

/-- A reading of the wall clock: milliseconds since the beginning of 1970, negative before. -/
structure Instant where
  millis : Int
  deriving DecidableEq, Repr, Inhabited

/-- The instant a number of milliseconds after a number of seconds since 1970. -/
def Instant.ofSeconds (seconds : Int) (millis : Nat) : Instant := ⟨seconds * 1000 + millis⟩

/-- A number in decimal with at least `width` digits. -/
def padded (width n : Nat) : String :=
  let ds := Nat.toDigits 10 n
  String.ofList (List.replicate (width - ds.length) '0' ++ ds)

theorem toList_padded (width n : Nat) :
    (padded width n).toList =
      List.replicate (width - (Nat.toDigits 10 n).length) '0' ++ Nat.toDigits 10 n :=
  String.toList_ofList

theorem isDigit_of_mem_padded {width n : Nat} {c : Char} (h : c ∈ (padded width n).toList) :
    c.isDigit = true := by
  rw [toList_padded, List.mem_append] at h
  obtain h | h := h
  · rw [List.eq_of_mem_replicate h]
    decide
  · exact Nat.isDigit_of_mem_toDigits (by decide) (by decide) h

/-- A number is read back from its digits, however many zeros are in front of them. -/
theorem ofDigitChars_padded (width n : Nat) :
    Nat.ofDigitChars 10 (padded width n).toList 0 = n := by
  rw [toList_padded, Nat.ofDigitChars_append, Nat.ofDigitChars_replicate_zero, Nat.mul_zero,
    Nat.ofDigitChars_ten_toDigits]

theorem padded_inj {width m n : Nat} : padded width m = padded width n ↔ m = n := by
  refine ⟨fun h ↦ ?_, congrArg _⟩
  rw [← ofDigitChars_padded width m, h, ofDigitChars_padded]

/-- The timestamp of an instant. -/
def Instant.timestamp (t : Instant) : String :=
  let millis := t.millis.toNat
  let seconds := millis / 1000
  let date := Date.ofDays (seconds / 86400)
  padded 4 date.year ++ "-" ++ padded 2 date.month ++ "-" ++ padded 2 date.day ++ "T" ++
    padded 2 (seconds % 86400 / 3600) ++ ":" ++ padded 2 (seconds % 3600 / 60) ++ ":" ++
    padded 2 (seconds % 60) ++ "." ++ padded 3 (millis % 1000) ++ "Z"

/-- Instants before 1970 are written as its beginning. -/
theorem Instant.timestamp_of_nonpos {t : Instant} (h : t.millis ≤ 0) :
    t.timestamp = Instant.timestamp ⟨0⟩ := by
  simp [timestamp, Int.toNat_eq_zero.mpr h]

end Interpose
