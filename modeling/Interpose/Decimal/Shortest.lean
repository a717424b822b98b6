import Interpose.Decimal.Binary64

/-!
# The shortest decimal of a double

A double stands for all the numbers that round to it: those up to halfway to its neighbours, the
ends included exactly when its mantissa is even. Its shortest decimal is the one with the fewest
digits in that interval; of two with equally many digits it is the nearer, and from halfway the one
with the even last digit.

For each number of digits there is a grid of candidates around the double. Only the two grid points
next to the double have to be looked at, and seventeen digits are always enough.
-/

namespace Interpose

/-- The decimal `digits * 10 ^ power`. -/
structure Decimal where
  digits : Nat
  power : Int
  deriving DecidableEq, Repr

namespace Decimal

/-- A decimal without the zeros that end its digits. -/
def stripZeros (d : Decimal) : Decimal :=
  if h : d.digits ≠ 0 ∧ d.digits % 10 = 0 then stripZeros ⟨d.digits / 10, d.power + 1⟩ else d
  termination_by d.digits
  decreasing_by exact Nat.div_lt_self (Nat.pos_of_ne_zero h.1) (by decide)

/-- The number of decimal digits of a natural number. -/
def length (n : Nat) : Nat := (Nat.toDigits 10 n).length

end Decimal

namespace Binary64

/-- How `a * 10 ^ i` compares with `b * 2 ^ j`. -/
def compareScaled (a : Nat) (i : Int) (b : Nat) (j : Int) : Ordering :=
  compare (a * tenPow i.toNat * twoPow (-j).toNat) (b * twoPow j.toNat * tenPow (-i).toNat)

/-- Whether a decimal rounds to a double. The gap below a power of two is half the gap above it. -/
def rounds (x : Binary64) (d : Decimal) : Bool :=
  let narrow := x.mantissa == leastFullMantissa && x.exponent > minExponent
  let low := if narrow then 4 * x.mantissa - 1 else 4 * x.mantissa - 2
  let high := 4 * x.mantissa + 2
  let closed := x.mantissa % 2 == 0
  let above := compareScaled d.digits d.power low (x.exponent - 2)
  let below := compareScaled d.digits d.power high (x.exponent - 2)
  (above == .gt || (closed && above == .eq)) && (below == .lt || (closed && below == .eq))

/-- The least exponent of a power of ten that is greater than the double. -/
def decimalScale (x : Binary64) : Int :=
  let num := x.mantissa * twoPow x.exponent.toNat
  let den := twoPow (-x.exponent).toNat
  if den ≤ num then Decimal.length (num / den)
  else
    -- the least number of places that lifts the fraction to one or more
    let ceiling := (den + num - 1) / num
    1 - (Decimal.length (ceiling - 1) : Int)

/-- The candidate with a given number of digits, if one rounds to the double. -/
def candidate? (x : Binary64) (digits : Nat) : Option Decimal :=
  let power := x.decimalScale - digits
  let num := x.mantissa * twoPow x.exponent.toNat * tenPow (-power).toNat
  let den := twoPow (-x.exponent).toNat * tenPow power.toNat
  let floor := num / den
  let lower : Decimal := ⟨floor, power⟩
  let upper : Decimal := ⟨floor + 1, power⟩
  match x.rounds lower, x.rounds upper with
  | true, true => some ⟨roundDiv num den, power⟩
  | true, false => some lower
  | false, true => some upper
  | false, false => none

/-- The exact value of a double as a decimal. -/
def exactDecimal (x : Binary64) : Decimal :=
  if 0 ≤ x.exponent then ⟨x.mantissa * twoPow x.exponent.toNat, 0⟩
  else ⟨x.mantissa * Nat.pow 5 (-x.exponent).toNat, x.exponent⟩

/-- The shortest decimal that rounds to a double. -/
def shortest (x : Binary64) : Decimal :=
  if x.mantissa = 0 then ⟨0, 0⟩
  else
    let found := (List.range' 1 17).findSome? x.candidate?
    (found.getD x.exactDecimal).stripZeros

end Binary64

end Interpose
