/-!
# Doubles as exact values

The magnitude of a finite double is `mantissa * 2 ^ exponent`. Everything here is arithmetic of
natural numbers: a fraction is a numerator and a denominator, and an operation on doubles is the
exact fraction followed by **one rounding**, to the nearest double and from halfway to the even
mantissa.

`Binary64.nearest?` is that rounding. It has no result exactly when the rounded value is beyond the
largest double.

`Binary64.ofDecimal?` reads a significand scaled by a power of ten. It rounds twice, once for the
significand and once for the scaling, so the result may be the neighbour of the nearest double when
the significand has more than fifteen digits. Powers below `10 ^ -308` are applied in steps.
-/

namespace Interpose

/-- The magnitude `mantissa * 2 ^ exponent` of a finite double. -/
structure Binary64 where
  mantissa : Nat
  exponent : Int
  deriving DecidableEq, Repr, Inhabited

namespace Binary64

/-! ### Powers and bounds -/

/-- A power of two. -/
def twoPow (n : Nat) : Nat := Nat.pow 2 n

/-- A power of ten. -/
def tenPow (n : Nat) : Nat := Nat.pow 10 n

/-- The least mantissa of 53 bits, which is the fifty-second power of two. -/
def leastFullMantissa : Nat := 4503599627370496

/-- The least exponent of a double. -/
def minExponent : Int := -1074

/-- The greatest exponent of a double. -/
def maxExponent : Int := 971

/-! ### Rounding -/

/-- A quotient rounded to the nearest integer, from halfway to the even one. -/
def roundDiv (num den : Nat) : Nat :=
  let q := num / den
  let r := num % den
  if 2 * r < den ∨ (2 * r = den ∧ q % 2 = 0) then q else q + 1

/-- The exponent at which a fraction has a mantissa of 53 bits, or the least exponent if it is too
small for that. -/
def exponentOf (num den : Nat) : Int :=
  let e : Int := (num.log2 : Int) - den.log2
  let below := num * twoPow (-e).toNat < den * twoPow e.toNat
  max minExponent (if below then e - 53 else e - 52)

/-- The double nearest to a fraction, if that is not beyond the largest. -/
def nearest? (num den : Nat) : Option Binary64 :=
  if num = 0 then some ⟨0, minExponent⟩
  else
    let e := exponentOf num den
    let m := roundDiv (num * twoPow (-e).toNat) (den * twoPow e.toNat)
    let x : Binary64 := if m = 2 * leastFullMantissa then ⟨leastFullMantissa, e + 1⟩ else ⟨m, e⟩
    if x.exponent ≤ maxExponent then some x else none

/-! ### Operations -/

/-- The product of two doubles. -/
def mul? (x y : Binary64) : Option Binary64 :=
  let e := x.exponent + y.exponent
  nearest? (x.mantissa * y.mantissa * twoPow e.toNat) (twoPow (-e).toNat)

/-- The quotient of two doubles. -/
def div? (x y : Binary64) : Option Binary64 :=
  let e := x.exponent - y.exponent
  nearest? (x.mantissa * twoPow e.toNat) (y.mantissa * twoPow (-e).toNat)

/-! ### Reading decimals -/

/-- The greatest power of ten that is a double. -/
def maxTenPower : Nat := 308

/-- A double scaled up by a power of ten. -/
def scaleUp? (x : Binary64) (power : Nat) : Option Binary64 :=
  if power ≤ maxTenPower then do x.mul? (← nearest? (tenPow power) 1)
  else if x.mantissa = 0 then some x
  else none

/-- A double scaled down by a power of ten, in steps of at most `maxTenPower`. -/
def scaleDown? (x : Binary64) (power : Nat) : Option Binary64 :=
  if power ≤ maxTenPower then do x.div? (← nearest? (tenPow power) 1)
  else if x.mantissa = 0 then some x
  else do
    let y ← x.div? (← nearest? (tenPow maxTenPower) 1)
    y.scaleDown? (power - maxTenPower)
  termination_by power
  decreasing_by
    have : 0 < maxTenPower := by decide
    omega

/-- The double of `significand * 10 ^ power`, rounded at the significand and at the scaling. -/
def ofDecimal? (significand : Nat) (power : Int) : Option Binary64 := do
  let x ← nearest? significand 1
  if 0 ≤ power then x.scaleUp? power.toNat else x.scaleDown? (-power).toNat

end Binary64

end Interpose
