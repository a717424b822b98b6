import Interpose.Decimal.Shortest
import Interpose.Json.Basic

/-!
# The text of numbers

An integer is written in decimal. A real number is written with its shortest digits, and always so
that it reads back as a real number: with a point, or with an exponent. It is written positionally
when its leading digit stands between five places behind the point and sixteen before it. Otherwise
it has one digit before the point, if there is more than one digit a point, and an exponent with its
sign.
-/

namespace Interpose.Json.Number

/-- Positional writing begins at this exponent of the leading digit. -/
def leastPositional : Int := -5

/-- Positional writing ends at this exponent of the leading digit. -/
def mostPositional : Int := 15

/-- A count of zeros. -/
def zeros (n : Nat) : List Char := List.replicate n '0'

/-- An exponent, always with its sign. -/
def exponentText (e : Int) : List Char :=
  (if e < 0 then '-' else '+') :: Nat.toDigits 10 e.natAbs

/-- A decimal, without sign. -/
def decimalText (d : Decimal) : List Char :=
  let ds := Nat.toDigits 10 d.digits
  let lead : Int := d.power + ds.length - 1
  if leastPositional ≤ lead ∧ lead ≤ mostPositional then
    if 0 ≤ d.power then ds ++ zeros d.power.toNat ++ ['.', '0']
    else if 0 ≤ lead then ds.take (lead.toNat + 1) ++ ['.'] ++ ds.drop (lead.toNat + 1)
    else ['0', '.'] ++ zeros (-lead - 1).toNat ++ ds
  else
    let mantissa := if ds.length = 1 then ds else ds.take 1 ++ ['.'] ++ ds.drop 1
    mantissa ++ ['e'] ++ exponentText lead

/-- An integer. -/
def integerText (n : Int) : List Char :=
  if n < 0 then '-' :: Nat.toDigits 10 n.natAbs else Nat.toDigits 10 n.natAbs

/-- A number. -/
def text : Number → List Char
  | integer n => integerText n.val
  | real negative magnitude =>
    let digits := decimalText magnitude.shortest
    if negative then '-' :: digits else digits

end Interpose.Json.Number
