import Interpose.Json.Fault

/-!
# Numerals

A numeral is a number as it is spelled: a sign, integral digits, places behind the point and an
exponent. Its value is an integer when it has neither places nor exponent and fits a word. A
negative zero is real, so that its sign is kept.

A real value is made from one significand that fits a word. Digits are taken into it from left to
right as long as they fit; integral digits that do not fit count as zeros, and places that do not
fit count for nothing.
-/

namespace Interpose.Json

/-- An exponent as it is spelled. -/
structure Exponent where
  negative : Bool
  digits : List Char
  deriving DecidableEq, Repr

/-- A number as it is spelled. -/
structure Numeral where
  negative : Bool
  whole : List Char
  places : List Char := []
  exponent : Option Exponent := none
  deriving DecidableEq, Repr

namespace Numeral

/-- The greatest unsigned word. -/
def maxWord : Nat := 18446744073709551615

/-- The greatest exponent that is evaluated. -/
def maxExponent : Nat := 2147483647

/-- The value of a decimal digit. -/
def digitValue (c : Char) : Nat := c.toNat - '0'.toNat

/-- A number with further decimal digits, taken in up to a limit, and the digits that are left. -/
def absorb (limit n : Nat) : List Char → Nat × List Char
  | [] => (n, [])
  | c :: s =>
    let next := n * 10 + digitValue c
    if next ≤ limit then absorb limit next s else (n, c :: s)

/-- The significand of a numeral and the power of ten it is scaled by, without the exponent. -/
def significand (n : Numeral) : Nat × Int :=
  let (whole, zeros) := absorb maxWord 0 n.whole
  let (all, unused) := absorb maxWord whole n.places
  (all, zeros.length - (n.places.length - unused.length : Nat))

/-- A real number, or the fault of one that is too large, in front of the rest of the text. -/
def real (negative : Bool) (significand : Nat) (power : Int) (rest : List Char) :
    Except Fault Number :=
  match Binary64.ofDecimal? significand power with
  | some x => .ok (.real negative x)
  | none => .error (Fault.before .numberOutOfRange rest)

/-- The value of a numeral in front of the rest of the text. An exponent beyond `maxExponent` makes
any significand but zero too large, or else zero. -/
def value (n : Numeral) (rest : List Char) : Except Fault Number :=
  let (significand, power) := n.significand
  match n.exponent with
  | some e =>
    match absorb maxExponent 0 e.digits with
    | (k, []) => real n.negative significand (if e.negative then power - k else power + k) rest
    | (_, _ :: unread) =>
      if significand ≠ 0 ∧ !e.negative then
        .error (Fault.before .numberOutOfRange (unread ++ rest))
      else .ok (.real n.negative ⟨0, Binary64.minExponent⟩)
  | none =>
    let signed : Int := if n.negative then -significand else significand
    let integral := n.places.isEmpty ∧ power = 0 ∧ ¬(n.negative ∧ significand = 0)
    match if integral then Integer.ofInt? signed else none with
    | some i => .ok (.integer i)
    | none => real n.negative significand power rest

end Numeral

end Interpose.Json
