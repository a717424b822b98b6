import Interpose.Decimal.Binary64

/-!
# JSON values

The values of JSON text. Numbers are of two kinds. An `Integer` fits a 64-bit word, signed or
unsigned, and the bounds are part of the type; every other number is `real`, a double with its sign.

The members of an object form a list. A record is written with its members in the order of its
fields; an object that was **read** has its members in strictly increasing order of the keys, the
last of several members with one key taking the place of the others (`Json.ofMembers`).
-/

namespace Interpose

namespace Json

/-- An integer that fits a 64-bit word, signed or unsigned. -/
structure Integer where
  val : Int
  ge_min : -9223372036854775808 ≤ val
  lt_max : val < 18446744073709551616
  deriving DecidableEq, Repr

namespace Integer

/-- An unsigned word as an integer. -/
def ofUInt64 (n : UInt64) : Integer where
  val := n.toNat
  ge_min := by omega
  lt_max := by have := n.toNat_lt; omega

/-- A number as an integer, if it fits. -/
def ofInt? (n : Int) : Option Integer :=
  if h : -9223372036854775808 ≤ n ∧ n < 18446744073709551616 then some ⟨n, h.1, h.2⟩ else none

/-- An integer as an unsigned word, if it is not negative. -/
def toUInt64? (n : Integer) : Option UInt64 :=
  if 0 ≤ n.val then some (UInt64.ofNat n.val.toNat) else none

@[simp] theorem toUInt64?_ofUInt64 (n : UInt64) : (ofUInt64 n).toUInt64? = some n := by
  simp [toUInt64?, ofUInt64]

end Integer

/-- A number. -/
inductive Number
  | integer (n : Integer)
  | real (negative : Bool) (magnitude : Binary64)
  deriving DecidableEq, Repr

end Json

/-- A JSON value. -/
inductive Json
  | null
  | bool (b : Bool)
  | number (n : Json.Number)
  | string (s : String)
  | array (items : List Json)
  | object (members : List (String × Json))
  deriving Repr, Inhabited

namespace Json

/-- A natural number, counted modulo the word size. -/
def ofNat (n : Nat) : Json := number (.integer (.ofUInt64 (UInt64.ofNat n)))

/-- A signed 32-bit word. -/
def ofInt32 (n : Int32) : Json :=
  number (.integer ⟨n.toInt, by have := n.le_toInt; omega, by have := n.toInt_lt; omega⟩)

/-- A string or null. -/
def ofString? : Option String → Json
  | some s => string s
  | none => null

/-! ### Members -/

/-- Members in increasing order of their keys with one more, in place of any of the same key. -/
def insertMember (key : String) (value : Json) : List (String × Json) → List (String × Json)
  | [] => [(key, value)]
  | (k, v) :: ms =>
    if key < k then (key, value) :: (k, v) :: ms
    else if key = k then (key, value) :: ms
    else (k, v) :: insertMember key value ms

/-- The object of members in the order in which they were read. -/
def ofMembers (ms : List (String × Json)) : Json :=
  object (ms.foldl (fun acc m ↦ insertMember m.1 m.2 acc) [])

/-- The value of a member of an object. -/
def get? (key : String) : Json → Option Json
  | object ms => (ms.find? (·.1 = key)).map (·.2)
  | _ => none

/-- The text of a string value. -/
def string? : Json → Option String
  | string s => some s
  | _ => none

end Json

end Interpose
