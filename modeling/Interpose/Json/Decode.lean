import Interpose.Json.Number
import Interpose.Text.Quoted

/-!
# Typed reading of JSON values

A typed field expects a string, an unsigned word, or one of a list of names. What it finds instead
is described by its kind, with the value itself where that is short.

One of a list of names may be spelled as a string, or as an object whose only member has the name
as its key and null as its value.
-/

namespace Interpose.Json

/-- Why a value is not what a field expects. -/
inductive DecodeError
  /-- The field is missing. -/
  | missing (field : String)
  /-- The value is of another kind. -/
  | wrongKind (found : Json) (expected : String)
  /-- The value is a negative integer where a word is expected. -/
  | negative (n : Integer)
  /-- The object does not have exactly one member. -/
  | notSingle
  /-- The name is none of those in the list. -/
  | unknownName (name : String) (known : List String)
  deriving Repr

/-- What a value is, in words. -/
def describe : Json → String
  | null => "null"
  | bool b => "boolean `" ++ toString b ++ "`"
  | number (.integer n) => "integer `" ++ String.ofList (Number.integerText n.val) ++ "`"
  | number (.real s x) =>
    "floating point `" ++ String.ofList (Number.text (.real s x)) ++ "`"
  | string s => "string " ++ Text.quoted s
  | array _ => "sequence"
  | object _ => "map"

/-- The error in words. -/
def DecodeError.message : DecodeError → String
  | missing field => "missing field `" ++ field ++ "`"
  | wrongKind found expected => "invalid type: " ++ found.describe ++ ", expected " ++ expected
  | negative n =>
    "invalid value: " ++ describe (number (.integer n)) ++ ", expected usize"
  | notSingle => "invalid value: map, expected map with a single key"
  | unknownName name known =>
    "unknown variant `" ++ name ++ "`, expected one of " ++
      String.intercalate ", " (known.map fun k ↦ "`" ++ k ++ "`")

/-- The text of a string. -/
def decodeString : Json → Except DecodeError String
  | string s => .ok s
  | v => .error (.wrongKind v "a string")

/-- The word of an integer. -/
def decodeWord : Json → Except DecodeError UInt64
  | number (.integer n) =>
    match n.toUInt64? with
    | some w => .ok w
    | none => .error (.negative n)
  | v => .error (.wrongKind v "usize")

/-- One of the values in a list, by its name. -/
def decodeName {α : Type} (all : List α) (name : α → String) : Json → Except DecodeError α
  | string s => find s
  | object [(s, v)] => do
    let a ← find s
    match v with
    | null => .ok a
    | v => .error (.wrongKind v "unit")
  | object _ => .error .notSingle
  | v => .error (.wrongKind v "string or map")
where
  /-- The value of a name. -/
  find (s : String) : Except DecodeError α :=
    match all.find? (name · = s) with
    | some a => .ok a
    | none => .error (.unknownName s (all.map name))

/-- The value of a member that has to be there. -/
def required {α : Type} (decode : Json → Except DecodeError α) (field : String) (v : Json) :
    Except DecodeError α :=
  match v.get? field with
  | some w => decode w
  | none => .error (.missing field)

/-- The value of a member that may be missing or null. -/
def optional {α : Type} (decode : Json → Except DecodeError α) (field : String) (v : Json) :
    Except DecodeError (Option α) :=
  match v.get? field with
  | none | some null => .ok none
  | some w => (decode w).map some

end Interpose.Json
