import Interpose.Text.Blank
import Interpose.Text.ByteLength

/-!
# Lines of an override table

A line assigns a **target**, a library and a symbol in it, to a **key**:

```text
key   library   symbol   # and a comment
```

Everything from the first `#` on is comment. What is left has to be exactly three words. Each word
is limited to `maxNameBytes` bytes, and the policy says what becomes of a longer one: it is cut down
to whole characters, or the line is refused, naming the first word at fault.

`parseLine` returns the assignment or the reason for which the line yields none.
-/

namespace Interpose

/-! ### Policies and reasons -/

/-- What to do about a word over the limit. -/
inductive NamePolicy
  /-- Keep as many whole characters as fit. -/
  | truncate
  /-- Refuse the line. -/
  | reject
  deriving DecidableEq, Repr

namespace NamePolicy

instance : Inhabited NamePolicy := ⟨truncate⟩

/-- The policy a setting asks for, in any case of the ASCII letters; unknown settings truncate. -/
def ofSetting (s : String) : NamePolicy :=
  if s.toLower ∈ ["reject", "strict", "deny"] then reject else truncate

/-- The name of a policy. -/
def name : NamePolicy → String
  | truncate => "Truncate"
  | reject => "Reject"

end NamePolicy

/-- The words of a line by their role. -/
inductive Field
  | key
  | library
  | symbol
  deriving DecidableEq, Repr

/-- The name of a role. -/
def Field.name : Field → String
  | key => "Key"
  | library => "Library"
  | symbol => "Symbol"

/-- A role in words. -/
def Field.description : Field → String
  | key => "key"
  | library => "library name"
  | symbol => "symbol name"

/-- The longest word, in bytes. -/
def maxNameBytes : Nat := 255

/-- Why a line yields no assignment. -/
inductive SkipReason
  /-- There is nothing before the comment. -/
  | blank
  /-- The number of words is not three. -/
  | wordCount (count : Nat)
  /-- A word is over the limit and the policy refuses that. -/
  | tooLong (field : Field) (bytes : Nat)
  deriving DecidableEq, Repr

/-- The reason in words. -/
def SkipReason.message : SkipReason → String
  | blank => "blank or comment-only"
  | wordCount count => "expected 3 fields, found " ++ toString count
  | tooLong field bytes =>
    field.description ++ " is " ++ toString bytes ++ " bytes, maximum is " ++ toString maxNameBytes

/-! ### Assignments -/

/-- A symbol in a library. Empty names stand for names that are not configured. -/
structure Target where
  library : String := ""
  symbol : String := ""
  deriving DecidableEq, Repr, Inhabited

/-- Whether both names are configured. -/
def Target.isConfigured (t : Target) : Bool := t.library ≠ "" && t.symbol ≠ ""

/-- A key with the target that is to override it. -/
structure Assignment where
  key : String
  target : Target
  deriving DecidableEq, Repr

/-! ### Parsing -/

/-- The part of a line before its comment. -/
def stripComment (line : List Char) : List Char := line.takeWhile (· ≠ '#')

/-- A word as a name within the limit, if the policy allows it. -/
def NamePolicy.bounded (policy : NamePolicy) (field : Field) (word : List Char) :
    Except SkipReason String :=
  if Text.byteLength word ≤ maxNameBytes then .ok (String.ofList word)
  else
    match policy with
    | truncate => .ok (String.ofList (Text.takeBytes maxNameBytes word))
    | reject => .error (.tooLong field (Text.byteLength word))

/-- The assignment on a line. -/
def parseLine (policy : NamePolicy) (line : List Char) : Except SkipReason Assignment :=
  match Text.words (stripComment line) with
  | [] => .error .blank
  | [key, library, symbol] => do
    let key ← policy.bounded .key key
    let library ← policy.bounded .library library
    let symbol ← policy.bounded .symbol symbol
    return ⟨key, library, symbol⟩
  | ws => .error (.wordCount ws.length)

/-- Words within the limit are names under either policy. -/
theorem NamePolicy.bounded_of_le {policy : NamePolicy} {field : Field} {word : List Char}
    (h : Text.byteLength word ≤ maxNameBytes) :
    policy.bounded field word = .ok (String.ofList word) := by
  simp [NamePolicy.bounded, h]

end Interpose
