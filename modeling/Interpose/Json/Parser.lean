import Interpose.Json.Numeral

/-!
# Reading JSON text

A parser takes the text that is left and returns a value with the rest, **which is shorter**: that
is part of what it returns, and it is the reason why the loops over items and members end. Nesting
is limited, and the limit is what the recursion through containers counts down (`value`).

Errors are reported at the first byte that cannot continue the text. Three points decide between
neighbouring positions. A missing continuation is reported at the end of the text, with its own
cause. Four bytes are always taken for the digits of a `\u` escape before they are judged. A number
that is too large is reported behind its last digit.
-/

namespace Interpose.Json

/-- A value read from the front of a text, with a rest that is shorter than a bound. -/
structure Read (α : Type) (bound : Nat) where
  value : α
  rest : List Char
  rest_lt : rest.length < bound

namespace Read

variable {α β : Type} {m n : Nat}

/-- The same reading under a greater bound. -/
def widen (r : Read α m) (h : m ≤ n) : Read α n :=
  ⟨r.value, r.rest, Nat.lt_of_lt_of_le r.rest_lt h⟩

/-- A reading with its value changed. -/
def map (f : α → β) (r : Read α m) : Read β m := ⟨f r.value, r.rest, r.rest_lt⟩

end Read

/-- A parser reads a value, and at least one character, from the front of a text. -/
abbrev Parser (α : Type) : Type := (s : List Char) → Except Fault (Read α s.length)

namespace Parser

/-! ### Blanks and literals -/

/-- The characters between tokens. -/
def isSpace (c : Char) : Bool := c == ' ' || c == '\n' || c == '\t' || c == '\r'

/-- A text without the blanks in front. -/
def skipSpace (s : List Char) : List Char := s.dropWhile isSpace

theorem length_skipSpace_le (s : List Char) : (skipSpace s).length ≤ s.length :=
  (List.dropWhile_suffix isSpace).length_le

/-- What is left of a text behind the given letters. -/
def expectLetters (word s : List Char) : Except Fault (Read Unit (s.length + 1)) :=
  match word, s with
  | [], s => .ok ⟨(), s, Nat.lt_succ_self _⟩
  | _ :: _, [] => .error ⟨.endOfValue, 0⟩
  | w :: word, c :: s =>
    if c = w then
      match expectLetters word s with
      | .error f => .error f
      | .ok r => .ok (r.widen (by simp))
    else .error (Fault.on .expectedLiteral (c :: s))

/-! ### Strings -/

/-- The value of a hexadecimal digit of either case. -/
def hexDigit? (c : Char) : Option Nat :=
  if '0' ≤ c ∧ c ≤ '9' then some (c.toNat - '0'.toNat)
  else if 'a' ≤ c ∧ c ≤ 'f' then some (c.toNat - 'a'.toNat + 10)
  else if 'A' ≤ c ∧ c ≤ 'F' then some (c.toNat - 'A'.toNat + 10)
  else none

/-- The value of four hexadecimal digits. -/
def hexValue? (a b c d : Char) : Option Nat := do
  let a ← hexDigit? a
  let b ← hexDigit? b
  let c ← hexDigit? c
  let d ← hexDigit? d
  return ((a * 16 + b) * 16 + c) * 16 + d

/-- What is wrong with a text that does not begin with four hexadecimal digits. -/
def hexFault (s : List Char) : Fault :=
  if Text.byteLength s < 4 then ⟨.endOfString, 0⟩ else ⟨.invalidEscape, Text.byteLength s - 4⟩

/-- Four hexadecimal digits. -/
def hexEscape : Parser Nat
  | a :: b :: c :: d :: s =>
    match hexValue? a b c d with
    | some n => .ok ⟨n, s, by simp; omega⟩
    | none => .error (hexFault (a :: b :: c :: d :: s))
  | s => .error (hexFault s)

/-- Whether a 16-bit unit is the second of a pair. -/
def isTrailing (n : Nat) : Bool := 0xDC00 ≤ n && n ≤ 0xDFFF

/-- Whether a 16-bit unit is the first of a pair. -/
def isLeading (n : Nat) : Bool := 0xD800 ≤ n && n ≤ 0xDBFF

/-- The character that a pair of 16-bit units stands for. -/
def pairedChar (leading trailing : Nat) : Char :=
  Char.ofNat ((leading - 0xD800) * 0x400 + (trailing - 0xDC00) + 0x10000)

/-- The second half of a pair of `\u` escapes, from its backslash on. -/
def trailingEscape (leading : Nat) : Parser Char
  | [] => .error ⟨.endOfString, 0⟩
  | ['\\'] => .error ⟨.endOfString, 0⟩
  | '\\' :: 'u' :: s =>
    match hexEscape s with
    | .error f => .error f
    | .ok r =>
      if isTrailing r.value then
        .ok ((r.map (pairedChar leading)).widen (by simp; omega))
      else .error (Fault.before .loneSurrogate r.rest)
  | '\\' :: c :: s => .error (Fault.on .unpairedSurrogate (c :: s))
  | c :: s => .error (Fault.on .unpairedSurrogate (c :: s))

/-- A `\u` escape, from its digits on. -/
def unicodeEscape (s : List Char) : Except Fault (Read Char s.length) :=
  match hexEscape s with
  | .error f => .error f
  | .ok r =>
    if isTrailing r.value then .error (Fault.before .loneSurrogate r.rest)
    else if isLeading r.value then
      match trailingEscape r.value r.rest with
      | .error f => .error f
      | .ok t => .ok (t.widen (Nat.le_of_lt r.rest_lt))
    else .ok (r.map Char.ofNat)

/-- The character that a letter after a backslash stands for. -/
def letterEscape? (c : Char) : Option Char :=
  if c = '"' ∨ c = '\\' ∨ c = '/' then some c
  else if c = 'b' then some '\x08'
  else if c = 'f' then some '\x0c'
  else if c = 'n' then some '\n'
  else if c = 'r' then some '\r'
  else if c = 't' then some '\t'
  else none

/-- An escape, from the character after its backslash on. -/
def escape : Parser Char
  | [] => .error ⟨.endOfString, 0⟩
  | c :: s =>
    if c = 'u' then
      match unicodeEscape s with
      | .error f => .error f
      | .ok r => .ok (r.widen (by simp))
    else
      match letterEscape? c with
      | some d => .ok ⟨d, s, by simp⟩
      | none => .error (Fault.on .invalidEscape (c :: s))

/-- The characters of a string, from behind its opening quote to its closing one. -/
def stringBody (s : List Char) : Except Fault (Read (List Char) s.length) :=
  match s with
  | [] => .error ⟨.endOfString, 0⟩
  | c :: s =>
    if c = '"' then .ok ⟨[], s, by simp⟩
    else if c = '\\' then
      match escape s with
      | .error f => .error f
      | .ok r =>
        match stringBody r.rest with
        | .error f => .error f
        | .ok t => .ok ((t.map (r.value :: ·)).widen (by have := r.rest_lt; simp; omega))
    else if c < ' ' then .error (Fault.on .controlCharacter (c :: s))
    else
      match stringBody s with
      | .error f => .error f
      | .ok t => .ok ((t.map (c :: ·)).widen (by simp))
  termination_by s.length
  decreasing_by
    · have := r.rest_lt; simp; omega
    · simp

/-! ### Numbers -/

/-- One decimal digit or more. -/
def digits : Parser (List Char)
  | [] => .error ⟨.endOfValue, 0⟩
  | c :: s =>
    if c.isDigit then
      .ok ⟨c :: s.takeWhile Char.isDigit, s.dropWhile Char.isDigit,
        Nat.lt_succ_of_le (List.dropWhile_suffix _).length_le⟩
    else .error (Fault.on .invalidNumber (c :: s))

/-- The integral digits of a numeral: a zero stands alone. -/
def wholePart : Parser (List Char)
  | '0' :: c :: s =>
    if c.isDigit then .error (Fault.on .invalidNumber (c :: s)) else .ok ⟨['0'], c :: s, by simp⟩
  | s => digits s

/-- The places of a numeral, if it has any. -/
def placesPart (s : List Char) : Except Fault (Read (List Char) (s.length + 1)) :=
  match s with
  | '.' :: s =>
    match digits s with
    | .error f => .error f
    | .ok r => .ok (r.widen (by simp; omega))
  | s => .ok ⟨[], s, Nat.lt_succ_self _⟩

/-- The exponent of a numeral behind its letter. -/
def exponentBody : Parser Exponent
  | '-' :: s =>
    match digits s with
    | .error f => .error f
    | .ok r => .ok ((r.map (⟨true, ·⟩)).widen (by simp))
  | '+' :: s =>
    match digits s with
    | .error f => .error f
    | .ok r => .ok ((r.map (⟨false, ·⟩)).widen (by simp))
  | s =>
    match digits s with
    | .error f => .error f
    | .ok r => .ok (r.map (⟨false, ·⟩))

/-- The exponent of a numeral, if it has one. -/
def exponentPart (s : List Char) : Except Fault (Read (Option Exponent) (s.length + 1)) :=
  match s with
  | [] => .ok ⟨none, [], Nat.lt_succ_self _⟩
  | c :: s =>
    if c = 'e' ∨ c = 'E' then
      match exponentBody s with
      | .error f => .error f
      | .ok r => .ok ((r.map some).widen (by simp; omega))
    else .ok ⟨none, c :: s, Nat.lt_succ_self _⟩

/-- A numeral behind its sign. -/
def unsignedNumeral (negative : Bool) : Parser Numeral := fun s ↦
  match wholePart s with
  | .error f => .error f
  | .ok whole =>
    match placesPart whole.rest with
    | .error f => .error f
    | .ok places =>
      match exponentPart places.rest with
      | .error f => .error f
      | .ok exponent =>
        .ok ⟨⟨negative, whole.value, places.value, exponent.value⟩, exponent.rest, by
          have := whole.rest_lt
          have := places.rest_lt
          have := exponent.rest_lt
          omega⟩

/-- A numeral. -/
def numeral : Parser Numeral
  | '-' :: s =>
    match unsignedNumeral true s with
    | .error f => .error f
    | .ok r => .ok (r.widen (by simp))
  | s => unsignedNumeral false s

/-- A number. -/
def number : Parser Number := fun s ↦
  match numeral s with
  | .error f => .error f
  | .ok r =>
    match r.value.value r.rest with
    | .error f => .error f
    | .ok n => .ok ⟨n, r.rest, r.rest_lt⟩

/-! ### Containers -/

/-- The items of an array from the first one on, and the closing bracket. -/
def items (item : Parser Json) (s : List Char) : Except Fault (Read (List Json) s.length) :=
  match item s with
  | .error f => .error f
  | .ok r =>
    match h : skipSpace r.rest with
    | [] => .error ⟨.endOfArray, 0⟩
    | c :: t =>
      have ht : t.length < s.length := by
        have := length_skipSpace_le r.rest
        have := r.rest_lt
        simp only [h, List.length_cons] at *
        omega
      if c = ']' then .ok ⟨[r.value], t, ht⟩
      else if c = ',' then
        match skipSpace t with
        | [] => .error ⟨.endOfValue, 0⟩
        | d :: u =>
          if d = ']' then .error (Fault.on .trailingComma (d :: u))
          else
            match items item t with
            | .error f => .error f
            | .ok more => .ok ((more.map (r.value :: ·)).widen (Nat.le_of_lt ht))
      else .error (Fault.on .expectedCommaOrBracket (c :: t))
  termination_by s.length

/-- An array, from behind its opening bracket on. -/
def arrayBody (item : Parser Json) (s : List Char) : Except Fault (Read (List Json) s.length) :=
  match h : skipSpace s with
  | [] => .error ⟨.endOfArray, 0⟩
  | c :: t =>
    have hs : (c :: t).length ≤ s.length := h ▸ length_skipSpace_le s
    if c = ']' then .ok ⟨[], t, hs⟩
    else
      match items item (c :: t) with
      | .error f => .error f
      | .ok r => .ok (r.widen hs)

/-- A member of an object, from behind the opening quote of its key on. -/
def member (item : Parser Json) (s : List Char) : Except Fault (Read (String × Json) s.length) :=
  match stringBody s with
  | .error f => .error f
  | .ok key =>
    match h : skipSpace key.rest with
    | [] => .error ⟨.endOfObject, 0⟩
    | c :: t =>
      if c = ':' then
        match item t with
        | .error f => .error f
        | .ok r =>
          .ok ((r.map (String.ofList key.value, ·)).widen (by
            have := length_skipSpace_le key.rest
            have := key.rest_lt
            simp only [h, List.length_cons] at *
            omega))
      else .error (Fault.on .expectedColon (c :: t))

/-- The members of an object from behind the opening quote of the first key on, and the closing
brace. -/
def members (item : Parser Json) (s : List Char) :
    Except Fault (Read (List (String × Json)) s.length) :=
  match member item s with
  | .error f => .error f
  | .ok r =>
    match h : skipSpace r.rest with
    | [] => .error ⟨.endOfObject, 0⟩
    | c :: t =>
      have ht : t.length < s.length := by
        have := length_skipSpace_le r.rest
        have := r.rest_lt
        simp only [h, List.length_cons] at *
        omega
      if c = '\x7d' then .ok ⟨[r.value], t, ht⟩
      else if c = ',' then
        match hu : skipSpace t with
        | [] => .error ⟨.endOfValue, 0⟩
        | d :: u =>
          have hlt : u.length < s.length := by
            have := length_skipSpace_le t
            simp only [hu, List.length_cons] at *
            omega
          if d = '"' then
            match members item u with
            | .error f => .error f
            | .ok more => .ok ((more.map (r.value :: ·)).widen (Nat.le_of_lt hlt))
          else if d = '\x7d' then .error (Fault.on .trailingComma (d :: u))
          else .error (Fault.on .keyNotString (d :: u))
      else .error (Fault.on .expectedCommaOrBrace (c :: t))
  termination_by s.length

/-- An object, from behind its opening brace on. -/
def objectBody (item : Parser Json) (s : List Char) :
    Except Fault (Read (List (String × Json)) s.length) :=
  match h : skipSpace s with
  | [] => .error ⟨.endOfObject, 0⟩
  | c :: t =>
    have hs : (c :: t).length ≤ s.length := h ▸ length_skipSpace_le s
    if c = '\x7d' then .ok ⟨[], t, hs⟩
    else if c = '"' then
      match members item t with
      | .error f => .error f
      | .ok r => .ok (r.widen (Nat.le_of_lt hs))
    else .error (Fault.on .keyNotString (c :: t))

/-! ### Values -/

/-- A literal as a value, from its first letter on. -/
def literal (v : Json) (word : List Char) (c : Char) (s : List Char) :
    Except Fault (Read Json (c :: s).length) :=
  match expectLetters word s with
  | .error f => .error f
  | .ok r => .ok (r.map fun _ ↦ v)

/-- A value that is no container, from its first character on. -/
def scalar (c : Char) (s : List Char) : Except Fault (Read Json (c :: s).length) :=
  if c = 'n' then literal .null "ull".toList c s
  else if c = 't' then literal (.bool true) "rue".toList c s
  else if c = 'f' then literal (.bool false) "alse".toList c s
  else if c = '"' then
    match stringBody s with
    | .error f => .error f
    | .ok r => .ok ((r.map (Json.string ∘ String.ofList)).widen (by simp))
  else if c = '-' ∨ c.isDigit then
    match number (c :: s) with
    | .error f => .error f
    | .ok r => .ok (r.map Json.number)
  else .error (Fault.on .expectedValue (c :: s))

/-- A value with at most `depth` containers around its innermost parts. -/
def value (depth : Nat) : Parser Json := fun s ↦
  match h : skipSpace s with
  | [] => .error ⟨.endOfValue, 0⟩
  | c :: t =>
    have hs : (c :: t).length ≤ s.length := h ▸ length_skipSpace_le s
    if c = '[' then
      match depth with
      | 0 => .error (Fault.on .tooDeep (c :: t))
      | depth + 1 =>
        match arrayBody (value depth) t with
        | .error f => .error f
        | .ok r => .ok ((r.map Json.array).widen (Nat.le_of_lt hs))
    else if c = '\x7b' then
      match depth with
      | 0 => .error (Fault.on .tooDeep (c :: t))
      | depth + 1 =>
        match objectBody (value depth) t with
        | .error f => .error f
        | .ok r => .ok ((r.map Json.ofMembers).widen (Nat.le_of_lt hs))
    else
      match scalar c t with
      | .error f => .error f
      | .ok r => .ok (r.widen hs)

/-- How many containers a text may nest. -/
def maxDepth : Nat := 127

end Parser

/-- The value that a whole text stands for. -/
def parse (text : List Char) : Except ParseError Json :=
  let fail (f : Fault) : Except ParseError Json := .error ⟨f.cause, f.position text⟩
  match Parser.value Parser.maxDepth text with
  | .error f => fail f
  | .ok r =>
    match Parser.skipSpace r.rest with
    | [] => .ok r.value
    | rest => fail (Fault.on .trailingCharacters rest)

end Interpose.Json
