import Interpose.Json.Basic
import Interpose.Text.ByteLength

/-!
# Errors in JSON text

A **fault** is what a parser finds wrong, together with how many bytes of the text were left unread
at that point. Counting from the end keeps the parsers free of positions: they only ever hold the
rest of the text. `Fault.position` turns the count into a line and a column once, when the whole
text is at hand.

A column counts bytes. Immediately after a line feed it is zero, so an error about the line feed
itself is at column zero of the next line.
-/

namespace Interpose.Json

/-- What is wrong with a text. -/
inductive Cause
  | endOfValue
  | endOfArray
  | endOfObject
  | endOfString
  | expectedValue
  | expectedLiteral
  | expectedColon
  | expectedCommaOrBracket
  | expectedCommaOrBrace
  | trailingComma
  | trailingCharacters
  | keyNotString
  | invalidNumber
  | numberOutOfRange
  | invalidEscape
  | loneSurrogate
  | unpairedSurrogate
  | controlCharacter
  | tooDeep
  deriving DecidableEq, Repr

/-- A cause in words. -/
def Cause.message : Cause → String
  | endOfValue => "EOF while parsing a value"
  | endOfArray => "EOF while parsing a list"
  | endOfObject => "EOF while parsing an object"
  | endOfString => "EOF while parsing a string"
  | expectedValue => "expected value"
  | expectedLiteral => "expected ident"
  | expectedColon => "expected `:`"
  | expectedCommaOrBracket => "expected `,` or `]`"
  | expectedCommaOrBrace => "expected `,` or `\x7d`"
  | trailingComma => "trailing comma"
  | trailingCharacters => "trailing characters"
  | keyNotString => "key must be a string"
  | invalidNumber => "invalid number"
  | numberOutOfRange => "number out of range"
  | invalidEscape => "invalid escape"
  | loneSurrogate => "lone leading surrogate in hex escape"
  | unpairedSurrogate => "unexpected end of hex escape"
  | controlCharacter => "control character (\\u0000-\\u001F) found while parsing a string"
  | tooDeep => "recursion limit exceeded"

/-- What is wrong, and the number of bytes left unread at that point. -/
structure Fault where
  cause : Cause
  unread : Nat
  deriving DecidableEq, Repr

namespace Fault

/-- A fault behind everything that has been read. -/
def before (cause : Cause) (rest : List Char) : Fault := ⟨cause, Text.byteLength rest⟩

/-- A fault about the first byte of the rest, which counts as read. -/
def on (cause : Cause) (rest : List Char) : Fault := ⟨cause, Text.byteLength rest - 1⟩

end Fault

/-! ### Positions -/

/-- A line, and a number of bytes on it. -/
structure Position where
  line : Nat
  column : Nat
  deriving DecidableEq, Repr

/-- The position after one more character. -/
def Position.next (p : Position) (c : Char) : Position :=
  if c = '\n' then ⟨p.line + 1, 0⟩ else ⟨p.line, p.column + c.utf8Size⟩

/-- The position after a number of bytes of a text; it may fall inside a character. -/
def Position.advance (p : Position) : Nat → List Char → Position
  | _, [] => p
  | n, c :: s =>
    if c.utf8Size ≤ n then (p.next c).advance (n - c.utf8Size) s
    else ⟨p.line, p.column + n⟩

/-- Where a fault in a text lies. -/
def Fault.position (f : Fault) (text : List Char) : Position :=
  Position.advance ⟨1, 0⟩ (Text.byteLength text - f.unread) text

/-- What is wrong with a text, and where. -/
structure ParseError where
  cause : Cause
  position : Position
  deriving DecidableEq, Repr

/-- The error in words. -/
def ParseError.message (e : ParseError) : String :=
  e.cause.message ++ " at line " ++ toString e.position.line ++ " column " ++
    toString e.position.column

end Interpose.Json
