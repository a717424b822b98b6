import Interpose.Text.Printable

/-!
# Quoted text

Diagnostics show a piece of text between double quotes so that it can be told apart from the words
around it. Inside the quotes a backslash announces an escape: a letter for the common controls, a
brace-enclosed hexadecimal code point for every other character that has no printed form of its
own, and the character itself where it would otherwise end the quotation or start an escape.
-/

namespace Interpose.Text

/-- Lower-case hexadecimal digits of a number, without leading zeros. -/
def hexDigits (n : Nat) : List Char := Nat.toDigits 16 n

/-- A code point in braces: U+200B is written `\u{200b}`. -/
def codePointEscape (c : Char) : List Char :=
  ['\\', 'u', '\x7b'] ++ hexDigits c.toNat ++ ['\x7d']

/-- The form of one character inside quotes. -/
def escapeChar (c : Char) : List Char :=
  if c = '\x00' then ['\\', '0']
  else if c = '\t' then ['\\', 't']
  else if c = '\r' then ['\\', 'r']
  else if c = '\n' then ['\\', 'n']
  else if c = '"' ∨ c = '\\' then ['\\', c]
  else if isPrintable c then [c]
  else codePointEscape c

/-- A string between double quotes. -/
def quoted (s : String) : String :=
  String.ofList ('"' :: s.toList.flatMap escapeChar ++ ['"'])

end Interpose.Text
