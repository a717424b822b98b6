import Interpose.Json.Number

/-!
# Writing JSON text

Two layouts of the same tokens. `render` puts everything on one line without blanks: control
characters inside strings are escaped, so the text of a value never contains a line feed.
`renderPretty` puts every item and every member on a line of its own, indented by two blanks for
each container around it; an empty container is written without a line break.

Members are written in the order of the list that holds them.
-/

namespace Interpose.Json

/-! ### Strings -/

/-- A hexadecimal digit. -/
def hexDigit (n : Nat) : Char := Nat.digitChar n

/-- The form of a character inside a string. -/
def escapeChar (c : Char) : List Char :=
  if c = '"' then ['\\', '"']
  else if c = '\\' then ['\\', '\\']
  else if c = '\x08' then ['\\', 'b']
  else if c = '\x0c' then ['\\', 'f']
  else if c = '\n' then ['\\', 'n']
  else if c = '\r' then ['\\', 'r']
  else if c = '\t' then ['\\', 't']
  else if c < ' ' then ['\\', 'u', '0', '0', hexDigit (c.toNat / 16), hexDigit (c.toNat % 16)]
  else [c]

/-- A string between its quotes. -/
def renderString (s : String) : List Char :=
  '"' :: s.toList.flatMap escapeChar ++ ['"']

/-! ### One line -/

mutual

/-- A value on one line. -/
def render : Json → List Char
  | null => "null".toList
  | bool true => "true".toList
  | bool false => "false".toList
  | number n => n.text
  | string s => renderString s
  | array xs => '[' :: renderItems xs ++ [']']
  | object ms => '\x7b' :: renderMembers ms ++ ['\x7d']

/-- Items with commas between them. -/
def renderItems : List Json → List Char
  | [] => []
  | [v] => render v
  | v :: vs => render v ++ ',' :: renderItems vs

/-- Members with commas between them. -/
def renderMembers : List (String × Json) → List Char
  | [] => []
  | [(k, v)] => renderString k ++ ':' :: render v
  | (k, v) :: ms => renderString k ++ ':' :: (render v ++ ',' :: renderMembers ms)

end

/-- A value on one line, as a string. -/
def compact (v : Json) : String := String.ofList v.render

/-! ### Indented -/

/-- A new line indented to a level. -/
def newline (level : Nat) : List Char := '\n' :: List.replicate (2 * level) ' '

mutual

/-- A value whose lines but the first are indented from a level on. -/
def renderPretty (level : Nat) : Json → List Char
  | array [] => ['[', ']']
  | array (v :: vs) =>
    '[' :: renderPrettyItems (level + 1) (v :: vs) ++ newline level ++ [']']
  | object [] => ['\x7b', '\x7d']
  | object (m :: ms) =>
    '\x7b' :: renderPrettyMembers (level + 1) (m :: ms) ++ newline level ++ ['\x7d']
  | v => render v

/-- Items on lines of their own. -/
def renderPrettyItems (level : Nat) : List Json → List Char
  | [] => []
  | [v] => newline level ++ renderPretty level v
  | v :: vs => newline level ++ renderPretty level v ++ ',' :: renderPrettyItems level vs

/-- Members on lines of their own. -/
def renderPrettyMembers (level : Nat) : List (String × Json) → List Char
  | [] => []
  | [(k, v)] => newline level ++ renderString k ++ ':' :: ' ' :: renderPretty level v
  | (k, v) :: ms =>
    newline level ++ renderString k ++ ':' :: ' ' :: renderPretty level v ++
      ',' :: renderPrettyMembers level ms

end

/-- A value with its parts on lines of their own, as a string. -/
def pretty (v : Json) : String := String.ofList (v.renderPretty 0)

end Interpose.Json
