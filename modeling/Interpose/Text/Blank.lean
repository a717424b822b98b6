/-!
# Blank characters, words and lines

Three ways to cut a text up.

* `isBlank` is the Unicode property *White_Space*: twenty-five characters, as ranges. The control
  characters U+001C to U+001F and the zero-width characters U+180E, U+200B and U+FEFF do not have
  it.
* `words` are the maximal runs of characters that are not blank.
* `lines` are separated by the line feed alone. One carriage return directly before a line feed
  belongs to the separator; any other carriage return is an ordinary character. A text that ends
  with a line feed has no empty last line.
-/

namespace Interpose.Text

/-! ### Blank characters -/

/-- The property *White_Space*. -/
def isBlank (c : Char) : Bool :=
  let n := c.toNat
  (0x9 ≤ n && n ≤ 0xD) || n == 0x20 || n == 0x85 || n == 0xA0 || n == 0x1680 ||
    (0x2000 ≤ n && n ≤ 0x200A) || n == 0x2028 || n == 0x2029 || n == 0x202F || n == 0x205F ||
    n == 0x3000

/-- Every character that ends a line or a word in ASCII is blank. -/
theorem isBlank_of_isWhitespace {c : Char} (h : c.isWhitespace = true) : isBlank c = true := by
  simp only [Char.isWhitespace, Bool.or_eq_true, decide_eq_true_eq] at h
  rcases h with ((rfl | rfl) | rfl) | rfl <;> decide

/-- A text without the blanks at its two ends. -/
def trim (s : List Char) : List Char :=
  ((s.dropWhile isBlank).reverse.dropWhile isBlank).reverse

/-! ### Words -/

/-- A word put in front of a list of words, unless it is empty. -/
def consWord (w : List Char) (ws : List (List Char)) : List (List Char) :=
  if w.isEmpty then ws else w :: ws

/-- The characters before the first blank, and the words after them. -/
def splitWord : List Char → List Char × List (List Char)
  | [] => ([], [])
  | c :: s =>
    let (w, ws) := splitWord s
    if isBlank c then ([], consWord w ws) else (c :: w, ws)

/-- The maximal runs of characters that are not blank, in order. -/
def words (s : List Char) : List (List Char) :=
  consWord (splitWord s).1 (splitWord s).2

@[simp] theorem words_nil : words [] = [] := rfl

/-- Blanks in front of a text change none of its words. -/
theorem words_cons_of_isBlank {c : Char} (h : isBlank c = true) (s : List Char) :
    words (c :: s) = words s := by
  simp [words, splitWord, h, consWord]

/-! ### Lines -/

/-- The lines of a text, without their separators. -/
def lines : List Char → List (List Char)
  | [] => []
  | '\n' :: s => [] :: lines s
  | '\r' :: '\n' :: s => [] :: lines s
  | c :: s =>
    match lines s with
    | [] => [[c]]
    | l :: ls => (c :: l) :: ls

@[simp] theorem lines_nil : lines [] = [] := by rw [lines]

@[simp] theorem lines_lineFeed (s : List Char) : lines ('\n' :: s) = [] :: lines s := by
  rw [lines]

/-- The lines of a text with their numbers, counted from one. -/
def numberedLines (s : List Char) : List (Nat × List Char) :=
  (lines s).zipIdx 1 |>.map Prod.swap

end Interpose.Text
