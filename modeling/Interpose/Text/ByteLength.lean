/-!
# Byte lengths and byte budgets

Names are limited in bytes while text is a sequence of characters, so a limit can fall inside a
character. `byteLength` measures a text by its UTF-8 form and `takeBytes` is the longest prefix of
**whole** characters that fits a budget: a character that does not fit ends the prefix, and nothing
after it is looked at.

Both are structural recursions on the characters. No byte offset is computed anywhere, so there is
no boundary to step back to.
-/

namespace Interpose.Text

/-! ### Byte length -/

/-- The number of bytes that the UTF-8 form of a text occupies. -/
def byteLength : List Char → Nat
  | [] => 0
  | c :: s => c.utf8Size + byteLength s

@[simp] theorem byteLength_nil : byteLength [] = 0 := rfl

@[simp] theorem byteLength_cons (c : Char) (s : List Char) :
    byteLength (c :: s) = c.utf8Size + byteLength s := rfl

@[simp] theorem byteLength_append (s t : List Char) :
    byteLength (s ++ t) = byteLength s + byteLength t := by
  induction s with
  | nil => simp
  | cons c s ih => simp [ih, Nat.add_assoc]

/-! ### Byte budgets -/

/-- The longest prefix of whole characters that occupies at most `budget` bytes. -/
def takeBytes : Nat → List Char → List Char
  | _, [] => []
  | budget, c :: s =>
    if c.utf8Size ≤ budget then c :: takeBytes (budget - c.utf8Size) s else []

@[simp] theorem takeBytes_nil (budget : Nat) : takeBytes budget [] = [] := rfl

theorem takeBytes_prefix (budget : Nat) (s : List Char) : takeBytes budget s <+: s := by
  induction s generalizing budget with
  | nil => simp
  | cons c s ih =>
    rw [takeBytes]
    split
    · exact List.cons_prefix_cons.mpr ⟨rfl, ih _⟩
    · exact List.nil_prefix

theorem byteLength_takeBytes_le (budget : Nat) (s : List Char) :
    byteLength (takeBytes budget s) ≤ budget := by
  induction s generalizing budget with
  | nil => simp
  | cons c s ih =>
    rw [takeBytes]
    split
    · have := ih (budget - c.utf8Size)
      simp only [byteLength_cons]
      omega
    · simp

/-- A text within the budget is kept whole. -/
theorem takeBytes_of_le {budget : Nat} {s : List Char} (h : byteLength s ≤ budget) :
    takeBytes budget s = s := by
  induction s generalizing budget with
  | nil => rfl
  | cons c s ih =>
    simp only [byteLength_cons] at h
    rw [takeBytes, if_pos (by omega), ih (by omega)]

/-- A string cut down to a budget of bytes. -/
def truncate (s : String) (budget : Nat) : String :=
  String.ofList (takeBytes budget s.toList)

end Interpose.Text
