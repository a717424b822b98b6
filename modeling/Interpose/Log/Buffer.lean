/-!
# Buffered text

Text on its way to a file is held back until there is enough of it. What is held goes to the file
when the next piece no longer fits behind it, and a piece as long as the whole buffer is not held.

Nothing is lost and no piece overtakes another: `text_write` says that the file followed by what is
held back is everything that was written, in order. It rests on the held text being empty whenever a
piece goes past it. `size_held_write` bounds what is held.
-/

namespace Interpose

/-- Text on its way to a file. -/
structure Buffer where
  /-- What has reached the file. -/
  written : String := ""
  /-- What is held back. -/
  held : String := ""
  deriving DecidableEq, Repr, Inhabited

namespace Buffer

/-- The most that is held back, in bytes. -/
def capacity : Nat := 8192

/-- Everything, whether it has reached the file or not. -/
def text (b : Buffer) : String := b.written ++ b.held

/-- The buffer with nothing held back. -/
def flush (b : Buffer) : Buffer := { written := b.text }

/-- The buffer with room for a piece, unless the piece is too long to be held. -/
def makeRoom (b : Buffer) (piece : String) : Buffer :=
  if b.held.utf8ByteSize + piece.utf8ByteSize ≤ capacity then b else b.flush

/-- The buffer after a piece was written. -/
def write (b : Buffer) (piece : String) : Buffer :=
  let room := b.makeRoom piece
  if piece.utf8ByteSize < capacity then { room with held := room.held ++ piece }
  else { room with written := room.written ++ piece }

/-- The buffer after a line was written. The end of the line is a piece of its own. -/
def writeLine (b : Buffer) (line : String) : Buffer := (b.write line).write "\n"

@[simp] theorem text_makeRoom (b : Buffer) (piece : String) : (b.makeRoom piece).text = b.text := by
  unfold makeRoom
  split <;> simp [flush, text]

/-- Nothing is held when a piece goes past what is held. -/
theorem held_makeRoom {b : Buffer} {piece : String} (h : capacity ≤ piece.utf8ByteSize) :
    (b.makeRoom piece).held = "" := by
  unfold makeRoom
  split
  · exact String.utf8ByteSize_eq_zero_iff.1 (by omega)
  · rfl

/-- A piece that can be held fits behind what is held. -/
theorem size_held_makeRoom (b : Buffer) {piece : String} (h : piece.utf8ByteSize < capacity) :
    (b.makeRoom piece).held.utf8ByteSize + piece.utf8ByteSize ≤ capacity := by
  unfold makeRoom
  split
  · assumption
  · simpa [flush] using Nat.le_of_lt h

/-- A piece goes behind everything that was written before it. -/
@[simp] theorem text_write (b : Buffer) (piece : String) :
    (b.write piece).text = b.text ++ piece := by
  rw [← text_makeRoom b piece]
  unfold write
  split
  · simp [text, String.append_assoc]
  · next h => simp [text, held_makeRoom (Nat.not_lt.1 h)]

/-- No more is ever held back than the buffer has room for. -/
theorem size_held_write (b : Buffer) (piece : String) :
    (b.write piece).held.utf8ByteSize ≤ capacity := by
  unfold write
  split
  · next h => simpa using size_held_makeRoom b h
  · next h => simp [held_makeRoom (Nat.not_lt.1 h)]

end Buffer

end Interpose
