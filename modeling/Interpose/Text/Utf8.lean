/-!
# Reading bytes as text

A byte string is read one byte at a time. Between characters the next byte is a **lead**: a
character of its own, the start of a longer character, or no start at all. Inside a character it
has to be a continuation byte within the bounds that the lead set; otherwise the bytes read so far
are a **truncated** character and the offending byte is read afresh as a lead.

`scan` lists what was read: `some c` for a character, `none` for a maximal ill-formed stretch. The
two decoders differ only in what they make of `none`. `decodeLossy` puts the replacement character
U+FFFD there, so it always succeeds; `decode?` fails.

A line feed is never a continuation byte, so whatever precedes one is settled when it is read.
-/

namespace Interpose.Text.Utf8

/-! ### Leads and continuations -/

/-- A character that has begun: the value of the bits read so far, how many bytes are to follow the
next one, and the bounds of the next one, which is never an ASCII byte. -/
structure Pending where
  value : Nat
  after : Nat
  low : UInt8
  high : UInt8
  low_ge : 0x80 ≤ low := by decide
  deriving DecidableEq, Repr

/-- What a byte between characters means. -/
inductive Lead
  | whole (c : Char)
  | begins (p : Pending)
  | illFormed
  deriving DecidableEq, Repr

/-- The meaning of a byte between characters. Leads that could only begin a form longer than
needed, a surrogate or a value beyond U+10FFFF narrow the bounds of their first continuation, or
begin nothing. -/
def lead (b : UInt8) : Lead :=
  let n := b.toNat
  if n < 0x80 then .whole (Char.ofNat n)
  else if n < 0xC2 then .illFormed
  else if n < 0xE0 then .begins { value := n - 0xC0, after := 0, low := 0x80, high := 0xBF }
  else if n == 0xE0 then .begins { value := 0, after := 1, low := 0xA0, high := 0xBF }
  else if n == 0xED then .begins { value := 0xD, after := 1, low := 0x80, high := 0x9F }
  else if n < 0xF0 then .begins { value := n - 0xE0, after := 1, low := 0x80, high := 0xBF }
  else if n == 0xF0 then .begins { value := 0, after := 2, low := 0x90, high := 0xBF }
  else if n < 0xF4 then .begins { value := n - 0xF0, after := 2, low := 0x80, high := 0xBF }
  else if n == 0xF4 then .begins { value := 4, after := 2, low := 0x80, high := 0x8F }
  else .illFormed

/-- Whether a byte continues a pending character. -/
def Pending.accepts (p : Pending) (b : UInt8) : Bool := p.low ≤ b && b ≤ p.high

/-- The value of a pending character after one more continuation byte. -/
def Pending.extended (p : Pending) (b : UInt8) : Nat := p.value * 64 + (b.toNat - 0x80)

/-! ### Scanning -/

/-- The characters of a byte string, with `none` for each maximal ill-formed stretch. -/
def scan : Option Pending → List UInt8 → List (Option Char)
  | none, [] => []
  | some _, [] => [none]
  | none, b :: bs =>
    match lead b with
    | .whole c => some c :: scan none bs
    | .begins p => scan (some p) bs
    | .illFormed => none :: scan none bs
  | some p, b :: bs =>
    if p.accepts b then
      match p.after with
      | 0 => some (Char.ofNat (p.extended b)) :: scan none bs
      | n + 1 => scan (some { value := p.extended b, after := n, low := 0x80, high := 0xBF }) bs
    else
      match lead b with
      | .whole c => none :: some c :: scan none bs
      | .begins q => none :: scan (some q) bs
      | .illFormed => none :: none :: scan none bs

/-- A line feed continues no character. -/
theorem Pending.accepts_lineFeed (p : Pending) : p.accepts 0x0A = false := by
  have h := UInt8.le_iff_toNat_le.mp p.low_ge
  have h80 : (0x80 : UInt8).toNat = 128 := rfl
  have h0A : (0x0A : UInt8).toNat = 10 := rfl
  simp only [Pending.accepts, Bool.and_eq_false_iff, decide_eq_false_iff_not,
    UInt8.le_iff_toNat_le]
  omega

/-- A line feed settles whatever precedes it: a pending character is truncated there, and what
follows is read from between characters. -/
theorem scan_lineFeed (p : Option Pending) (bs : List UInt8) :
    scan p (0x0A :: bs) = (p.map fun _ ↦ none).toList ++ some '\n' :: scan none bs := by
  have hl : lead 0x0A = .whole '\n' := by decide
  cases p with
  | none => simp [scan, hl]
  | some p => simp [scan, hl, p.accepts_lineFeed]

/-! ### Decoding -/

/-- Bytes read as text, each maximal ill-formed stretch as one replacement character. -/
def decodeLossy (bs : List UInt8) : List Char :=
  (scan none bs).map (·.getD '\uFFFD')

/-- Bytes read as text, or `none` when they are ill-formed anywhere. -/
def decode? (bs : List UInt8) : Option (List Char) :=
  (scan none bs).mapM id

end Interpose.Text.Utf8
