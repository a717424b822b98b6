import Interpose.FileError
import Interpose.Table.Line
import Interpose.Text.Utf8

/-!
# Override tables

A table is the list of assignments in a text, each with its line number, together with the lines
that were skipped and why. Blank lines and comments are in neither list.

A key may be assigned several times. All its lines are kept, in order; `Table.lookup?` answers with
the last.

Tables are read from bytes without ever failing on them: ill-formed UTF-8 is replaced, so only a
file that cannot be opened at all is an error.
-/

namespace Interpose

/-- A file that was asked for, with the outcome of reading it. -/
structure TableFile where
  path : String
  content : Except FileError (List UInt8)

/-- A line that yields an assignment. -/
structure Table.Line where
  number : Nat
  assignment : Assignment
  deriving DecidableEq, Repr

/-- A line that was skipped. -/
structure Table.Skip where
  number : Nat
  reason : SkipReason
  deriving DecidableEq, Repr

/-- The assignments of a text in order, and its skipped lines. -/
structure Table where
  lines : List Table.Line := []
  skipped : List Table.Skip := []
  deriving DecidableEq, Repr, Inhabited

namespace Table

/-! ### Parsing -/

/-- What a numbered line contributes to the assignments. -/
def Line.of? (policy : NamePolicy) (l : Nat × List Char) : Option Line :=
  match parseLine policy l.2 with
  | .ok assignment => some ⟨l.1, assignment⟩
  | .error _ => none

/-- What a numbered line contributes to the skipped lines. -/
def Skip.of? (policy : NamePolicy) (l : Nat × List Char) : Option Skip :=
  match parseLine policy l.2 with
  | .ok _ | .error .blank => none
  | .error reason => some ⟨l.1, reason⟩

/-- The table in a text. -/
def parse (policy : NamePolicy) (text : List Char) : Table where
  lines := (Text.numberedLines text).filterMap (Line.of? policy)
  skipped := (Text.numberedLines text).filterMap (Skip.of? policy)

/-- The table in a file's bytes. -/
def ofBytes (policy : NamePolicy) (bytes : List UInt8) : Table :=
  parse policy (Text.Utf8.decodeLossy bytes)

/-- The table in a file. -/
def load (policy : NamePolicy) (file : TableFile) : Except ConfigError Table :=
  match file.content with
  | .ok bytes => .ok (ofBytes policy bytes)
  | .error cause => .error ⟨file.path, cause⟩

/-! ### Looking keys up -/

/-- The last assignment to a key. -/
def lookup? (t : Table) (key : String) : Option Assignment :=
  (t.lines.reverse.map (·.assignment)).find? (·.key = key)

/-- Whether the table assigns nothing. -/
def isEmpty (t : Table) : Bool := t.lines.isEmpty

theorem lookup?_key {t : Table} {key : String} {a : Assignment} (h : t.lookup? key = some a) :
    a.key = key := by
  simpa using List.find?_some h

end Table

end Interpose
