import Interpose.Json.Basic
import Interpose.ModuleName
import Interpose.Table

/-!
# Linting tables

What can be said about a table without loading anything. Each of its lines is annotated: with the
file name of the module it asks for, or its absence if that name would be too long; with whether its
key is among the keys of the host, if a list of those is given; and with whether a later line for
the same key supersedes it. The skipped lines are listed with their reasons in words.
-/

namespace Interpose

/-- A line of a table with what is known about it. -/
structure Lint.Line where
  number : Nat
  assignment : Assignment
  file : Option String
  knownKey : Option Bool
  superseded : Bool
  deriving DecidableEq, Repr

/-- The annotated lines of a table, and its skipped lines. -/
structure Lint where
  lines : List Lint.Line
  skipped : List Table.Skip
  deriving DecidableEq, Repr

namespace Lint

/-! ### Annotating -/

/-- The number of the last of some lines for a key. -/
def lastNumber? (key : String) (lines : List Table.Line) : Option Nat :=
  (lines.reverse.find? (·.assignment.key = key)).map (·.number)

/-- The annotation of one of some lines. It is superseded unless its number is that of the last line
for its key. -/
def Line.of (keys : Option (List String)) (lines : List Table.Line) (line : Table.Line) : Line where
  number := line.number
  assignment := line.assignment
  file := (moduleFileName line.assignment.target.library).toOption
  knownKey := keys.map fun ks ↦ line.assignment.key ∈ ks
  superseded := lastNumber? line.assignment.key lines ≠ some line.number

/-- The annotations of lines in order. -/
def annotate (keys : Option (List String)) (lines : List Table.Line) : List Line :=
  lines.map (Line.of keys lines)

/-- The lint of a table, for a host with the given keys if they are given. -/
def ofTable (keys : Option (List String)) (t : Table) : Lint where
  lines := annotate keys t.lines
  skipped := t.skipped

/-- The lint of the table in a file. -/
def ofFile (keys : Option (List String)) (policy : NamePolicy) (file : TableFile) :
    Except ConfigError Lint :=
  (Table.load policy file).map (ofTable keys)

/-- Every line is annotated, in its place. -/
@[simp] theorem map_number_annotate (keys : Option (List String)) (ls : List Table.Line) :
    (annotate keys ls).map (fun l ↦ (l.number, l.assignment)) =
      ls.map fun l ↦ (l.number, l.assignment) := by
  simp [annotate, Line.of]

/-! ### Verdicts -/

/-- The keys of the lines whose key the host does not have. -/
def unknownKeys (l : Lint) : List String :=
  (l.lines.filter (·.knownKey = some false)).map (·.assignment.key)

/-- Whether every line asks for a possible module under a key that is not unknown, and none is
skipped. -/
def isClean (l : Lint) : Bool :=
  l.skipped.isEmpty && l.lines.all fun line ↦ line.file.isSome && line.knownKey ≠ some false

/-! ### Output -/

/-- An annotated line as a JSON object. -/
def Line.toJson (l : Line) : Json :=
  .object [("line", .ofNat l.number), ("key", .string l.assignment.key),
    ("library", .string l.assignment.target.library),
    ("symbol", .string l.assignment.target.symbol), ("module_file", .ofString? l.file),
    ("known_key", (l.knownKey.map Json.bool).getD .null), ("superseded", .bool l.superseded)]

/-- A skipped line as a JSON object. -/
def skipToJson (s : Table.Skip) : Json :=
  .object [("line", .ofNat s.number), ("reason", .string s.reason.message)]

/-- A lint as a JSON object. -/
def toJson (l : Lint) : Json :=
  .object [("lines", .array (l.lines.map Line.toJson)),
    ("skipped", .array (l.skipped.map skipToJson))]

end Lint

end Interpose
