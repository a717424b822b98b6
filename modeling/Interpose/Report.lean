import Interpose.Json.Basic
import Interpose.Registry

/-!
# Reports

What a host tells about its entries. A **snapshot** is the visible part of one entry, with the
presence of a handle and of a function in place of the things themselves. A **report** is the
snapshots of a registry with the verdict whether any entry failed; entries that were never
configured fail, too, once they are resolved.

An **init report** says what the application of a table came to.
-/

namespace Interpose

/-! ### Snapshots -/

/-- The visible part of an entry. -/
structure Snapshot where
  key : String
  state : State
  target : Target
  holdsModule : Bool
  holdsFunction : Bool
  deriving DecidableEq, Repr

/-- A state as JSON: its name, or an object with the reason of a failure. -/
def State.toJson : State → Json
  | unresolved => .string "Unresolved"
  | bound => .string "ResolvedOk"
  | failed reason => .object [("ResolvedFailed", .string reason.name)]

namespace Snapshot

/-- The snapshot of an entry. -/
def ofEntry {φ : Type} (e : Entry φ) : Snapshot where
  key := e.key
  state := e.state
  target := e.target
  holdsModule := e.isBound
  holdsFunction := (e.settled?.bind id).isSome

/-- A snapshot as a JSON object. -/
def toJson (s : Snapshot) : Json :=
  .object [("key", .string s.key), ("state", s.state.toJson), ("status", .ofInt32 s.state.status),
    ("library_name", .string s.target.library), ("symbol_name", .string s.target.symbol),
    ("module_bound", .bool s.holdsModule), ("function_bound", .bool s.holdsFunction)]

/-- The word for the presence of something. -/
def presence (present : Bool) : String := if present then "set" else "null"

/-- A snapshot as a line of text. -/
def text (s : Snapshot) : String :=
  s.key ++ " state=" ++ toString s.state.status ++ " lib=" ++ s.target.library ++ " sym=" ++
    s.target.symbol ++ " handle=" ++ presence s.holdsModule ++ " func=" ++
    presence s.holdsFunction ++ "\n"

end Snapshot

/-! ### Reports -/

/-- The snapshots of a registry, and whether any entry failed. -/
structure Report where
  entries : List Snapshot
  anyFailed : Bool
  deriving DecidableEq, Repr

/-- The snapshots of a registry. -/
def Registry.snapshots {φ : Type} (r : Registry φ) : List Snapshot :=
  r.entries.map Snapshot.ofEntry

namespace Report

/-- The report on a registry as it is. -/
def ofRegistry {φ : Type} (r : Registry φ) : Report where
  entries := r.snapshots
  anyFailed := r.entries.any (·.state.failure?.isSome)

/-- The return code of a report: zero unless an entry failed. -/
def returnCode (r : Report) : Int32 := if r.anyFailed then -1 else 0

/-- A report as a JSON object. -/
def toJson (r : Report) : Json :=
  .object [("entries", .array (r.entries.map Snapshot.toJson)), ("any_failed", .bool r.anyFailed)]

/-- A report as text, a line for each entry. -/
def text (r : Report) : String := String.join (r.entries.map Snapshot.text)

end Report

/-! ### Init reports -/

/-- What the application of a table came to. -/
inductive InitReport
  /-- A table was applied: how many entries were configured, how many of its lines named unknown
  keys, and how many were skipped. -/
  | configured (entries unknownKeys skippedLines : Nat)
  /-- There was no table, or it could not be opened. -/
  | configMissing
  deriving DecidableEq, Repr

namespace InitReport

/-- The keys of the events in which a target was set. -/
def configuredKeys (events : List Event) : List String :=
  events.filterMap fun
    | .configured key _ => some key
    | _ => none

/-- How many events tell of an unknown key. -/
def unknownKeys (events : List Event) : Nat :=
  events.countP fun
    | .unknownKey .. => true
    | _ => false

/-- The report on a table, by the events of its application. A key that was configured several times
counts once. -/
def ofEvents (t : Table) (events : List Event) : InitReport :=
  .configured (configuredKeys events).eraseDups.length (unknownKeys events) t.skipped.length

/-- The number of entries configured. -/
def entries : InitReport → Nat
  | configured n _ _ => n
  | configMissing => 0

/-- An init report as a JSON object. -/
def toJson : InitReport → Json
  | configured entries unknownKeys skippedLines =>
    .object [("outcome", .string "configured"), ("configured", .ofNat entries),
      ("unknown_keys", .ofNat unknownKeys), ("skipped_lines", .ofNat skippedLines)]
  | configMissing => .object [("outcome", .string "config_missing")]

end InitReport

end Interpose
