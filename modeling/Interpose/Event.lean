import Interpose.Json.Basic
import Interpose.State
import Interpose.Table.Line

/-!
# Events

What can happen to an override, as told to whoever watches: its configuration is set, a line names
a key that nobody has, the override is bound, or binding it fails. The last two happen at most once
to an override. Unloading is not told.

`Stats` counts events by kind.
-/

namespace Interpose

/-- Something that happened to an override. -/
inductive Event
  /-- The target of a key was set. -/
  | configured (key : String) (target : Target)
  /-- A line of a table names an unknown key. -/
  | unknownKey (key : String) (line : Nat)
  /-- The override of a key was bound. -/
  | bound (key file symbol : String)
  /-- The override of a key could not be bound. -/
  | bindFailed (key : String) (target : Target) (reason : BindError)
  deriving DecidableEq, Repr

namespace Event

/-- The kind of an event. -/
def name : Event → String
  | configured .. => "configured"
  | unknownKey .. => "unknown_key"
  | bound .. => "bound"
  | bindFailed .. => "bind_failed"

/-- The names of all kinds of events. -/
def names : List String := ["configured", "unknown_key", "bound", "bind_failed"]

theorem name_mem_names (e : Event) : e.name ∈ names := by
  cases e <;> simp [name, names]

/-- The key that an event is about. -/
def key : Event → String
  | configured key _ => key
  | unknownKey key _ => key
  | bound key .. => key
  | bindFailed key .. => key

/-- An event as a JSON object. -/
def toJson (e : Event) : Json :=
  let fields :=
    match e with
    | configured _ target => [("library", target.library), ("symbol", target.symbol)]
    | unknownKey .. => []
    | bound _ file symbol => [("module", file), ("symbol", symbol)]
    | bindFailed _ target reason =>
      [("library", target.library), ("symbol", target.symbol), ("reason", reason.name)]
  let line :=
    match e with
    | unknownKey _ line => [("line", Json.ofNat line)]
    | _ => []
  .object ([("event", .string e.name), ("key", .string e.key)] ++
    fields.map (fun f ↦ (f.1, .string f.2)) ++ line)

end Event

/-- How many events of each kind there were. -/
structure Stats where
  configured : Nat := 0
  unknownKeys : Nat := 0
  bound : Nat := 0
  failed : Nat := 0
  deriving DecidableEq, Repr, Inhabited

namespace Stats

/-- The counts after one more event. -/
def count (s : Stats) : Event → Stats
  | .configured .. => { s with configured := s.configured + 1 }
  | .unknownKey .. => { s with unknownKeys := s.unknownKeys + 1 }
  | .bound .. => { s with bound := s.bound + 1 }
  | .bindFailed .. => { s with failed := s.failed + 1 }

/-- The number of all events. -/
def total (s : Stats) : Nat := s.configured + s.unknownKeys + s.bound + s.failed

@[simp] theorem total_count (s : Stats) (e : Event) : (s.count e).total = s.total + 1 := by
  cases e <;> simp only [count, total] <;> omega

/-- The counts as a JSON object. -/
def toJson (s : Stats) : Json :=
  .object [("configured", .ofNat s.configured), ("unknown_keys", .ofNat s.unknownKeys),
    ("bound", .ofNat s.bound), ("failed", .ofNat s.failed)]

end Stats

end Interpose
