import Interpose.Event
import Interpose.Json.Printer
import Interpose.Log.Calendar

/-!
# Log records

A record is one line of a log. Four fields are always present: when it was written, its trace, its
level and the name of what happened. The others are written only when they are set, in a fixed
order. Details that are set to null are written as null.

`Record.ofEvent` is the record of an event, with its trace left empty for the journal to fill in.
-/

namespace Interpose

/-- How much a record matters. -/
inductive Level
  | trace
  | debug
  | info
  | warn
  | error
  deriving DecidableEq, Repr

namespace Level

/-- All levels, from the least to the greatest. -/
def all : List Level := [trace, debug, info, warn, error]

/-- The name of a level. -/
def name : Level → String
  | trace => "trace"
  | debug => "debug"
  | info => "info"
  | warn => "warn"
  | error => "error"

/-- The level of a name. -/
def ofName? (s : String) : Option Level := all.find? (·.name = s)

@[simp] theorem ofName?_name (l : Level) : ofName? l.name = some l := by cases l <;> decide

end Level

/-- How something ended. -/
inductive Outcome
  | pass
  | fail
  | skip
  deriving DecidableEq, Repr

namespace Outcome

/-- All outcomes. -/
def all : List Outcome := [pass, fail, skip]

/-- The name of an outcome. -/
def name : Outcome → String
  | pass => "pass"
  | fail => "fail"
  | skip => "skip"

/-- The outcome of a name. -/
def ofName? (s : String) : Option Outcome := all.find? (·.name = s)

@[simp] theorem ofName?_name (o : Outcome) : ofName? o.name = some o := by cases o <;> decide

end Outcome

/-- A line of a log. -/
structure Record where
  timestamp : String
  trace : String
  level : Level
  event : String
  key : Option String := none
  library : Option String := none
  file : Option String := none
  symbol : Option String := none
  reason : Option String := none
  line : Option UInt64 := none
  outcome : Option Outcome := none
  details : Option Json := none
  deriving Repr

namespace Record

/-- A member that is left out when it is not set. -/
def member? (key : String) (value : Option Json) : List (String × Json) :=
  value.toList.map (key, ·)

/-- A record as a JSON object. -/
def toJson (r : Record) : Json :=
  .object ([("timestamp", .string r.timestamp), ("trace_id", .string r.trace),
      ("level", .string r.level.name), ("event", .string r.event)] ++
    member? "key" (r.key.map .string) ++
    member? "library" (r.library.map .string) ++
    member? "module" (r.file.map .string) ++
    member? "symbol" (r.symbol.map .string) ++
    member? "reason" (r.reason.map .string) ++
    member? "line" (r.line.map fun n ↦ .number (.integer (.ofUInt64 n))) ++
    member? "outcome" (r.outcome.map fun o ↦ .string o.name) ++
    member? "details" r.details)

/-- The line of a record. -/
def text (r : Record) : String := r.toJson.compact

/-- A record of the required fields alone. -/
def bare (now : Instant) (trace : String) (level : Level) (event : String) : Record :=
  { timestamp := now.timestamp, trace, level, event }

/-- The record of an event, without a trace. -/
def ofEvent (now : Instant) (e : Event) : Record :=
  let base (level : Level) : Record := { bare now "" level e.name with key := some e.key }
  match e with
  | .configured _ target =>
    { base .info with library := some target.library, symbol := some target.symbol }
  | .unknownKey _ line =>
    { base .warn with line := some (UInt64.ofNat line), outcome := some .skip }
  | .bound _ file symbol =>
    { base .info with file := some file, symbol := some symbol, outcome := some .pass }
  | .bindFailed _ target reason =>
    { base (if reason.wasConfigured then .warn else .debug) with
      library := some target.library
      symbol := some target.symbol
      reason := some reason.name
      outcome := some .fail }

end Record

end Interpose
