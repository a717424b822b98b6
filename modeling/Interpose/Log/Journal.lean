import Interpose.FileError
import Interpose.Log.Buffer
import Interpose.Log.Record

/-!
# Journals

A journal writes records to a **sink**, which takes a record as a whole line or refuses it. A record
without a trace is given the next one, `component::run::number`, with the number in at least three
digits. The number is drawn before the record is offered to the sink and is not drawn again, so a
refused record leaves a gap and no trace is given twice. A record that comes with a trace keeps it
and draws nothing.

Events are recorded without an answer (`Journal.notify`): a refusal is counted and otherwise
ignored.
-/

namespace Interpose

/-! ### Sinks -/

/-- A destination of lines. Whether it takes the next one may depend on how many it was offered
and how many it took. -/
structure Sink where
  admits : (offered taken : Nat) → Bool
  offered : Nat := 0
  lines : Array String := #[]

namespace Sink

/-- A sink that takes every line. -/
def unlimited : Sink := { admits := fun _ _ ↦ true }

/-- A sink that takes a number of lines and refuses all others. -/
def limited (n : Nat) : Sink := { admits := fun _ taken ↦ taken < n }

instance : Inhabited Sink := ⟨unlimited⟩

/-- A sink after a line was offered, and whether the line was taken. -/
def offer (s : Sink) (line : String) : Bool × Sink :=
  if s.admits s.offered s.lines.size then
    (true, { s with offered := s.offered + 1, lines := s.lines.push line })
  else (false, { s with offered := s.offered + 1 })

/-- The text of all lines that were taken. -/
def text (s : Sink) : String := s.lines.foldl (fun t l ↦ t ++ l ++ "\n") ""

/-- What of that text a file holds as long as the sink has not been emptied into it. -/
def reached (s : Sink) : String := (s.lines.foldl Buffer.writeLine {}).written

/-- A sink only ever adds to its lines. -/
theorem lines_offer (s : Sink) (line : String) :
    (s.offer line).2.lines = if (s.offer line).1 then s.lines.push line else s.lines := by
  unfold offer
  split <;> simp

end Sink

/-! ### Journals -/

/-- Records of one run of one component, on their way to a sink. -/
structure Journal where
  component : String
  run : String
  drawn : Nat := 0
  sink : Sink := .unlimited
  refused : Nat := 0
  deriving Inhabited

namespace Journal

/-- The trace with a number. -/
def traceOf (j : Journal) (number : Nat) : String :=
  j.component ++ "::" ++ j.run ++ "::" ++ padded 3 number

/-- The next trace, and the journal without it. -/
def draw (j : Journal) : String × Journal :=
  (j.traceOf (j.drawn + 1), { j with drawn := j.drawn + 1 })

/-- A record with its trace, and the journal from which the trace was drawn if it had none. -/
def stamp (j : Journal) (r : Record) : Record × Journal :=
  if r.trace = "" then ({ r with trace := j.draw.1 }, j.draw.2) else (r, j)

/-- The journal after a stamped record was offered to its sink. -/
def write (j : Journal) (r : Record) : Except FileError Unit × Journal :=
  let (taken, sink) := j.sink.offer r.text
  (if taken then .ok () else .error .full, { j with sink })

/-- The journal after a record, and whether it was written. -/
def emit (j : Journal) (r : Record) : Except FileError Unit × Journal :=
  let (stamped, next) := j.stamp r
  next.write stamped

/-- The journal after a record of the required fields, which is returned if it was written. -/
def emitBare (j : Journal) (now : Instant) (level : Level) (event : String) :
    Except FileError Record × Journal :=
  let (trace, next) := j.draw
  let r := Record.bare now trace level event
  let (written, last) := next.write r
  (written.map fun _ ↦ r, last)

/-- The journal after an event, a refusal being counted. -/
def notify (j : Journal) (now : Instant) (e : Event) : Journal :=
  match j.emit (.ofEvent now e) with
  | (.ok _, next) => next
  | (.error _, next) => { next with refused := next.refused + 1 }

/-- How a journal shows itself in diagnostics. -/
def details (j : Journal) : String :=
  "LogEmitter \x7b seq: " ++ toString j.drawn ++ ", component: " ++
    Text.quoted j.component ++ ", run_id: " ++ Text.quoted j.run ++ ", .. \x7d"

end Journal

end Interpose
