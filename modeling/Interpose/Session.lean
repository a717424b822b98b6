import Interpose.Log.Journal
import Interpose.Operation

/-!
# Sessions

A session is a host with an observer that can be attached to it or not. The observer counts the
events of each operation and records them in a journal, at the time that the clock shows when the
operation is performed. The journal is there without the observer, too, for records that are no
events.

The observer is given the events after the host has done its work, and gives nothing back.
-/

namespace Interpose

variable {σ φ : Type}

/-- A host with its observer. -/
structure Session (σ φ : Type) where
  host : Host σ φ
  observed : Bool := true
  stats : Stats := {}
  journal : Journal
  clock : Instant := ⟨0⟩

namespace Session

/-! ### Observing -/

/-- The session after an event was observed. -/
def observe (s : Session σ φ) (e : Event) : Session σ φ :=
  { s with stats := s.stats.count e, journal := s.journal.notify s.clock e }

/-- The events that the observer is given, if it is attached. -/
def visible (s : Session σ φ) (events : List Event) : List Event :=
  if s.observed then events else []

/-- The answer to an operation, the session after it, and the events that were observed. -/
def perform [Loader σ φ] (s : Session σ φ) (op : Operation) :
    Answer φ × Session σ φ × List Event :=
  let step := s.host.perform op
  let events := s.visible step.events
  (step.result, events.foldl observe { s with host := step.host }, events)

/-- The session after operations in order, with the answers. -/
def run [Loader σ φ] (s : Session σ φ) : List Operation → List (Answer φ) × Session σ φ
  | [] => ([], s)
  | op :: ops =>
    let (answer, next, _) := s.perform op
    let (answers, last) := next.run ops
    (answer :: answers, last)

@[simp] theorem host_observe (s : Session σ φ) (e : Event) : (s.observe e).host = s.host := rfl

/-- Observation leaves the host alone. -/
@[simp] theorem host_foldl_observe (s : Session σ φ) (events : List Event) :
    (events.foldl observe s).host = s.host := by
  induction events generalizing s with
  | nil => rfl
  | cons e es ih => rw [List.foldl_cons, ih, host_observe]

/-! ### Beside the host -/

/-- The session after a record that is no event, and whether it was written. -/
def record (s : Session σ φ) (r : Record) : Except FileError Unit × Session σ φ :=
  let (written, journal) := s.journal.emit r
  (written, { s with journal })

/-- The result of using the loader directly, and the session after that. -/
def withLoader {α : Type} (s : Session σ φ) (use : σ → α × σ) : α × Session σ φ :=
  let (result, loader) := use s.host.loader
  (result, { s with host := { s.host with loader } })

/-! ### Diagnostics -/

/-- How something that may be observed shows itself in diagnostics. -/
def observedDetails (name field value : String) (observed : Bool) : String :=
  name ++ " \x7b " ++ field ++ ": " ++ value ++ ", observed: " ++ toString observed ++ " \x7d"

/-- How the configuring side of a session shows itself. -/
def managerDetails (s : Session σ φ) : String :=
  observedDetails "LifecycleManager" "policy" s.host.policy.name s.observed

/-- How the resolving side of a session shows itself, given how its loader does. -/
def cacheDetails (s : Session σ φ) (loader : String) : String :=
  observedDetails "ResolutionCache" "binder" loader s.observed

end Session

end Interpose
