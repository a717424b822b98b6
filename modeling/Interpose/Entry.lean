import Interpose.Loader
import Interpose.Table.Line

/-!
# Entries

An entry is one function that can be overridden: its key, the configured target, and what became of
the target. An entry holds the handle of its module and the function found there from the moment it
is bound until it is released.

The state, the handle and the function are separate cells, because they are not changed together: a
release takes the handle and the function away and leaves the state as it is. So a bound entry that
was released stays bound and has no function any more.

Configuring is refused once the state is terminal, and releasing yields the handle at most once
(`Entry.release_release`).
-/

namespace Interpose

/-- A function that can be overridden. -/
structure Entry (φ : Type) where
  key : String
  target : Target := {}
  state : State := .unresolved
  handle : Option Handle := none
  function : Option φ := none
  deriving Repr

namespace Entry

variable {φ : Type}

/-! ### Configuring -/

/-- The entry with a new target, unless its state is terminal, and whether the target was taken. -/
def configure (target : Target) (e : Entry φ) : Bool × Entry φ :=
  if e.state.isTerminal then (false, e) else (true, { e with target })

/-- The function of an entry that needs no resolution, which may be none. -/
def settled? (e : Entry φ) : Option (Option φ) :=
  if e.state.isTerminal then some e.function else none

/-- Whether the entry holds a handle. -/
def isBound (e : Entry φ) : Bool := e.handle.isSome

@[simp] theorem key_configure (target : Target) (e : Entry φ) :
    (e.configure target).2.key = e.key := by
  unfold configure
  split <;> rfl

@[simp] theorem state_configure (target : Target) (e : Entry φ) :
    (e.configure target).2.state = e.state := by
  unfold configure
  split <;> rfl

theorem configure_accepted_iff {target : Target} {e : Entry φ} :
    (e.configure target).1 = true ↔ e.state = .unresolved := by
  unfold configure
  cases h : e.state.isTerminal
  · simp [State.isTerminal_eq_false_iff.mp h]
  · simp only [if_true, Bool.false_eq_true, false_iff]
    intro hu
    simp [hu, State.isTerminal] at h

/-! ### Settling -/

/-- The entry with what it was bound to. -/
def bindTo (handle : Handle) (function : φ) (e : Entry φ) : Entry φ :=
  { e with state := .bound, handle := some handle, function := some function }

/-- The entry with the reason for which it could not be bound. -/
def fail (reason : BindError) (e : Entry φ) : Entry φ := { e with state := .failed reason }

/-! ### Releasing -/

/-- The handle that the entry holds, and the entry without handle and function. -/
def release (e : Entry φ) : Option Handle × Entry φ :=
  (e.handle, { e with handle := none, function := none })

@[simp] theorem state_release (e : Entry φ) : e.release.2.state = e.state := rfl

/-- A second release finds no handle and changes nothing. -/
@[simp] theorem release_release (e : Entry φ) : e.release.2.release = (none, e.release.2) := rfl

end Entry

end Interpose
