import Interpose.Report

/-!
# Hosts

A host owns a registry, a loader, the policy for long names, and its place in the life of the
process. It configures its entries from a table when it is loaded, resolves each of them when it is
first asked for, and closes their modules when it is unloaded.

An operation returns a `Step`: its result, the host after it, and the events it gave rise to. Who
watches the events is no concern of the host, so watching cannot influence it.

The two hooks take effect once each, in order: `HookPhase` only ever moves from idle to loaded and
from there to unloaded, and a hook that does not move it does nothing.
-/

namespace Interpose

variable {σ φ : Type}

/-! ### Phases -/

/-- How far the life of a host has come. -/
inductive HookPhase
  | idle
  | loaded
  | unloaded
  deriving DecidableEq, Repr

namespace HookPhase

instance : Inhabited HookPhase := ⟨idle⟩

/-- The number of a phase. -/
def number : HookPhase → Nat
  | idle => 0
  | loaded => 1
  | unloaded => 2

/-- Whether the load hook may take effect, and the phase after it. -/
def enterLoaded : HookPhase → Bool × HookPhase
  | idle => (true, loaded)
  | phase => (false, phase)

/-- Whether the unload hook may take effect, and the phase after it. -/
def enterUnloaded : HookPhase → Bool × HookPhase
  | loaded => (true, unloaded)
  | phase => (false, phase)

theorem enterLoaded_accepted_iff {p : HookPhase} : p.enterLoaded.1 = true ↔ p = idle := by
  cases p <;> decide

theorem enterUnloaded_accepted_iff {p : HookPhase} : p.enterUnloaded.1 = true ↔ p = loaded := by
  cases p <;> decide

/-- A phase never goes back. -/
theorem number_le_enter (p : HookPhase) :
    p.number ≤ p.enterLoaded.2.number ∧ p.number ≤ p.enterUnloaded.2.number := by
  cases p <;> decide

/-- How a phase shows itself in diagnostics. -/
def details (p : HookPhase) : String := "HookPhase(" ++ toString p.number ++ ")"

end HookPhase

/-! ### Hosts and steps -/

/-- A registry with what it is configured, resolved and torn down by. -/
structure Host (σ φ : Type) where
  registry : Registry φ
  loader : σ
  policy : NamePolicy := .truncate
  phase : HookPhase := .idle

/-- The result of an operation, the host after it, and what happened. -/
structure Step (σ φ α : Type) where
  result : α
  host : Host σ φ
  events : List Event := []

/-- The step with its result changed. -/
def Step.map {α β : Type} (f : α → β) (s : Step σ φ α) : Step σ φ β :=
  { s with result := f s.result }

/-- What the load hook came to: whether it asked for the table, and the report, if there is one. -/
structure LoadOutcome where
  asked : Bool
  report : Option InitReport
  deriving DecidableEq, Repr

namespace Host

/-! ### Configuring -/

/-- Sets the target of the entry at an index. -/
def configure (i : Nat) (target : Target) (h : Host σ φ) : Step σ φ Bool :=
  match h.registry.entries[i]? with
  | none => { result := false, host := h }
  | some e =>
    let (taken, e) := e.configure target
    { result := taken, host := { h with registry := ⟨h.registry.entries.set i e⟩ } }

/-- Applies the lines of a table in order. -/
def applyTable (t : Table) (h : Host σ φ) : Step σ φ InitReport :=
  let (registry, events) := h.registry.applyLines t.lines
  { result := .ofEvents t events, host := { h with registry }, events }

/-- Applies the table in a file. -/
def loadConfig (file : TableFile) (h : Host σ φ) : Step σ φ (Except ConfigError InitReport) :=
  match Table.load h.policy file with
  | .ok t => (h.applyTable t).map .ok
  | .error e => { result := .error e, host := h }

/-- Applies the table in a file, if there is one that can be opened, provided that the registry is
valid. -/
def init (file : Option TableFile) (h : Host σ φ) : Step σ φ (Except RegistryError InitReport) :=
  match h.registry.validate, file with
  | .error e, _ => { result := .error e, host := h }
  | .ok (), none => { result := .ok .configMissing, host := h }
  | .ok (), some file =>
    (h.loadConfig file).map fun
      | .ok report => .ok report
      | .error _ => .ok .configMissing

/-! ### Resolving -/

/-- Asks the entry at an index for its function. -/
def get [Loader σ φ] (i : Nat) (h : Host σ φ) : Step σ φ (Option φ) :=
  match h.registry.entries[i]? with
  | none => { result := none, host := h }
  | some e =>
    let r := e.get h.loader
    { result := r.function
      host := { h with registry := ⟨h.registry.entries.set i r.entry⟩, loader := r.loader }
      events := r.event.toList }

/-- Whether the entry at an index is overridden. -/
def isOverridden [Loader σ φ] (i : Nat) (h : Host σ φ) : Step σ φ Bool :=
  (h.get i).map (·.isSome)

/-- Settles all entries and counts those that are failed. -/
def resolveAll [Loader σ φ] (h : Host σ φ) : Step σ φ Nat :=
  let r := h.registry.resolveAll h.loader
  { result := r.registry.failures
    host := { h with registry := r.registry, loader := r.loader }
    events := r.events }

/-- Settles all entries and reports on them. -/
def info [Loader σ φ] (h : Host σ φ) : Step σ φ Report :=
  let s := h.resolveAll
  { result := .ofRegistry s.host.registry, host := s.host, events := s.events }

/-! ### Releasing -/

/-- Closes the modules of all entries and counts them. -/
def dispose [Loader σ φ] (h : Host σ φ) : Step σ φ Nat :=
  let (registry, loader, closed) := h.registry.dispose h.loader
  { result := closed, host := { h with registry, loader } }

/-! ### Hooks -/

/-- Enters the loaded phase, if that is possible. -/
def enterLoaded (h : Host σ φ) : Step σ φ Bool :=
  let (entered, phase) := h.phase.enterLoaded
  { result := entered, host := { h with phase } }

/-- Enters the unloaded phase, if that is possible. -/
def enterUnloaded (h : Host σ φ) : Step σ φ Bool :=
  let (entered, phase) := h.phase.enterUnloaded
  { result := entered, host := { h with phase } }

/-- Runs on loading: the first time, the table is asked for and applied. -/
def loadHook (file : Option TableFile) (h : Host σ φ) : Step σ φ LoadOutcome :=
  let s := h.enterLoaded
  if s.result then
    (s.host.init file).map fun
      | .ok report => ⟨true, some report⟩
      | .error _ => ⟨true, none⟩
  else { result := ⟨false, none⟩, host := s.host }

/-- Runs on unloading: the first time after loading, the modules are closed. -/
def unloadHook [Loader σ φ] (h : Host σ φ) : Step σ φ (Option Nat) :=
  let s := h.enterUnloaded
  if s.result then s.host.dispose.map some
  else { result := none, host := s.host }

end Host

end Interpose
