import Interpose.Entry
import Interpose.Event
import Interpose.ModuleName

/-!
# Resolution

Resolving an entry settles it for good. An entry that is settled already answers with what it holds,
and the loader is not asked. For any other entry the target is bound: both of its names have to be
configured, the file name of the module has to be within the limit, the module has to open, and the
symbol has to be found in it. The first step that fails decides the reason, and a module that was
opened in vain is closed again.

Each settling is told in one event, so an entry is the subject of at most one such event.
-/

namespace Interpose

variable {σ φ : Type}

/-- What a target was bound to. -/
structure Binding (φ : Type) where
  handle : Handle
  function : φ
  file : String
  deriving Repr

/-- What a target can be bound to, and the loader after the attempt. -/
def Target.bind [Loader σ φ] (t : Target) (loader : σ) : Except BindError (Binding φ) × σ :=
  if !t.isConfigured then (.error .noConfig, loader)
  else
    match moduleFileName t.library with
    | .error reason => (.error reason, loader)
    | .ok file =>
      match Loader.openModule file loader with
      | (.error reason, loader) => (.error reason, loader)
      | (.ok handle, loader) =>
        match Loader.resolve handle t.symbol loader with
        | (.error reason, loader) => (.error reason, Loader.close handle loader)
        | (.ok function, loader) => (.ok { handle, function, file }, loader)

/-- An entry after it was asked for its function, and the loader. -/
structure Resolved (σ φ : Type) where
  function : Option φ
  entry : Entry φ
  loader : σ
  event : Option Event := none

/-- The function that overrides an entry, if any, the entry being settled first. -/
def Entry.get [Loader σ φ] (e : Entry φ) (loader : σ) : Resolved σ φ :=
  match e.settled? with
  | some function => { function, entry := e, loader }
  | none =>
    match e.target.bind loader with
    | (.ok b, loader) =>
      { function := some b.function
        entry := e.bindTo b.handle b.function
        loader
        event := some (.bound e.key b.file e.target.symbol) }
    | (.error reason, loader) =>
      { function := none
        entry := e.fail reason
        loader
        event := some (.bindFailed e.key e.target reason) }

/-- A settled entry stays as it is, and so does the loader. -/
theorem Entry.get_of_isTerminal [Loader σ φ] {e : Entry φ} (h : e.state.isTerminal) (loader : σ) :
    e.get loader = { function := e.function, entry := e, loader } := by
  simp [Entry.get, Entry.settled?, h]

/-- An entry that was asked for its function is settled. -/
theorem Entry.isTerminal_get [Loader σ φ] (e : Entry φ) (loader : σ) :
    (e.get loader).entry.state.isTerminal = true := by
  unfold Entry.get
  cases h : e.state.isTerminal
  · simp only [Entry.settled?, h, Bool.false_eq_true, if_false]
    split <;> rfl
  · simp [Entry.settled?, h]

/-- Resolution changes neither key nor target. -/
theorem Entry.key_get [Loader σ φ] (e : Entry φ) (loader : σ) :
    (e.get loader).entry.key = e.key ∧ (e.get loader).entry.target = e.target := by
  unfold Entry.get
  split
  · exact ⟨rfl, rfl⟩
  · split <;> exact ⟨rfl, rfl⟩

end Interpose
