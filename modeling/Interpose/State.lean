/-!
# The states of an override

An override starts **unresolved** and leaves that state at most once, for **bound** or for
**failed** with the reason. Two numberings of the states are fixed: a byte `State.code`, compact
enough for one machine word, and the signed `State.status` that reports print, where zero is
unresolved, one is bound and every failure is negative.

`State.ofCode` reads unknown bytes as unresolved, so it is total and a left inverse of `State.code`
(`State.ofCode_code`), but not a right inverse.
-/

namespace Interpose

/-! ### Reasons of failure -/

/-- Why an override could not be bound. -/
inductive BindError
  /-- No library or no symbol is configured. -/
  | noConfig
  /-- The file name of the module is over the limit. -/
  | nameTooLong
  /-- The loader has no such module. -/
  | moduleNotFound
  /-- The module has no such symbol. -/
  | symbolNotFound
  deriving DecidableEq, Repr

namespace BindError

/-- All reasons, in the order of their status numbers. -/
def all : List BindError := [noConfig, nameTooLong, moduleNotFound, symbolNotFound]

/-- The name under which a reason appears in records and reports. -/
def name : BindError → String
  | noConfig => "NoConfig"
  | nameTooLong => "NameTooLong"
  | moduleNotFound => "ModuleNotFound"
  | symbolNotFound => "SymbolNotFound"

/-- The reason in words. -/
def message : BindError → String
  | noConfig => "no override library/symbol configured"
  | nameTooLong => "module file name exceeds the maximum length"
  | moduleNotFound => "shared module could not be loaded"
  | symbolNotFound => "symbol not exported by module"

/-- The status number of a reason, from -1 to -4. -/
def status : BindError → Int32
  | noConfig => -1
  | nameTooLong => -2
  | moduleNotFound => -3
  | symbolNotFound => -4

/-- Whether a configured override turned out to be broken, as opposed to none being configured. -/
def wasConfigured (e : BindError) : Bool := e != noConfig

@[simp] theorem wasConfigured_eq_false_iff {e : BindError} :
    e.wasConfigured = false ↔ e = noConfig := by
  cases e <;> decide

theorem name_injective {e f : BindError} (h : e.name = f.name) : e = f := by
  cases e <;> cases f <;> first | rfl | exact absurd h (by decide)

end BindError

/-! ### States -/

/-- How far the resolution of an override has come. -/
inductive State
  | unresolved
  | bound
  | failed (reason : BindError)
  deriving DecidableEq, Repr

namespace State

instance : Inhabited State := ⟨unresolved⟩

/-- A state that is never left. -/
def isTerminal : State → Bool
  | unresolved => false
  | _ => true

/-- The reason of a failed state. -/
def failure? : State → Option BindError
  | failed reason => some reason
  | _ => none

/-- The status number of a state. -/
def status : State → Int32
  | unresolved => 0
  | bound => 1
  | failed reason => reason.status

/-- The byte of a state. -/
def code : State → UInt8
  | unresolved => 0
  | bound => 1
  | failed .noConfig => 2
  | failed .nameTooLong => 3
  | failed .moduleNotFound => 4
  | failed .symbolNotFound => 5

/-- The state of a byte; unknown bytes are unresolved. -/
def ofCode (b : UInt8) : State :=
  if b = 1 then bound
  else if b = 2 then failed .noConfig
  else if b = 3 then failed .nameTooLong
  else if b = 4 then failed .moduleNotFound
  else if b = 5 then failed .symbolNotFound
  else unresolved

@[simp] theorem ofCode_code (s : State) : ofCode s.code = s := by
  cases s with
  | failed reason => cases reason <;> decide
  | _ => decide

@[simp] theorem isTerminal_eq_false_iff {s : State} : s.isTerminal = false ↔ s = unresolved := by
  cases s <;> simp [isTerminal]

theorem isTerminal_of_ne {s : State} (h : s ≠ unresolved) : s.isTerminal = true := by
  rwa [← Bool.not_eq_false, isTerminal_eq_false_iff]

theorem failure?_eq_some_iff {s : State} {reason : BindError} :
    s.failure? = some reason ↔ s = failed reason := by
  cases s <;> simp [failure?]

/-- A status is negative exactly when the state is failed. -/
theorem status_neg_iff {s : State} : s.status < 0 ↔ s.failure?.isSome := by
  cases s with
  | failed reason => cases reason <;> decide
  | _ => decide

end State

/-! ### Misuse -/

/-- A mistake of the caller. -/
inductive MisuseError
  /-- The place for the result is missing. -/
  | nullOutput
  deriving DecidableEq, Repr

/-- The mistake in words. -/
def MisuseError.message : MisuseError → String
  | nullOutput => "required output location is null"

/-- The return code of a mistaken call. -/
def MisuseError.returnCode : MisuseError → Int32
  | nullOutput => -1

end Interpose
