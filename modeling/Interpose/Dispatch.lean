import Interpose.Host

/-!
# Dispatch

A call of a function that can be overridden goes either to its override or to the function that is
built in. `Host.dispatch` makes the choice, under a policy for overrides that were configured and
turned out to be broken: failing open treats them like overrides that were never configured, and
failing closed makes them an error.
-/

namespace Interpose

variable {σ φ : Type}

/-- What to do about an override that is configured and cannot be bound. -/
inductive FallbackPolicy
  /-- Call the function that is built in. -/
  | failOpen
  /-- Refuse the call. -/
  | failClosed
  deriving DecidableEq, Repr

instance : Inhabited FallbackPolicy := ⟨.failOpen⟩

/-- The name of a policy. -/
def FallbackPolicy.name : FallbackPolicy → String
  | failOpen => "FailOpen"
  | failClosed => "FailClosed"

/-- Why a call is refused. -/
inductive DispatchError
  /-- The override could not be bound. -/
  | unavailable (reason : BindError)
  deriving DecidableEq, Repr

/-- The error in words. -/
def DispatchError.message : DispatchError → String
  | unavailable reason => "override configured but unavailable: " ++ reason.message

/-- Where a call goes. -/
inductive Choice (φ : Type)
  | overriding (function : φ)
  | builtIn
  deriving DecidableEq, Repr

namespace Choice

/-- The choice for what an entry answered. -/
def ofFunction : Option φ → Choice φ
  | some function => overriding function
  | none => builtIn

/-- The result of the call that was chosen. -/
def run {α : Type} (call : φ → α) (fallback : Unit → α) : Choice φ → α
  | overriding function => call function
  | builtIn => fallback ()

end Choice

/-- The choice under a policy, by what an entry answered and its state thereafter. -/
def FallbackPolicy.choose (policy : FallbackPolicy) (state : State) :
    Option φ → Except DispatchError (Choice φ)
  | some function => .ok (.overriding function)
  | none =>
    match policy, state.failure? with
    | .failClosed, some reason =>
      if reason.wasConfigured then .error (.unavailable reason) else .ok .builtIn
    | _, _ => .ok .builtIn

/-- Failing open never refuses a call. -/
@[simp] theorem FallbackPolicy.choose_failOpen (state : State) (function : Option φ) :
    FallbackPolicy.failOpen.choose state function = .ok (Choice.ofFunction function) := by
  cases function <;> rfl

namespace Host

/-- The state of the entry at an index. -/
def stateAt (i : Nat) (h : Host σ φ) : State :=
  (h.registry.entries[i]?.map (·.state)).getD .unresolved

/-- Chooses where a call of the entry at an index goes. -/
def dispatch [Loader σ φ] (policy : FallbackPolicy) (i : Nat) (h : Host σ φ) :
    Step σ φ (Except DispatchError (Choice φ)) :=
  let s := h.get i
  s.map (policy.choose (s.host.stateAt i))

/-- Chooses where a call of the entry at an index goes, failing open. -/
def dispatchOrDefault [Loader σ φ] (i : Nat) (h : Host σ φ) : Step σ φ (Choice φ) :=
  (h.get i).map .ofFunction

end Host

end Interpose
