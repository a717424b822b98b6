import Interpose.Dispatch

/-!
# Operations

Everything that can be asked of a host, as data. `Host.perform` answers one operation and
`Host.run` a list of them, so what holds of a host at every moment is what every operation keeps.
-/

namespace Interpose

variable {σ φ : Type}

/-- Something asked of a host. Numbers are indices of entries. -/
inductive Operation
  | configure (i : Nat) (target : Target)
  | applyTable (t : Table)
  | loadConfig (file : TableFile)
  | init (file : Option TableFile)
  | get (i : Nat)
  | isOverridden (i : Nat)
  | dispatch (policy : FallbackPolicy) (i : Nat)
  | dispatchOrDefault (i : Nat)
  | resolveAll
  | snapshot
  | info
  | dispose
  | enterLoaded
  | enterUnloaded
  | loadHook (file : Option TableFile)
  | unloadHook

/-- What a host answers. -/
inductive Answer (φ : Type)
  | verdict (yes : Bool)
  | function (f : Option φ)
  | choice (c : Except DispatchError (Choice φ))
  | count (n : Nat)
  | snapshots (entries : List Snapshot)
  | report (r : Report)
  | applied (r : InitReport)
  | loaded (r : Except ConfigError InitReport)
  | initialized (r : Except RegistryError InitReport)
  | hooked (o : LoadOutcome)
  | unhooked (closed : Option Nat)

namespace Host

/-- Answers one operation. -/
def perform [Loader σ φ] (h : Host σ φ) : Operation → Step σ φ (Answer φ)
  | .configure i target => (h.configure i target).map .verdict
  | .applyTable t => (h.applyTable t).map .applied
  | .loadConfig file => (h.loadConfig file).map .loaded
  | .init file => (h.init file).map .initialized
  | .get i => (h.get i).map .function
  | .isOverridden i => (h.isOverridden i).map .verdict
  | .dispatch policy i => (h.dispatch policy i).map .choice
  | .dispatchOrDefault i => (h.dispatchOrDefault i).map fun c ↦ .choice (.ok c)
  | .resolveAll => h.resolveAll.map .count
  | .snapshot => { result := .snapshots h.registry.snapshots, host := h }
  | .info => h.info.map .report
  | .dispose => h.dispose.map .count
  | .enterLoaded => h.enterLoaded.map .verdict
  | .enterUnloaded => h.enterUnloaded.map .verdict
  | .loadHook file => (h.loadHook file).map .hooked
  | .unloadHook => h.unloadHook.map .unhooked

/-- Answers operations in order. -/
def run [Loader σ φ] (h : Host σ φ) : List Operation → Step σ φ (List (Answer φ))
  | [] => { result := [], host := h }
  | op :: ops =>
    let first := h.perform op
    let others := first.host.run ops
    { result := first.result :: others.result
      host := others.host
      events := first.events ++ others.events }

end Host

end Interpose
