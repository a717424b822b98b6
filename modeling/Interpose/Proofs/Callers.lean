import Interpose.Proofs.Impacts
import Interpose.Proofs.Interleaving

/-!
# Callers that share a host

The operations of a host as the sequences of **steps** that callers take who share it. The two hooks
are the ones that take several steps. Each begins with its **claim**, the one access to the phase
that decides whether the hook takes effect. The load hook then asks for the file, opens it, and
applies its lines one by one; the unload hook releases the entries one by one. Between two steps of
a caller any number of steps of other callers may come. All other operations are one step, and those
that enter a phase are nothing but a claim.

`Callers.step` takes one step of one caller, and `Callers.Reaches` is the choice of any number of
steps in any order. What the callers do on behalf of the hooks is written down in a log.

A caller that is not disturbed does what `Host.perform` does (`Callers.proceeds_perform`), so the
steps are the right ones.
-/

namespace Interpose

variable {σ φ : Type}

namespace Hooks

/-! ### Claims -/

/-- A transition that can be claimed. -/
inductive Claim
  | load
  | unload
  deriving DecidableEq, Repr

namespace Claim

/-- Compares the phase with the one that a transition starts from and exchanges it if they are the
same: whether they were, and the phase afterwards. -/
def exchange : Claim → HookPhase → Bool × HookPhase
  | load => HookPhase.enterLoaded
  | unload => HookPhase.enterUnloaded

/-- What a hook answers whose claim was refused. -/
def refusal : Claim → Answer φ
  | load => .hooked ⟨false, none⟩
  | unload => .unhooked none

/-- A refused claim leaves the phase alone. -/
theorem exchange_of_refused {claim : Claim} {p : HookPhase} (h : (claim.exchange p).1 = false) :
    (claim.exchange p).2 = p := by
  cases claim <;> cases p <;> first | rfl | cases h

end Claim

end Hooks

namespace Operation

open Hooks

/-- The transition that a hook claims. -/
def hook? : Operation → Option Claim
  | .loadHook _ => some .load
  | .unloadHook => some .unload
  | _ => none

/-- The transition that an operation claims. -/
def claim? : Operation → Option Claim
  | .loadHook _ | .enterLoaded => some .load
  | .unloadHook | .enterUnloaded => some .unload
  | _ => none

/-- A hook is among the operations that claim. -/
theorem claim?_of_hook? {op : Operation} {claim : Claim} (hop : op.hook? = some claim) :
    op.claim? = some claim := by
  cases op with
  | loadHook | unloadHook => exact hop
  | _ => cases hop

/-- What claims nothing leaves the phase alone. -/
theorem phase_perform_of_claim?_eq_none [Loader σ φ] {op : Operation} (hop : op.claim? = none)
    (h : Host σ φ) : (h.perform op).host.phase = h.phase := by
  rw [(h.phase_perform op).1]
  cases op with
  | loadHook | unloadHook | enterLoaded | enterUnloaded => cases hop
  | _ => rfl

end Operation

namespace Host

open Hooks

variable {h : Host σ φ}

theorem loadHook_of_accepted (hc : (Claim.load.exchange h.phase).1 = true)
    (file : Option TableFile) :
    h.loadHook file = (h.enterLoaded.host.init file).map fun r ↦ ⟨true, r.toOption⟩ := by
  have hresult : h.enterLoaded.result = true := hc
  rw [loadHook]
  simp only [hresult, if_true]
  congr 1
  funext r
  cases r <;> rfl

theorem loadHook_of_refused (hc : (Claim.load.exchange h.phase).1 = false)
    (file : Option TableFile) :
    h.loadHook file = { result := ⟨false, none⟩, host := h } := by
  have hresult : h.enterLoaded.result = false := hc
  have hhost : h.enterLoaded.host = { h with phase := (Claim.load.exchange h.phase).2 } := rfl
  rw [Claim.exchange_of_refused hc] at hhost
  rw [loadHook]
  simp only [hresult, hhost, Bool.false_eq_true, if_false]

theorem unloadHook_of_accepted [Loader σ φ] (hc : (Claim.unload.exchange h.phase).1 = true) :
    h.unloadHook = h.enterUnloaded.host.dispose.map some := by
  have hresult : h.enterUnloaded.result = true := hc
  rw [unloadHook]
  simp only [hresult, if_true]

theorem unloadHook_of_refused [Loader σ φ] (hc : (Claim.unload.exchange h.phase).1 = false) :
    h.unloadHook = { result := none, host := h } := by
  have hresult : h.enterUnloaded.result = false := hc
  have hhost : h.enterUnloaded.host = { h with phase := (Claim.unload.exchange h.phase).2 } := rfl
  rw [Claim.exchange_of_refused hc] at hhost
  rw [unloadHook]
  simp only [hresult, hhost, Bool.false_eq_true, if_false]

end Host

namespace Hooks

/-! ### Steps -/

/-- What a caller does next in an operation. -/
inductive Progress (φ : Type)
  /-- Begins. -/
  | waiting
  /-- Asks for the file, having claimed the load. -/
  | asking (file : Option TableFile)
  /-- Opens the file, provided that the registry is valid. -/
  | opening (file : Option TableFile)
  /-- Applies the lines that are left of a table, the events so far being known. -/
  | applying (t : Table) (lines : List Table.Line) (events : List Event)
  /-- Releases the entries from an index on, having claimed the unload. -/
  | releasing (i closed : Nat)
  /-- Is done. -/
  | returned (answer : Answer φ)

/-- Something that a caller did on behalf of a hook. -/
inductive Act
  /-- A transition was claimed, with success or not. -/
  | claimed (claim : Claim) (accepted : Bool)
  /-- The file was asked for. -/
  | asked
  /-- A line of the table was applied. -/
  | applied (line : Table.Line)
  /-- A module was closed. -/
  | closed (handle : Handle)
  deriving DecidableEq, Repr

/-- What a step comes to. -/
structure Turn (σ φ : Type) where
  progress : Progress φ
  host : Host σ φ
  events : List Event := []
  act : Option Act := none

/-- What comes after the claim of an operation. -/
def afterClaim (accepted : Bool) : Operation → Progress φ
  | .loadHook file => if accepted then .asking file else .returned Claim.load.refusal
  | .unloadHook => if accepted then .releasing 0 0 else .returned Claim.unload.refusal
  | _ => .returned (.verdict accepted)

theorem afterClaim_of_refused {op : Operation} {claim : Claim} (hop : op.hook? = some claim) :
    afterClaim false op = (.returned claim.refusal : Progress φ) := by
  cases op with
  | loadHook | unloadHook =>
    obtain rfl := Option.some.inj hop
    rfl
  | _ => cases hop

/-- What comes after opening the file. -/
def afterOpening (file : Option TableFile) (h : Host σ φ) : Progress φ :=
  match h.registry.validate, file with
  | .error _, _ => .returned (.hooked ⟨true, none⟩)
  | .ok (), none => .returned (.hooked ⟨true, some .configMissing⟩)
  | .ok (), some file =>
    match Table.load h.policy file with
    | .ok t => .applying t t.lines []
    | .error _ => .returned (.hooked ⟨true, some .configMissing⟩)

/-- One step of a caller. Nothing, if the caller is done. -/
def Progress.turn [Loader σ φ] (op : Operation) (h : Host σ φ) : Progress φ → Option (Turn σ φ)
  | waiting =>
    match op.claim? with
    | some claim =>
      let (accepted, phase) := claim.exchange h.phase
      some
        { progress := afterClaim accepted op
          host := { h with phase }
          act := some (.claimed claim accepted) }
    | none =>
      let s := h.perform op
      some { progress := .returned s.result, host := s.host, events := s.events }
  | asking file => some { progress := .opening file, host := h, act := some .asked }
  | opening file => some { progress := afterOpening file h, host := h }
  | applying t [] events =>
    some { progress := .returned (.hooked ⟨true, some (.ofEvents t events)⟩), host := h }
  | applying t (line :: lines) events =>
    let (registry, event) := h.registry.applyLine line
    some
      { progress := .applying t lines (events ++ event.toList)
        host := { h with registry }
        events := event.toList
        act := some (.applied line) }
  | releasing i closed =>
    match h.registry.entries[i]? with
    | none => some { progress := .returned (.unhooked (some closed)), host := h }
    | some e =>
      let registry : Registry φ := ⟨h.registry.entries.set i e.release.2⟩
      match e.handle with
      | none => some { progress := .releasing (i + 1) closed, host := { h with registry } }
      | some handle =>
        some
          { progress := .releasing (i + 1) (closed + 1)
            host := { h with registry, loader := Loader.close handle h.loader }
            act := some (.closed handle) }
  | returned _ => none

/-! ### Callers -/

/-- A host with the progress of its callers, who are named by `ι`, the events that happened, and the
log. -/
structure Callers (ι σ φ : Type) where
  host : Host σ φ
  progress : ι → Progress φ := fun _ ↦ .waiting
  events : List Event := []
  log : List (ι × Act) := []

namespace Callers

variable {ι : Type}

/-- What a caller did, in order. -/
def acts [DecidableEq ι] (c : ι) (m : Callers ι σ φ) : List Act :=
  (m.log.filter fun note ↦ note.1 = c).map (·.2)

variable [DecidableEq ι]

/-- The callers after a step of one of them. -/
def apply (c : ι) (x : Turn σ φ) (m : Callers ι σ φ) : Callers ι σ φ :=
  { host := x.host
    progress := Function.update m.progress c x.progress
    events := m.events ++ x.events
    log := m.log ++ (x.act.map (c, ·)).toList }

theorem progress_apply_self (c : ι) (x : Turn σ φ) (m : Callers ι σ φ) :
    (m.apply c x).progress c = x.progress := Function.update_self ..

/-- The others stay where they are. -/
theorem progress_apply_of_ne {c c' : ι} (hc : c' ≠ c) (x : Turn σ φ) (m : Callers ι σ φ) :
    (m.apply c x).progress c' = m.progress c' := Function.update_of_ne hc ..

theorem mem_acts {c : ι} {act : Act} {m : Callers ι σ φ} : act ∈ m.acts c ↔ (c, act) ∈ m.log := by
  simp [acts]

/-- What the callers have done after a step. -/
theorem acts_apply (c c' : ι) (x : Turn σ φ) (m : Callers ι σ φ) :
    (m.apply c x).acts c' = if c' = c then m.acts c ++ x.act.toList else m.acts c' := by
  rcases hx : x.act with - | act
  · by_cases hc : c' = c <;> simp [acts, apply, hx, hc]
  · by_cases hc : c' = c
    · simp [acts, apply, hx, hc]
    · simp [acts, apply, hx, hc, Ne.symm hc]

variable [Loader σ φ] (call : ι → Operation)

/-- One step of a caller, if the caller is not done. -/
def step (c : ι) (m : Callers ι σ φ) : Option (Callers ι σ φ) :=
  ((m.progress c).turn (call c) m.host).map fun x ↦ m.apply c x

/-- Any number of steps, each by any caller. -/
abbrev Reaches : Callers ι σ φ → Callers ι σ φ → Prop :=
  Relation.ReflTransGen fun m m' ↦ ∃ c, m.step call c = some m'

/-- Any number of steps of one caller. -/
abbrev Proceeds (c : ι) : Callers ι σ φ → Callers ι σ φ → Prop :=
  Relation.ReflTransGen fun m m' ↦ m.step call c = some m'

/-- The callers after steps in order. -/
def follow (schedule : List ι) (m : Callers ι σ φ) : Callers ι σ φ :=
  schedule.foldl (fun m c ↦ (m.step call c).getD m) m

theorem reaches_follow (schedule : List ι) (m : Callers ι σ φ) :
    m.Reaches call (m.follow call schedule) := reflTransGen_foldl (step call) schedule m

end Callers

/-! ### A caller alone -/

section Alone

variable [Loader σ φ] {op : Operation}

/-- The step that claims. -/
theorem turn_of_claim? {claim : Claim} (hop : op.claim? = some claim) (h : Host σ φ) :
    Progress.waiting.turn op h =
      some
        { progress := afterClaim (claim.exchange h.phase).1 op
          host := { h with phase := (claim.exchange h.phase).2 }
          act := some (.claimed claim (claim.exchange h.phase).1) } := by
  simp only [Progress.turn, hop]

/-- The step that performs an operation as a whole. -/
theorem turn_of_claim?_eq_none (hop : op.claim? = none) (h : Host σ φ) :
    Progress.waiting.turn op h =
      some
        { progress := .returned (h.perform op).result
          host := (h.perform op).host
          events := (h.perform op).events } := by
  simp only [Progress.turn, hop]

/-- The step after the last entry. -/
theorem turn_releasing_of_eq_none (op : Operation) {h : Host σ φ} {i : Nat}
    (he : h.registry.entries[i]? = none) (closed : Nat) :
    (Progress.releasing i closed).turn op h =
      some { progress := .returned (.unhooked (some closed)), host := h } := by
  simp only [Progress.turn, he]

/-- The step that passes an entry over. -/
theorem turn_releasing_of_handle_eq_none (op : Operation) {h : Host σ φ} {i : Nat} {e : Entry φ}
    (he : h.registry.entries[i]? = some e) (hh : e.handle = none) (closed : Nat) :
    (Progress.releasing i closed).turn op h =
      some
        { progress := .releasing (i + 1) closed
          host := { h with registry := ⟨h.registry.entries.set i e.release.2⟩ } } := by
  simp only [Progress.turn, he, hh]

/-- The step that closes the module of an entry. -/
theorem turn_releasing_of_handle_eq_some (op : Operation) {h : Host σ φ} {i : Nat} {e : Entry φ}
    {handle : Handle} (he : h.registry.entries[i]? = some e) (hh : e.handle = some handle)
    (closed : Nat) :
    (Progress.releasing i closed).turn op h =
      some
        { progress := .releasing (i + 1) (closed + 1)
          host :=
            { h with
              registry := ⟨h.registry.entries.set i e.release.2⟩
              loader := Loader.close handle h.loader }
          act := some (.closed handle) } := by
  simp only [Progress.turn, he, hh]

/-- What a caller that is not disturbed answers in the end, with the host after that, and what
happened on the way. -/
inductive Ends (op : Operation) :
    Progress φ → Host σ φ → Answer φ → Host σ φ → List Event → Prop
  | done (answer : Answer φ) (h : Host σ φ) : Ends op (.returned answer) h answer h []
  | turn {p : Progress φ} {h h' : Host σ φ} {x : Turn σ φ} {answer : Answer φ}
      {events : List Event} (hx : p.turn op h = some x)
      (hs : Ends op x.progress x.host answer h' events) :
      Ends op p h answer h' (x.events ++ events)

/-- The lines of a table, one by one. -/
theorem ends_applying (t : Table) (lines : List Table.Line) (events : List Event) (h : Host σ φ) :
    Ends op (.applying t lines events) h
      (.hooked ⟨true, some (.ofEvents t (events ++ (h.registry.applyLines lines).2))⟩)
      { h with registry := (h.registry.applyLines lines).1 } (h.registry.applyLines lines).2 := by
  induction lines generalizing events h with
  | nil =>
    have hx : (Progress.applying t [] events).turn op h =
        some { progress := .returned (.hooked ⟨true, some (.ofEvents t events)⟩), host := h } := rfl
    rw [Registry.applyLines, List.append_nil]
    exact .turn hx (.done _ h)
  | cons line lines ih =>
    have hx : (Progress.applying t (line :: lines) events).turn op h =
        some
          { progress := .applying t lines (events ++ (h.registry.applyLine line).2.toList)
            host := { h with registry := (h.registry.applyLine line).1 }
            events := (h.registry.applyLine line).2.toList
            act := some (.applied line) } := rfl
    have hrest := ih (events ++ (h.registry.applyLine line).2.toList)
      { h with registry := (h.registry.applyLine line).1 }
    rw [List.append_assoc] at hrest
    exact .turn hx hrest

/-- An entry without a handle has nothing to be closed. -/
theorem releaseAll_of_handle_eq_none {e : Entry φ} (hh : e.handle = none) (es : List (Entry φ))
    (loader : σ) :
    Registry.releaseAll (e :: es) loader =
      (e.release.2 :: (Registry.releaseAll es loader).1, (Registry.releaseAll es loader).2) := by
  rw [Registry.releaseAll, Entry.release, hh]

theorem releaseAll_of_handle_eq_some {e : Entry φ} {handle : Handle} (hh : e.handle = some handle)
    (es : List (Entry φ)) (loader : σ) :
    Registry.releaseAll (e :: es) loader =
      (e.release.2 :: (Registry.releaseAll es (Loader.close handle loader)).1,
        (Registry.releaseAll es (Loader.close handle loader)).2.1,
        (Registry.releaseAll es (Loader.close handle loader)).2.2 + 1) := by
  rw [Registry.releaseAll, Entry.release, hh]

/-- The entries of a registry, one by one. -/
theorem ends_releasing (op : Operation) (before rest : List (Entry φ)) (closed : Nat) {h : Host σ φ}
    (hes : h.registry.entries = before ++ rest) :
    Ends op (.releasing before.length closed) h
      (.unhooked (some (closed + (Registry.releaseAll rest h.loader).2.2)))
      { h with
        registry := ⟨before ++ (Registry.releaseAll rest h.loader).1⟩
        loader := (Registry.releaseAll rest h.loader).2.1 } [] := by
  induction rest generalizing before closed h with
  | nil =>
    have he : h.registry.entries[before.length]? = none := by simp [hes]
    have hlast : h = { h with registry := ⟨before ++ []⟩ } := by
      rw [← hes]
    rw [Registry.releaseAll]
    exact hlast ▸ .turn (turn_releasing_of_eq_none op he closed) (.done _ h)
  | cons e rest ih =>
    have he : h.registry.entries[before.length]? = some e := by simp [hes]
    have hset : h.registry.entries.set before.length e.release.2 =
        (before ++ [e.release.2]) ++ rest := by simp [hes]
    have hlength : before.length + 1 = (before ++ [e.release.2]).length := by simp
    rcases hh : e.handle with - | handle
    · have hx := turn_releasing_of_handle_eq_none op he hh closed
      rw [hset, hlength] at hx
      have hrest := ih (before ++ [e.release.2]) closed
        (h := { h with registry := ⟨(before ++ [e.release.2]) ++ rest⟩ }) rfl
      rw [releaseAll_of_handle_eq_none hh]
      dsimp only
      rw [List.append_cons]
      exact .turn hx hrest
    · have hx := turn_releasing_of_handle_eq_some op he hh closed
      rw [hset, hlength] at hx
      have hrest := ih (before ++ [e.release.2]) (closed + 1)
        (h := { h with
          registry := ⟨(before ++ [e.release.2]) ++ rest⟩
          loader := Loader.close handle h.loader }) rfl
      rw [releaseAll_of_handle_eq_some hh]
      dsimp only
      rw [List.append_cons, ← Nat.add_assoc, Nat.add_right_comm]
      exact .turn hx hrest

/-- What the load hook does that has asked for the file. -/
theorem ends_opening (file : Option TableFile) (h : Host σ φ) :
    Ends op (.opening file) h
      (.hooked ⟨true, (h.init file).result.toOption⟩) (h.init file).host (h.init file).events := by
  have hx : (Progress.opening file).turn op h =
      some { progress := afterOpening file h, host := h } := rfl
  refine .turn hx ?_
  dsimp only
  cases hv : h.registry.validate with
  | error e =>
    simp only [afterOpening, Host.init, hv]
    exact .done _ h
  | ok =>
    cases file with
    | none =>
      simp only [afterOpening, Host.init, hv]
      exact .done _ h
    | some file =>
      cases ht : Table.load h.policy file with
      | error e =>
        simp only [afterOpening, Host.init, Host.loadConfig, hv, ht]
        exact .done _ h
      | ok t =>
        simp only [afterOpening, Host.init, Host.loadConfig, hv, ht]
        exact ends_applying t t.lines [] h

/-- What the load hook does whose claim was accepted. -/
theorem ends_asking (file : Option TableFile) (h : Host σ φ) :
    Ends op (.asking file) h
      (.hooked ⟨true, (h.init file).result.toOption⟩) (h.init file).host (h.init file).events := by
  have hx : (Progress.asking file).turn op h =
      some { progress := .opening file, host := h, act := some .asked } := rfl
  exact .turn hx (ends_opening file h)

/-- **An operation undisturbed** is `Host.perform`. -/
theorem ends_waiting (op : Operation) (h : Host σ φ) :
    Ends op .waiting h (h.perform op).result (h.perform op).host (h.perform op).events := by
  cases hop : op.claim? with
  | none =>
    rw [← List.append_nil (h.perform op).events]
    exact .turn (turn_of_claim?_eq_none hop h) (.done _ _)
  | some claim =>
    have hx := turn_of_claim? hop h
    cases op with
    | loadHook file =>
      obtain rfl := Option.some.inj hop
      show Ends _ _ h (.hooked (h.loadHook file).result) (h.loadHook file).host
        (h.loadHook file).events
      cases hc : (Claim.load.exchange h.phase).1 with
      | true =>
        rw [Host.loadHook_of_accepted hc]
        rw [hc] at hx
        exact .turn hx (ends_asking file h.enterLoaded.host)
      | false =>
        rw [Host.loadHook_of_refused hc]
        rw [hc, Claim.exchange_of_refused hc] at hx
        exact .turn hx (.done _ h)
    | unloadHook =>
      obtain rfl := Option.some.inj hop
      show Ends _ _ h (.unhooked h.unloadHook.result) h.unloadHook.host h.unloadHook.events
      cases hc : (Claim.unload.exchange h.phase).1 with
      | true =>
        rw [Host.unloadHook_of_accepted hc]
        rw [hc] at hx
        have hrest := ends_releasing .unloadHook [] h.registry.entries 0
          (h := h.enterUnloaded.host) rfl
        rw [Nat.zero_add] at hrest
        exact .turn hx hrest
      | false =>
        rw [Host.unloadHook_of_refused hc]
        rw [hc, Claim.exchange_of_refused hc] at hx
        exact .turn hx (.done _ h)
    | enterLoaded =>
      obtain rfl := Option.some.inj hop
      exact .turn hx (.done _ _)
    | enterUnloaded =>
      obtain rfl := Option.some.inj hop
      exact .turn hx (.done _ _)
    | _ => cases hop

/-- Every call comes to an end, wherever it is. -/
theorem exists_ends (op : Operation) (p : Progress φ) (h : Host σ φ) :
    ∃ answer h' events, Ends op p h answer h' events := by
  cases p with
  | waiting => exact ⟨_, _, _, ends_waiting op h⟩
  | asking file => exact ⟨_, _, _, ends_asking file h⟩
  | opening file => exact ⟨_, _, _, ends_opening file h⟩
  | applying t lines events => exact ⟨_, _, _, ends_applying t lines events h⟩
  | releasing i closed =>
    by_cases hi : i ≤ h.registry.entries.length
    · have hsplit := (List.take_append_drop i h.registry.entries).symm
      have hends := ends_releasing op _ _ closed hsplit
      rw [List.length_take_of_le hi] at hends
      exact ⟨_, _, _, hends⟩
    · have he := List.getElem?_eq_none (Nat.le_of_not_le hi)
      exact ⟨_, _, _, .turn (turn_releasing_of_eq_none op he closed) (.done _ h)⟩
  | returned answer => exact ⟨_, _, _, .done answer h⟩

namespace Callers

variable {ι : Type} [DecidableEq ι] {call : ι → Operation} {c : ι} {m : Callers ι σ φ}

theorem step_of_turn {x : Turn σ φ} (hx : (m.progress c).turn (call c) m.host = some x) :
    m.step call c = some (m.apply c x) := by
  rw [step, hx, Option.map_some]

/-- **If only one caller moves**, the others stay where they are. -/
theorem proceeds_of_ends {p : Progress φ} {h h' : Host σ φ} {answer : Answer φ}
    {events : List Event} (hends : Ends (call c) p h answer h' events) (hp : m.progress c = p)
    (hh : m.host = h) :
    ∃ m', m.Proceeds call c m' ∧ m'.host = h' ∧ m'.events = m.events ++ events ∧
      m'.progress = Function.update m.progress c (.returned answer) := by
  -- By induction on what the caller does alone, from the callers after the first step.
  induction hends generalizing m with
  | done answer h =>
    refine ⟨m, .refl, hh, (List.append_nil _).symm, ?_⟩
    rw [← hp, Function.update_eq_self]
  | @turn p h h' x answer events hx hs ih =>
    obtain ⟨m', hproceeds, hhost, hevents, hprogress⟩ :=
      ih (m := m.apply c x) (Function.update_self ..) rfl
    refine ⟨m', .head (step_of_turn (by rw [hp, hh, hx])) hproceeds, hhost, ?_, ?_⟩
    · rw [hevents, apply, List.append_assoc]
    · rw [hprogress, apply, Function.update_idem]

/-- **A caller undisturbed** makes of the host what `Host.perform` makes of it, and answers that. -/
theorem proceeds_perform (hp : m.progress c = .waiting) :
    ∃ m', m.Proceeds call c m' ∧ m'.host = (m.host.perform (call c)).host ∧
      m'.events = m.events ++ (m.host.perform (call c)).events ∧
      m'.progress = Function.update m.progress c (.returned (m.host.perform (call c)).result) :=
  proceeds_of_ends (ends_waiting (call c) m.host) hp rfl

/-- **Every caller can return**, by steps of its own. -/
theorem exists_proceeds_returned (call : ι → Operation) (c : ι) (m : Callers ι σ φ) :
    ∃ m' answer, m.Proceeds call c m' ∧ m'.progress c = .returned answer := by
  obtain ⟨answer, h', events, hends⟩ := exists_ends (call c) (m.progress c) m.host
  obtain ⟨m', hproceeds, -, -, hprogress⟩ := proceeds_of_ends hends rfl rfl
  exact ⟨m', answer, hproceeds, by rw [hprogress, Function.update_self]⟩

end Callers

end Alone

end Hooks

end Interpose
