import Interpose.Proofs.Moves
import Mathlib.Logic.Function.Basic

/-!
# Threads that share entries

Asking an entry for its function, and configuring it, as the sequences of **steps** that threads
take when they share entries. Each step is one access to what is shared: a load or a store of one
cell, an operation of the lock, a request to the loader, or the telling of an event. Between two
steps of a thread any number of steps of other threads may come, and every load sees the latest
store. No release of handles takes part.

Asking first loads the state and the function without the lock. Only if the entry is not settled is
the lock taken, and then both are loaded once more, since another thread may have settled the entry
in the meantime. An outcome is published by three stores, the state last; the event is told after
the lock was given back.

A `Machine` is everything that threads share, with what each of them is doing and has yet to do.
`Machine.step` takes one step of one thread, if that thread is neither blocked nor done, and
`Machine.Reaches` is the choice of any number of steps in any order. What threads do to entries is
written down in a log.

A thread that is not disturbed does what `Entry.get` and `Entry.configure` do (`alone_get` and
`alone_configure`), so the steps are the right ones.
-/

namespace Interpose

variable {σ φ : Type}

/-! ### Outcomes -/

/-- What binding a target came to. -/
abbrev BindResult (φ : Type) : Type := Except BindError (Binding φ)

namespace BindResult

/-- The state that an outcome is published by. -/
def state : BindResult φ → State
  | .ok _ => .bound
  | .error reason => .failed reason

/-- The handle that is kept, if any. -/
def handle : BindResult φ → Option Handle
  | .ok b => some b.handle
  | .error _ => none

/-- The function that was found, if any. -/
def function : BindResult φ → Option φ
  | .ok b => some b.function
  | .error _ => none

/-- The event that tells an outcome. -/
def event (key : String) (target : Target) : BindResult φ → Event
  | .ok b => .bound key b.file target.symbol
  | .error reason => .bindFailed key target reason

/-- An entry with an outcome published. -/
def settle (o : BindResult φ) (e : Entry φ) : Entry φ :=
  match o with
  | .ok b => e.bindTo b.handle b.function
  | .error reason => e.fail reason

@[simp] theorem isTerminal_state (o : BindResult φ) : o.state.isTerminal = true := by
  cases o <;> rfl

end BindResult

/-- The file to open for a target, or the reason why the loader is not asked. -/
def Target.file (t : Target) : Except BindError String :=
  if !t.isConfigured then .error .noConfig else moduleFileName t.library

/-! ### Steps -/

/-- What a thread does next in a call on an entry. -/
inductive Point (φ : Type)
  /-- Loads the state, without the lock. -/
  | loadState
  /-- Loads the function, without the lock. -/
  | loadFunction
  /-- Takes the lock, in order to resolve. -/
  | acquire
  /-- Loads the state once more. -/
  | recheckState
  /-- Loads the function once more. -/
  | recheckFunction
  /-- Copies the target, and sees whether it names a file. -/
  | copyTarget
  /-- Asks the loader for the module. -/
  | openModule (target : Target) (file : String)
  /-- Asks the loader for the symbol. -/
  | resolve (target : Target) (file : String) (handle : Handle)
  /-- Closes a module that was opened in vain. -/
  | close (target : Target) (handle : Handle) (reason : BindError)
  /-- Stores the handle. -/
  | storeHandle (target : Target) (b : Binding φ)
  /-- Stores the function. -/
  | storeFunction (target : Target) (b : Binding φ)
  /-- Stores the state, which publishes the outcome. -/
  | storeState (target : Target) (o : BindResult φ)
  /-- Gives the lock back after publishing. -/
  | unlock (target : Target) (o : BindResult φ)
  /-- Tells the outcome. -/
  | tell (target : Target) (o : BindResult φ)
  /-- Gives the lock back after finding the entry settled. -/
  | unlockSettled (function : Option φ)
  /-- Answers with a function. -/
  | answer (function : Option φ)
  /-- Takes the lock, in order to configure. -/
  | acquireTarget (target : Target)
  /-- Loads the state, in order to configure. -/
  | check (target : Target)
  /-- Writes the target. -/
  | write (target : Target)
  /-- Gives the lock back after configuring. -/
  | unlockTarget

/-- Whether a thread has the lock of the entry. -/
def Point.holds : Point φ → Bool
  | loadState | loadFunction | acquire | tell .. | answer _ | acquireTarget _ => false
  | _ => true

/-- Something that was done to an entry. -/
inductive Deed (φ : Type)
  /-- The loader was asked to open a file. -/
  | opened (file : String)
  /-- An outcome was published. -/
  | published (o : BindResult φ)
  /-- An event was told. -/
  | told (event : Event)
  /-- A thread that asked was answered. -/
  | answered (function : Option φ)
  /-- A target was taken. -/
  | taken (target : Target)
  /-- A target was refused. -/
  | refused (target : Target)

/-- What a step does to a lock. -/
inductive LockUse
  | keep
  | take
  | leave

/-- What a step comes to. When nothing comes next, the call is over. -/
structure Effect (σ φ : Type) where
  next : Option (Point φ)
  entry : Entry φ
  loader : σ
  lock : LockUse := .keep
  deed : Option (Deed φ) := none

/-- One step on an entry whose lock is free or not. Nothing, if the thread has to wait. -/
def Point.step [Loader σ φ] (free : Bool) (e : Entry φ) (loader : σ) :
    Point φ → Option (Effect σ φ)
  | loadState =>
    let next := if e.state.isTerminal then loadFunction else acquire
    some { next := some next, entry := e, loader }
  | loadFunction => some { next := some (answer e.function), entry := e, loader }
  | acquire =>
    if free then some { next := some recheckState, entry := e, loader, lock := .take } else none
  | recheckState =>
    let next := if e.state.isTerminal then recheckFunction else copyTarget
    some { next := some next, entry := e, loader }
  | recheckFunction => some { next := some (unlockSettled e.function), entry := e, loader }
  | copyTarget =>
    -- Names that no file can have are found out here, and the loader is not asked.
    let next :=
      match e.target.file with
      | .error reason => storeState e.target (.error reason)
      | .ok file => openModule e.target file
    some { next := some next, entry := e, loader }
  | openModule target file =>
    let (given, loader) := Loader.openModule file loader
    let next :=
      match given with
      | .error reason => storeState target (.error reason)
      | .ok handle => resolve target file handle
    some { next := some next, entry := e, loader, deed := some (.opened file) }
  | resolve target file handle =>
    let (found, loader) := Loader.resolve handle target.symbol loader
    let next :=
      match found with
      | .error reason => close target handle reason
      | .ok function => storeHandle target { handle, function, file }
    some { next := some next, entry := e, loader }
  | close target handle reason =>
    some
      { next := some (storeState target (.error reason))
        entry := e
        loader := Loader.close handle loader }
  | storeHandle target b =>
    some
      { next := some (storeFunction target b)
        entry := { e with handle := some b.handle }
        loader }
  | storeFunction target b =>
    some
      { next := some (storeState target (.ok b))
        entry := { e with function := some b.function }
        loader }
  | storeState target o =>
    -- Handle and function are in their cells by now, so whoever sees the state finds them too.
    some
      { next := some (unlock target o)
        entry := { e with state := BindResult.state o }
        loader
        deed := some (.published o) }
  | unlock target o => some { next := some (tell target o), entry := e, loader, lock := .leave }
  | tell target o =>
    some
      { next := some (answer (BindResult.function o))
        entry := e
        loader
        deed := some (.told (BindResult.event e.key target o)) }
  | unlockSettled function =>
    some { next := some (answer function), entry := e, loader, lock := .leave }
  | answer function => some { next := none, entry := e, loader, deed := some (.answered function) }
  | acquireTarget target =>
    if free then some { next := some (check target), entry := e, loader, lock := .take } else none
  | check target =>
    if e.state.isTerminal then
      some { next := some unlockTarget, entry := e, loader, deed := some (.refused target) }
    else some { next := some (write target), entry := e, loader }
  | write target =>
    some
      { next := some unlockTarget
        entry := { e with target }
        loader
        deed := some (.taken target) }
  | unlockTarget => some { next := none, entry := e, loader, lock := .leave }

/-- The use of a lock that takes a thread from not having it, or having it, to either. -/
def LockUse.between : Bool → Bool → LockUse
  | false, true => take
  | true, false => leave
  | _, _ => keep

section Step

variable [Loader σ φ] {free : Bool} {e : Entry φ} {loader : σ} {point : Point φ} {x : Effect σ φ}

/-- A step takes the lock exactly when the point after it has the lock and the one before has not,
and leaves it in the opposite case. -/
theorem Point.lock_of_step (h : point.step free e loader = some x) :
    x.lock = .between point.holds (x.next.any Point.holds) := by
  -- Points that branch have the lock on both branches or on neither.
  cases point with
  | loadState =>
    obtain rfl := Option.some.inj h
    dsimp only
    split <;> rfl
  | acquire =>
    obtain rfl := Option.some.inj (Option.ite_none_right_eq_some.mp h).2
    rfl
  | recheckState =>
    obtain rfl := Option.some.inj h
    dsimp only
    split <;> rfl
  | copyTarget =>
    obtain rfl := Option.some.inj h
    dsimp only
    split <;> rfl
  | openModule target file =>
    obtain rfl := Option.some.inj h
    dsimp only
    split <;> rfl
  | resolve target file handle =>
    obtain rfl := Option.some.inj h
    dsimp only
    split <;> rfl
  | acquireTarget target =>
    obtain rfl := Option.some.inj (Option.ite_none_right_eq_some.mp h).2
    rfl
  | check target =>
    simp only [Point.step] at h
    split at h <;> (obtain rfl := Option.some.inj h; rfl)
  | _ =>
    obtain rfl := Option.some.inj h
    rfl

/-- A lock is taken only while it is free. -/
theorem Point.free_of_take (h : point.step free e loader = some x) (hlock : x.lock = .take) :
    free = true := by
  cases point with
  | acquire => exact (Option.ite_none_right_eq_some.mp h).1
  | acquireTarget target => exact (Option.ite_none_right_eq_some.mp h).1
  | check target =>
    simp only [Point.step] at h
    split at h <;> (obtain rfl := Option.some.inj h; cases hlock)
  | _ =>
    obtain rfl := Option.some.inj h
    cases hlock

/-- A thread that has the lock never waits. -/
theorem Point.exists_step_of_holds (hh : point.holds = true) :
    ∃ x, point.step free e loader = some x := by
  cases point with
  | check target =>
    simp only [Point.step]
    split <;> exact ⟨_, rfl⟩
  | loadState | loadFunction | acquire | tell | answer | acquireTarget => cases hh
  | _ => exact ⟨_, rfl⟩

/-- Nor does any thread while the lock is free. -/
theorem Point.exists_step_of_free : ∃ x, point.step true e loader = some x := by
  cases point with
  | check target =>
    simp only [Point.step]
    split <;> exact ⟨_, rfl⟩
  | _ => exact ⟨_, rfl⟩

end Step

/-! ### Machines -/

/-- Steps in order, those left out that cannot be taken, are a way to go. -/
theorem reflTransGen_foldl {ι α : Type} (step : ι → α → Option α) (schedule : List ι) (a : α) :
    Relation.ReflTransGen (fun a b ↦ ∃ i, step i a = some b) a
      (schedule.foldl (fun a i ↦ (step i a).getD a) a) := by
  induction schedule generalizing a with
  | nil => exact .refl
  | cons i schedule ih =>
    rw [List.foldl_cons]
    cases hs : step i a with
    | none => exact ih a
    | some b => exact .head ⟨i, hs⟩ (ih b)

/-- A call on an entry. -/
inductive Call (κ : Type)
  | get (k : κ)
  | configure (k : κ) (target : Target)

/-- The entry of a call, and where the call begins. -/
def Call.start {κ : Type} : Call κ → κ × Point φ
  | get k => (k, .loadState)
  | configure k target => (k, .acquireTarget target)

/-- Entries with their locks and a loader, shared by threads. Threads are named by `ι` and entries
by `κ`. -/
structure Machine (ι κ σ φ : Type) where
  cells : κ → Entry φ
  owner : κ → Option ι
  loader : σ
  doing : ι → Option (κ × Point φ)
  todo : ι → List (Call κ)
  log : List (κ × Deed φ) := []

namespace Machine

variable {ι κ : Type}

/-- Entries that nobody asked for yet, and threads with calls to make. -/
def start (keys : κ → String) (targets : κ → Target) (loader : σ) (program : ι → List (Call κ)) :
    Machine ι κ σ φ :=
  { cells := fun k ↦ { key := keys k, target := targets k }
    owner := fun _ ↦ none
    loader
    doing := fun _ ↦ none
    todo := program }

variable [DecidableEq κ]

/-- The lock of an entry after a thread used it. -/
def useLock (t : ι) (k : κ) (owner : κ → Option ι) : LockUse → κ → Option ι
  | .keep => owner
  | .take => Function.update owner k (some t)
  | .leave => Function.update owner k none

@[simp] theorem update_useLock (t : ι) (k : κ) (owner : κ → Option ι) (use : LockUse)
    (o : Option ι) :
    Function.update (useLock t k owner use) k o = Function.update owner k o := by
  cases use <;> simp [useLock]

/-- The locks of other entries are left alone. -/
theorem useLock_of_ne (t : ι) {k k' : κ} (owner : κ → Option ι) (use : LockUse) (hk : k' ≠ k) :
    useLock t k owner use k' = owner k' := by
  cases use <;> simp [useLock, hk]

/-- The lock of the entry after a step. -/
theorem useLock_between (t : ι) (k : κ) {owner : κ → Option ι} {before : Bool}
    (h : owner k = if before then some t else none) (after : Bool) :
    useLock t k owner (.between before after) =
      Function.update owner k (if after then some t else none) := by
  cases before <;> cases after
  · exact (Function.update_eq_self_iff.mpr h.symm).symm
  · rfl
  · rfl
  · exact (Function.update_eq_self_iff.mpr h.symm).symm

variable [DecidableEq ι]

/-- The machine after a step of a thread on an entry. -/
def apply (t : ι) (k : κ) (x : Effect σ φ) (m : Machine ι κ σ φ) : Machine ι κ σ φ :=
  { cells := Function.update m.cells k x.entry
    owner := useLock t k m.owner x.lock
    loader := x.loader
    doing := Function.update m.doing t (x.next.map (k, ·))
    todo := m.todo
    log := m.log ++ (x.deed.map (k, ·)).toList }

/-- The machine after a thread began a call. -/
def begin (t : ι) (call : Call κ) (others : List (Call κ)) (m : Machine ι κ σ φ) :
    Machine ι κ σ φ :=
  { m with
    doing := Function.update m.doing t (some call.start)
    todo := Function.update m.todo t others }

/-- The machine after a call on an entry is over, with what the call made of the entry and the
loader. -/
def afterCall (t : ι) (k : κ) (e : Entry φ) (loader : σ) (deeds : List (Deed φ))
    (m : Machine ι κ σ φ) : Machine ι κ σ φ :=
  { cells := Function.update m.cells k e
    owner := Function.update m.owner k none
    loader
    doing := Function.update m.doing t none
    todo := m.todo
    log := m.log ++ deeds.map (k, ·) }

/-- The first step of a call is part of the call. -/
theorem afterCall_apply (t : ι) (k : κ) (x : Effect σ φ) (e : Entry φ) (loader : σ)
    (deeds : List (Deed φ)) (m : Machine ι κ σ φ) :
    (m.apply t k x).afterCall t k e loader deeds =
      m.afterCall t k e loader (x.deed.toList ++ deeds) := by
  cases hd : x.deed <;> simp [afterCall, apply, hd]

variable [Loader σ φ]

/-- One step of a thread. Nothing, if the thread has to wait or has no calls to make. -/
def step (t : ι) (m : Machine ι κ σ φ) : Option (Machine ι κ σ φ) :=
  match m.doing t with
  | some (k, point) =>
    (point.step (m.owner k).isNone (m.cells k) m.loader).map fun x ↦ m.apply t k x
  | none =>
    match m.todo t with
    | [] => none
    | call :: others => some (m.begin t call others)

theorem step_of_doing {t : ι} {m : Machine ι κ σ φ} {k : κ} {point : Point φ} {x : Effect σ φ}
    (hdoing : m.doing t = some (k, point))
    (hx : point.step (m.owner k).isNone (m.cells k) m.loader = some x) :
    m.step t = some (m.apply t k x) := by
  simp only [step, hdoing, hx, Option.map_some]

/-- Any number of steps, each by any thread. -/
abbrev Reaches : Machine ι κ σ φ → Machine ι κ σ φ → Prop :=
  Relation.ReflTransGen fun m m' ↦ ∃ t, m.step t = some m'

/-- The machine after steps of threads in order. A thread that has to wait misses its turn. -/
def follow (schedule : List ι) (m : Machine ι κ σ φ) : Machine ι κ σ φ :=
  schedule.foldl (fun m t ↦ (m.step t).getD m) m

theorem reaches_follow (schedule : List ι) (m : Machine ι κ σ φ) :
    m.Reaches (m.follow schedule) := reflTransGen_foldl step schedule m

/-- What was done to an entry, in order. -/
def history (k : κ) (m : Machine ι κ σ φ) : List (Deed φ) :=
  (m.log.filter fun note ↦ note.1 = k).map (·.2)

/-- All calls have returned. -/
def Finished (m : Machine ι κ σ φ) : Prop := ∀ t, m.doing t = none ∧ m.todo t = []

end Machine

/-! ### A thread alone -/

section Alone

variable [Loader σ φ]

/-- What a thread that is not disturbed makes of an entry and the loader, and what it does to the
entry on the way. -/
inductive Alone :
    Option (Point φ) → Entry φ → σ → Entry φ → σ → List (Deed φ) → Prop
  | done (e : Entry φ) (loader : σ) : Alone none e loader e loader []
  | quiet {point : Point φ} {e e' : Entry φ} {loader loader' : σ} {x : Effect σ φ}
      {deeds : List (Deed φ)} (hx : point.step true e loader = some x) (hd : x.deed = none)
      (h : Alone x.next x.entry x.loader e' loader' deeds) :
      Alone (some point) e loader e' loader' deeds
  | noted {point : Point φ} {e e' : Entry φ} {loader loader' : σ} {x : Effect σ φ}
      {deed : Deed φ} {deeds : List (Deed φ)} (hx : point.step true e loader = some x)
      (hd : x.deed = some deed) (h : Alone x.next x.entry x.loader e' loader' deeds) :
      Alone (some point) e loader e' loader' (deed :: deeds)

/-- Binding, with the check of the names taken together. -/
theorem Target.bind_eq (t : Target) (loader : σ) :
    t.bind loader =
      match t.file with
      | .error reason => (.error reason, loader)
      | .ok file =>
        match Loader.openModule file loader with
        | (.error reason, loader) => (.error reason, loader)
        | (.ok handle, loader) =>
          match Loader.resolve handle t.symbol loader with
          | (.error reason, loader) => (.error reason, Loader.close handle loader)
          | (.ok function, loader) => (.ok { handle, function, file }, loader) := by
  unfold Target.bind Target.file
  split <;> rfl

/-- **Configuring undisturbed** is `Entry.configure`. -/
theorem alone_configure (target : Target) (e : Entry φ) (loader : σ) :
    Alone (some (.acquireTarget target)) e loader (e.configure target).2 loader
      [if (e.configure target).1 then .taken target else .refused target] := by
  have hlast (e : Entry φ) : Alone (some .unlockTarget) e loader e loader [] :=
    .quiet rfl rfl (.done e loader)
  refine .quiet rfl rfl ?_
  cases h : e.state.isTerminal with
  | true =>
    have hcheck : (Point.check target).step true e loader =
        some { next := some .unlockTarget, entry := e, loader,
               deed := some (.refused target) } := by
      simp only [Point.step, h, if_true]
    simp only [Entry.configure, h, if_true, Bool.false_eq_true, if_false]
    exact .noted hcheck rfl (hlast e)
  | false =>
    have hcheck : (Point.check target).step true e loader =
        some { next := some (.write target), entry := e, loader } := by
      simp only [Point.step, h, Bool.false_eq_true, if_false]
    simp only [Entry.configure, h, Bool.false_eq_true, if_false, if_true]
    exact .quiet hcheck rfl (.noted rfl rfl (hlast _))

/-- What a thread does that publishes an outcome, from its last store on. -/
theorem alone_storeState (o : BindResult φ) (e : Entry φ) (loader : σ) :
    Alone (some (.storeState e.target o)) e loader { e with state := o.state } loader
      [.published o, .told (o.event e.key e.target), .answered o.function] :=
  .noted rfl rfl (.quiet rfl rfl (.noted rfl rfl (.noted rfl rfl (.done _ loader))))

/-- The requests that settling an entry makes for opening a file. -/
def openings (t : Target) : List (Deed φ) :=
  match t.file with
  | .ok file => [.opened file]
  | .error _ => []

/-- What a thread does that found the entry unresolved under the lock. -/
theorem alone_copyTarget {e : Entry φ} {loader loader' : σ} {o : BindResult φ}
    (ho : e.target.bind loader = (o, loader')) :
    Alone (some .copyTarget) e loader (o.settle e) loader'
      (openings e.target ++
        [.published o, .told (o.event e.key e.target), .answered o.function]) := by
  rw [Target.bind_eq] at ho
  -- There are four ends: no file, no module, no symbol, and a function.
  rcases hf : e.target.file with reason | file
  · have hcopy : Point.copyTarget.step true e loader =
        some { next := some (.storeState e.target (.error reason)), entry := e, loader } := by
      simp only [Point.step, hf]
    simp only [hf, Prod.mk.injEq] at ho
    obtain ⟨rfl, rfl⟩ := ho
    simp only [openings, hf, List.nil_append]
    exact .quiet hcopy rfl (alone_storeState _ e loader)
  have hcopy : Point.copyTarget.step true e loader =
      some { next := some (.openModule e.target file), entry := e, loader } := by
    simp only [Point.step, hf]
  simp only [openings, hf, List.singleton_append]
  refine .quiet hcopy rfl ?_
  rcases hopen : Loader.openModule file loader with ⟨reason | handle, loader₁⟩
  · have hx : (Point.openModule e.target file).step true e loader =
        some
          { next := some (.storeState e.target (.error reason))
            entry := e
            loader := loader₁
            deed := some (.opened file) } := by
      simp only [Point.step, hopen]
    simp only [hf, hopen, Prod.mk.injEq] at ho
    obtain ⟨rfl, rfl⟩ := ho
    exact .noted hx rfl (alone_storeState _ e _)
  have hx : (Point.openModule e.target file).step true e loader =
      some
        { next := some (.resolve e.target file handle)
          entry := e
          loader := loader₁
          deed := some (.opened file) } := by
    simp only [Point.step, hopen]
  refine .noted hx rfl ?_
  rcases hres : Loader.resolve handle e.target.symbol loader₁ with ⟨reason | function, loader₂⟩
  · have hy : (Point.resolve e.target file handle).step true e loader₁ =
        some { next := some (.close e.target handle reason), entry := e, loader := loader₂ } := by
      simp only [Point.step, hres]
    simp only [hf, hopen, hres, Prod.mk.injEq] at ho
    obtain ⟨rfl, rfl⟩ := ho
    exact .quiet hy rfl (.quiet rfl rfl (alone_storeState _ e _))
  · have hy : (Point.resolve e.target file handle).step true e loader₁ =
        some
          { next := some (.storeHandle e.target { handle, function, file })
            entry := e
            loader := loader₂ } := by
      simp only [Point.step, hres]
    simp only [hf, hopen, hres, Prod.mk.injEq] at ho
    obtain ⟨rfl, rfl⟩ := ho
    have hlast := alone_storeState (.ok ⟨handle, function, file⟩)
      { e with handle := some handle, function := some function } loader₂
    exact .quiet hy rfl (.quiet rfl rfl (.quiet rfl rfl hlast))

/-- What is done to an entry in a call that asks for its function. -/
def deedsOfGet (e : Entry φ) (loader : σ) : List (Deed φ) :=
  (if e.state.isTerminal then []
    else openings e.target ++ [.published (e.target.bind loader).1]) ++
    (e.get loader).event.toList.map .told ++ [.answered (e.get loader).function]

/-- **Asking undisturbed** is `Entry.get`. -/
theorem alone_get (e : Entry φ) (loader : σ) :
    Alone (some .loadState) e loader (e.get loader).entry (e.get loader).loader
      (deedsOfGet e loader) := by
  cases ht : e.state.isTerminal with
  | true =>
    have hload : Point.loadState.step true e loader =
        some { next := some .loadFunction, entry := e, loader } := by
      simp only [Point.step, ht, if_true]
    simp only [deedsOfGet, Entry.get_of_isTerminal ht, ht, if_true]
    exact .quiet hload rfl (.quiet rfl rfl (.noted rfl rfl (.done e loader)))
  | false =>
    have hu := State.isTerminal_eq_false_iff.mp ht
    have hload : Point.loadState.step true e loader =
        some { next := some .acquire, entry := e, loader } := by
      simp only [Point.step, ht, Bool.false_eq_true, if_false]
    have hrecheck : Point.recheckState.step true e loader =
        some { next := some .copyTarget, entry := e, loader } := by
      simp only [Point.step, ht, Bool.false_eq_true, if_false]
    refine .quiet hload rfl (.quiet rfl rfl (.quiet hrecheck rfl ?_))
    rcases hb : e.target.bind loader with ⟨o, loader'⟩
    have hcopy := alone_copyTarget hb
    rcases o with reason | b
    · simpa [deedsOfGet, ht, hb, Entry.get_of_bind_error hu hb, BindResult.settle, BindResult.event,
        BindResult.function] using hcopy
    · simpa [deedsOfGet, ht, hb, Entry.get_of_bind_ok hu hb, BindResult.settle, BindResult.event,
        BindResult.function] using hcopy

namespace Machine

variable {ι κ : Type} [DecidableEq ι] [DecidableEq κ]

/-- Whether the lock is free makes no difference to a thread that has it. -/
theorem step_of_holds {point : Point φ} (hh : point.holds = true) (free free' : Bool) (e : Entry φ)
    (loader : σ) : point.step free e loader = point.step free' e loader := by
  cases point with
  | acquire | acquireTarget => cases hh
  | _ => rfl

section

variable {m : Machine ι κ σ φ} {t : ι} {k : κ} {e e' : Entry φ} {loader loader' : σ}

/-- A step of a thread that no other thread stands in the way of. -/
theorem step_of_alone {point : Point φ} {x : Effect σ φ} (hx : point.step true e loader = some x)
    (hcell : m.cells k = e) (hloader : m.loader = loader) (hdoing : m.doing t = some (k, point))
    (howner : m.owner k = if point.holds then some t else none) :
    m.step t = some (m.apply t k x) := by
  have hstep : point.step (m.owner k).isNone (m.cells k) m.loader = some x := by
    rw [hcell, hloader]
    cases hh : point.holds with
    | true => rw [step_of_holds hh _ true, hx]
    | false =>
      rw [howner, hh]
      exact hx
  exact step_of_doing hdoing hstep

theorem owner_apply {free : Bool} {point : Point φ} {x : Effect σ φ}
    (hx : point.step free e loader = some x)
    (howner : m.owner k = if point.holds then some t else none) :
    (m.apply t k x).owner =
      Function.update m.owner k (if x.next.any Point.holds then some t else none) := by
  rw [apply, Point.lock_of_step hx, useLock_between t k howner]

/-- **A machine in which only one thread moves** gets to where that thread alone gets. -/
theorem reaches_of_alone {next : Option (Point φ)} {deeds : List (Deed φ)}
    (h : Alone next e loader e' loader' deeds) (hcell : m.cells k = e) (hloader : m.loader = loader)
    (hdoing : m.doing t = next.map (k, ·))
    (howner : m.owner k = if next.any Point.holds then some t else none) :
    m.Reaches (m.afterCall t k e' loader' deeds) := by
  -- By induction on what the thread does alone, the machine having taken the first step.
  induction h generalizing m with
  | done e loader =>
    obtain ⟨cells, owner, _, doing, todo, log⟩ := m
    dsimp only [afterCall] at hcell hloader hdoing howner ⊢
    rw [Function.update_eq_self_iff.mpr hcell.symm, Function.update_eq_self_iff.mpr howner.symm,
      Function.update_eq_self_iff.mpr hdoing.symm, hloader, List.map_nil, List.append_nil]
  | @quiet point e e' loader loader' x deeds hx hd h ih =>
    have hrest := ih (m := m.apply t k x) (by simp [apply]) rfl (by simp [apply])
      (by rw [owner_apply hx howner, Function.update_self])
    rw [afterCall_apply, hd, Option.toList_none, List.nil_append] at hrest
    exact .head ⟨t, step_of_alone hx hcell hloader hdoing howner⟩ hrest
  | @noted point e e' loader loader' x deed deeds hx hd h ih =>
    have hrest := ih (m := m.apply t k x) (by simp [apply]) rfl (by simp [apply])
      (by rw [owner_apply hx howner, Function.update_self])
    rw [afterCall_apply, hd, Option.toList_some, List.singleton_append] at hrest
    exact .head ⟨t, step_of_alone hx hcell hloader hdoing howner⟩ hrest

end

end Machine

end Alone

end Interpose
