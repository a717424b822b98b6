import Interpose.Session

/-!
# Observation

A host's operation returns its events, and a session hands them to the observer when the operation
is over. Here the operations are written once more, so that an observer is told **at once**: in the
middle of a table, line by line, and in the middle of a resolution, as soon as an entry is settled.
What the operation goes on to do can then be compared with and without the observer, whatever the
telling does to it: what it counts, what its journal draws and what its sink refuses, and when.

`Host.runTelling_eq` says that nothing depends on it. The answers and the host are those of
`Host.run`, and the observer ends up as if it had been told of all events in order afterwards. It is
about anything that can be told of events; `Observer` is what a session has, with a clock that may
show any time at any event (`observation_harmless`).

The reports of the operations are counted here as the operations go along, and not from the events.
-/

namespace Interpose

variable {σ φ ω : Type}

/-! ### Steps with an observer -/

/-- The result of an operation, the host after it, and the observer that was told meanwhile. -/
structure Told (σ φ ω α : Type) where
  result : α
  host : Host σ φ
  observer : ω

namespace Told

/-- The step with its result changed. -/
def map {α β : Type} (f : α → β) (s : Told σ φ ω α) : Told σ φ ω β :=
  { s with result := f s.result }

/-- A step during which nothing is told. -/
def silent {α : Type} (s : Step σ φ α) (o : ω) : Told σ φ ω α := ⟨s.result, s.host, o⟩

end Told

/-- A step whose events are told afterwards. -/
def Step.tellTo {α : Type} (tell : ω → Event → ω) (o : ω) (s : Step σ φ α) : Told σ φ ω α :=
  ⟨s.result, s.host, s.events.foldl tell o⟩

section Telling

variable (tell : ω → Event → ω)

/-! ### Telling while a table is applied -/

/-- How far the application of a table has come: the keys configured and the number of lines for
unknown keys so far. -/
structure Applying (φ : Type) where
  registry : Registry φ
  configured : List String := []
  unknown : Nat := 0

namespace Applying

/-- One more line. -/
def line (a : Applying φ) (l : Table.Line) (o : ω) : Applying φ × ω :=
  let key := l.assignment.key
  match Registry.configureFirst key l.assignment.target a.registry.entries with
  | none => ({ a with unknown := a.unknown + 1 }, tell o (.unknownKey key l.number))
  | some (true, entries) =>
    ({ a with registry := ⟨entries⟩, configured := a.configured ++ [key] },
      tell o (.configured key l.assignment.target))
  | some (false, _) => (a, o)

/-- Lines in order. -/
def lines (a : Applying φ) : List Table.Line → ω → Applying φ × ω
  | [], o => (a, o)
  | l :: ls, o =>
    let (next, o) := a.line tell l o
    next.lines ls o

end Applying

/-! ### Telling while entries are settled -/

/-- `Entry.get`, the observer being told as soon as the entry is settled. -/
def Entry.getTelling [Loader σ φ] (e : Entry φ) (loader : σ) (o : ω) :
    Option φ × Entry φ × σ × ω :=
  match e.settled? with
  | some function => (function, e, loader, o)
  | none =>
    match e.target.bind loader with
    | (.ok b, loader) =>
      (some b.function, e.bindTo b.handle b.function, loader,
        tell o (.bound e.key b.file e.target.symbol))
    | (.error reason, loader) =>
      (none, e.fail reason, loader, tell o (.bindFailed e.key e.target reason))

/-- `Registry.getAll`, the observer being told after each entry, and the number of failed ones. -/
def getAllTelling [Loader σ φ] : List (Entry φ) → σ → ω → List (Entry φ) × σ × Nat × ω
  | [], loader, o => ([], loader, 0, o)
  | e :: es, loader, o =>
    let (_, first, loader, o) := e.getTelling tell loader o
    let (others, loader, failed, o) := getAllTelling es loader o
    (first :: others, loader, failed + if first.state.failure?.isSome then 1 else 0, o)

/-! ### Telling during operations -/

namespace Host

/-- `Host.applyTable`, the observer being told after each line. -/
def applyTableTelling (t : Table) (h : Host σ φ) (o : ω) : Told σ φ ω InitReport :=
  let (a, o) := ({ registry := h.registry } : Applying φ).lines tell t.lines o
  { result := .configured a.configured.eraseDups.length a.unknown t.skipped.length
    host := { h with registry := a.registry }
    observer := o }

/-- `Host.loadConfig` with an observer. -/
def loadConfigTelling (file : TableFile) (h : Host σ φ) (o : ω) :
    Told σ φ ω (Except ConfigError InitReport) :=
  match Table.load h.policy file with
  | .ok t => (h.applyTableTelling tell t o).map .ok
  | .error e => ⟨.error e, h, o⟩

/-- `Host.init` with an observer. -/
def initTelling (file : Option TableFile) (h : Host σ φ) (o : ω) :
    Told σ φ ω (Except RegistryError InitReport) :=
  match h.registry.validate, file with
  | .error e, _ => ⟨.error e, h, o⟩
  | .ok (), none => ⟨.ok .configMissing, h, o⟩
  | .ok (), some file =>
    (h.loadConfigTelling tell file o).map fun
      | .ok report => .ok report
      | .error _ => .ok .configMissing

/-- `Host.loadHook` with an observer. -/
def loadHookTelling (file : Option TableFile) (h : Host σ φ) (o : ω) : Told σ φ ω LoadOutcome :=
  let s := h.enterLoaded
  if s.result then
    (s.host.initTelling tell file o).map fun
      | .ok report => ⟨true, some report⟩
      | .error _ => ⟨true, none⟩
  else ⟨⟨false, none⟩, s.host, o⟩

/-- `Host.get` with an observer. -/
def getTelling [Loader σ φ] (i : Nat) (h : Host σ φ) (o : ω) : Told σ φ ω (Option φ) :=
  match h.registry.entries[i]? with
  | none => ⟨none, h, o⟩
  | some e =>
    let (function, e, loader, o) := e.getTelling tell h.loader o
    ⟨function, { h with registry := ⟨h.registry.entries.set i e⟩, loader }, o⟩

/-- `Host.resolveAll` with an observer. -/
def resolveAllTelling [Loader σ φ] (h : Host σ φ) (o : ω) : Told σ φ ω Nat :=
  let (entries, loader, failed, o) := Interpose.getAllTelling tell h.registry.entries h.loader o
  ⟨failed, { h with registry := ⟨entries⟩, loader }, o⟩

/-- `Host.perform` with an observer. The operations that are not listed tell nothing. -/
def performTelling [Loader σ φ] (h : Host σ φ) (o : ω) : Operation → Told σ φ ω (Answer φ)
  | .applyTable t => (h.applyTableTelling tell t o).map .applied
  | .loadConfig file => (h.loadConfigTelling tell file o).map .loaded
  | .init file => (h.initTelling tell file o).map .initialized
  | .get i => (h.getTelling tell i o).map .function
  | .isOverridden i => (h.getTelling tell i o).map fun f ↦ .verdict f.isSome
  | .dispatch policy i =>
    let s := h.getTelling tell i o
    s.map fun f ↦ .choice (policy.choose (s.host.stateAt i) f)
  | .dispatchOrDefault i => (h.getTelling tell i o).map fun f ↦ .choice (.ok (.ofFunction f))
  | .resolveAll => (h.resolveAllTelling tell o).map .count
  | .info =>
    let s := h.resolveAllTelling tell o
    s.map fun _ ↦ .report (.ofRegistry s.host.registry)
  | .loadHook file => (h.loadHookTelling tell file o).map .hooked
  | op => .silent (h.perform op) o

/-- `Host.run` with an observer. -/
def runTelling [Loader σ φ] (h : Host σ φ) (o : ω) :
    List Operation → Told σ φ ω (List (Answer φ))
  | [] => ⟨[], h, o⟩
  | op :: ops =>
    let first := h.performTelling tell o op
    let others := first.host.runTelling first.observer ops
    others.map (first.result :: ·)

end Host

/-! ### Operations that tell nothing -/

/-- Whether an operation is of a kind that tells nothing. -/
def Operation.isQuiet : Operation → Bool
  | .configure .. | .snapshot | .dispose | .enterLoaded | .enterUnloaded | .unloadHook => true
  | _ => false

theorem Host.events_perform_of_isQuiet [Loader σ φ] {op : Operation} (hop : op.isQuiet = true)
    (h : Host σ φ) : (h.perform op).events = [] := by
  cases op with
  | configure i target =>
    show (h.configure i target).events = []
    rw [configure]
    cases h.registry.entries[i]? <;> rfl
  | snapshot | dispose | enterLoaded | enterUnloaded => rfl
  | unloadHook =>
    show h.unloadHook.events = []
    rw [unloadHook]
    cases h.enterUnloaded.result <;> rfl
  | _ => cases hop

theorem Step.tellTo_of_events_eq_nil {α : Type} {s : Step σ φ α} (hs : s.events = []) (o : ω) :
    s.tellTo tell o = .silent s o := by
  rw [tellTo, hs]
  rfl

/-! ### Telling at once is telling afterwards -/

/-- A line is told of as it is applied, or afterwards: the registry takes the same line and the
observer hears the same event. The counts are those of the line's event. -/
theorem Applying.line_eq (a : Applying φ) (l : Table.Line) (o : ω) :
    a.line tell l o =
      ({ registry := (a.registry.applyLine l).1
         configured := a.configured ++ InitReport.configuredKeys (a.registry.applyLine l).2.toList
         unknown := a.unknown + InitReport.unknownKeys (a.registry.applyLine l).2.toList },
        (a.registry.applyLine l).2.toList.foldl tell o) := by
  rw [Applying.line, Registry.applyLine]
  rcases Registry.configureFirst l.assignment.key l.assignment.target a.registry.entries with
    _ | ⟨_ | _, entries⟩ <;> simp [InitReport.configuredKeys, InitReport.unknownKeys]

/-- **The lines of a table**, by induction on the lines. The observer may be told after each of them
or of all events in the end. -/
theorem Applying.lines_eq (a : Applying φ) (ls : List Table.Line) (o : ω) :
    a.lines tell ls o =
      ({ registry := (a.registry.applyLines ls).1
         configured := a.configured ++ InitReport.configuredKeys (a.registry.applyLines ls).2
         unknown := a.unknown + InitReport.unknownKeys (a.registry.applyLines ls).2 },
        (a.registry.applyLines ls).2.foldl tell o) := by
  induction ls generalizing a o with
  | nil => simp [Applying.lines, Registry.applyLines, InitReport.configuredKeys,
      InitReport.unknownKeys]
  | cons l ls ih =>
    rw [Applying.lines, Applying.line_eq]
    dsimp only
    rw [ih]
    simp [Registry.applyLines, InitReport.configuredKeys, InitReport.unknownKeys,
      List.filterMap_append, Nat.add_assoc]

/-- The event of a resolution is the one that the observer was told, if any. -/
theorem Entry.getTelling_eq [Loader σ φ] (e : Entry φ) (loader : σ) (o : ω) :
    e.getTelling tell loader o =
      ((e.get loader).function, (e.get loader).entry, (e.get loader).loader,
        (e.get loader).event.toList.foldl tell o) := by
  rw [Entry.getTelling, Entry.get]
  cases e.settled? with
  | some function => rfl
  | none => rcases e.target.bind loader with ⟨reason | b, loader'⟩ <;> rfl

/-- **The entries of a registry**, by induction on the entries. What was counted along the way is
the number of entries that are left in failure. -/
theorem getAllTelling_eq [Loader σ φ] (es : List (Entry φ)) (loader : σ) (o : ω) :
    getAllTelling tell es loader o =
      ((Registry.getAll es loader).registry.entries, (Registry.getAll es loader).loader,
        (Registry.getAll es loader).registry.failures,
        (Registry.getAll es loader).events.foldl tell o) := by
  induction es generalizing loader o with
  | nil => rfl
  | cons e es ih =>
    rw [getAllTelling, Entry.getTelling_eq]
    dsimp only
    rw [ih]
    simp [Registry.getAll, Registry.failures, List.countP_cons]

namespace Host

/-- The report of a table holds the same counts, whether they are taken along the way or off the
events. -/
theorem applyTableTelling_eq (t : Table) (h : Host σ φ) (o : ω) :
    h.applyTableTelling tell t o = (h.applyTable t).tellTo tell o := by
  rw [applyTableTelling, Applying.lines_eq]
  simp [applyTable, Step.tellTo, InitReport.ofEvents]

/-- A table that cannot be loaded is told of by neither. -/
theorem loadConfigTelling_eq (file : TableFile) (h : Host σ φ) (o : ω) :
    h.loadConfigTelling tell file o = (h.loadConfig file).tellTo tell o := by
  rw [loadConfigTelling, loadConfig]
  cases Table.load h.policy file with
  | ok t =>
    dsimp only
    rw [applyTableTelling_eq]
    rfl
  | error e => rfl

/-- Initialization tells of a table that was loaded, and a registry that is refused or a table that
is missing is not told of. -/
theorem initTelling_eq (file : Option TableFile) (h : Host σ φ) (o : ω) :
    h.initTelling tell file o = (h.init file).tellTo tell o := by
  unfold initTelling init
  cases h.registry.validate with
  | error e => rfl
  | ok =>
    cases file with
    | none => rfl
    | some file =>
      dsimp only
      rw [loadConfigTelling_eq]
      rfl

/-- The load hook tells what its initialization tells, if it takes effect. -/
theorem loadHookTelling_eq (file : Option TableFile) (h : Host σ φ) (o : ω) :
    h.loadHookTelling tell file o = (h.loadHook file).tellTo tell o := by
  rw [loadHookTelling, loadHook]
  by_cases hr : h.enterLoaded.result = true
  · rw [if_pos hr, if_pos hr, initTelling_eq]
    rfl
  · rw [if_neg hr, if_neg hr]
    rfl

variable [Loader σ φ]

theorem getTelling_eq (i : Nat) (h : Host σ φ) (o : ω) :
    h.getTelling tell i o = (h.get i).tellTo tell o := by
  rw [getTelling, get]
  cases h.registry.entries[i]? with
  | none => rfl
  | some e =>
    dsimp only
    rw [Entry.getTelling_eq]
    rfl

theorem resolveAllTelling_eq (h : Host σ φ) (o : ω) :
    h.resolveAllTelling tell o = h.resolveAll.tellTo tell o := by
  rw [resolveAllTelling, getAllTelling_eq]
  rfl

/-- **One operation.** -/
theorem performTelling_eq (h : Host σ φ) (o : ω) (op : Operation) :
    h.performTelling tell o op = (h.perform op).tellTo tell o := by
  cases op with
  | applyTable t => simp only [performTelling, applyTableTelling_eq]; rfl
  | loadConfig file => simp only [performTelling, loadConfigTelling_eq]; rfl
  | init file => simp only [performTelling, initTelling_eq]; rfl
  | get i => simp only [performTelling, getTelling_eq]; rfl
  | isOverridden i => simp only [performTelling, getTelling_eq]; rfl
  | dispatch policy i => simp only [performTelling, getTelling_eq]; rfl
  | dispatchOrDefault i => simp only [performTelling, getTelling_eq]; rfl
  | resolveAll => simp only [performTelling, resolveAllTelling_eq]; rfl
  | info => simp only [performTelling, resolveAllTelling_eq]; rfl
  | loadHook file => simp only [performTelling, loadHookTelling_eq]; rfl
  -- These are performed as they are, so it matters that there is nothing to tell afterwards.
  | configure | snapshot | dispose | enterLoaded | enterUnloaded | unloadHook =>
    exact (Step.tellTo_of_events_eq_nil tell (h.events_perform_of_isQuiet rfl) o).symm

/-- **A run**: telling an observer at once comes to the same as telling it afterwards. -/
theorem runTelling_eq (h : Host σ φ) (o : ω) (ops : List Operation) :
    h.runTelling tell o ops = (h.run ops).tellTo tell o := by
  induction ops generalizing h o with
  | nil => rfl
  | cons op ops ih =>
    rw [runTelling, performTelling_eq, ih]
    simp [Step.tellTo, Told.map, run, List.foldl_append]

end Host

end Telling

/-! ### The observers of sessions -/

/-- An observer counts the events and records each of them in a journal, at whatever time the clock
shows for the event of that number. -/
structure Observer where
  stats : Stats := {}
  journal : Journal
  clock : Nat → Instant

namespace Observer

/-- The observer after it was told of an event. -/
def tell (o : Observer) (e : Event) : Observer :=
  { o with
    stats := o.stats.count e
    journal := o.journal.notify (o.clock o.stats.total) e }

/-- Tells an observer, if there is one. -/
def tell? (watcher : Option Observer) (e : Event) : Option Observer := watcher.map (·.tell e)

@[simp] theorem foldl_tell?_none (events : List Event) : events.foldl tell? none = none := by
  induction events with
  | nil => rfl
  | cons e events ih => exact ih

@[simp] theorem foldl_tell?_some (o : Observer) (events : List Event) :
    events.foldl tell? (some o) = some (events.foldl tell o) := by
  induction events generalizing o with
  | nil => rfl
  | cons e events ih => exact ih (o.tell e)

end Observer

namespace Session

/-- The observer of a session, if it is attached. -/
def observer? (s : Session σ φ) : Option Observer :=
  if s.observed then some { stats := s.stats, journal := s.journal, clock := fun _ ↦ s.clock }
  else none

/-- A session that is observed hands the events on to its observer, one by one. -/
theorem observer?_foldl_observe {s : Session σ φ} (hs : s.observed = true) (events : List Event) :
    (events.foldl observe s).observer? = events.foldl Observer.tell? s.observer? := by
  induction events generalizing s with
  | nil => rfl
  | cons e events ih =>
    rw [List.foldl_cons, List.foldl_cons, ih (s := s.observe e) hs]
    simp [observer?, hs, observe, Observer.tell?, Observer.tell]

variable [Loader σ φ]

/-- One operation leaves the session with the host and the observer that it leaves behind when the
observer is told at once. -/
theorem perform_eq (s : Session σ φ) (op : Operation) :
    (s.perform op).1 = (s.host.perform op).result ∧
      (s.perform op).2.1.host = (s.host.perform op).host ∧
      (s.perform op).2.1.observer? =
        (s.host.perform op).events.foldl Observer.tell? s.observer? := by
  refine ⟨rfl, host_foldl_observe _ _, ?_⟩
  rw [perform, visible]
  by_cases hs : s.observed = true
  · rw [if_pos hs]
    exact observer?_foldl_observe (s := { s with host := (s.host.perform op).host }) hs _
  · simp [observer?, hs]

/-- **A session is a run of its host**: the answers and the host are those of the run, and the
observer is told of the run's events in order. -/
theorem run_eq (s : Session σ φ) (ops : List Operation) :
    (s.run ops).1 = (s.host.run ops).result ∧ (s.run ops).2.host = (s.host.run ops).host ∧
      (s.run ops).2.observer? = (s.host.run ops).events.foldl Observer.tell? s.observer? := by
  induction ops generalizing s with
  | nil => exact ⟨rfl, rfl, rfl⟩
  | cons op ops ih =>
    obtain ⟨hresult, hhost, hobserver⟩ := s.perform_eq op
    obtain ⟨hresults, hlast, hobservers⟩ := ih (s.perform op).2.1
    rw [hhost] at hresults hlast hobservers
    rw [hobserver] at hobservers
    refine ⟨?_, hlast, hobservers.trans ?_⟩
    · rw [Host.run, ← hresult, ← hresults]
      rfl
    · rw [Host.run, List.foldl_append]

end Session

/-- **Observation is harmless**, after any number of operations of any run.

Two runs of one host, watched by any observers or by none, give the same answers and leave the same
host behind: the same keys, targets, states, handles and functions of its entries, and the same
loader, with all that it counts. The observers may differ in what they counted so far, in their runs
and clocks, and in what their sinks refuse, and they are told of each event as soon as it happens.
A session with that host answers the same, and its observer, if it is attached, ends up as one that
is told at once. -/
theorem observation_harmless [Loader σ φ] (h : Host σ φ) (watcher watcher' : Option Observer)
    (ops : List Operation) (n : Nat) :
    let told := h.runTelling Observer.tell? watcher (ops.take n)
    let told' := h.runTelling Observer.tell? watcher' (ops.take n)
    told.result = told'.result ∧ told.host = told'.host ∧
      ∀ s : Session σ φ,
        let ended := Session.run { s with host := h } (ops.take n)
        ended.1 = told.result ∧ ended.2.host = told.host ∧
          ended.2.observer? = (h.runTelling Observer.tell? s.observer? (ops.take n)).observer := by
  intro told told'
  have htold : told = (h.run (ops.take n)).tellTo Observer.tell? watcher :=
    h.runTelling_eq Observer.tell? watcher _
  have htold' : told' = (h.run (ops.take n)).tellTo Observer.tell? watcher' :=
    h.runTelling_eq Observer.tell? watcher' _
  rw [htold, htold']
  refine ⟨rfl, rfl, fun s ↦ ?_⟩
  rw [h.runTelling_eq]
  exact Session.run_eq { s with host := h } (ops.take n)

end Interpose
