import Interpose.Operation

/-!
# Ledgers

A **ledger** is a loader that also writes down which handles it gave out and which it got back. What
it answers is what the loader under it answers, so a host over a ledger does the same as a host over
that loader: `Ledger.run_base` says so for whole runs.

The argument is about any map between loaders that all three operations respect (`LoaderMap`). A
host uses its loader through these operations only, so such a map carries every step of a host to
the corresponding step (`Host.perform_mapLoader`).
-/

namespace Interpose

variable {σ τ φ : Type}

/-! ### Maps between loaders -/

/-- A map between loaders that every operation respects. -/
structure LoaderMap [Loader σ φ] [Loader τ φ] (f : σ → τ) : Prop where
  openModule : ∀ file loader,
    Loader.openModule file (f loader) = Prod.map id f (Loader.openModule file loader)
  resolve : ∀ handle symbol loader,
    Loader.resolve handle symbol (f loader) = Prod.map id f (Loader.resolve handle symbol loader)
  close : ∀ handle loader,
    Loader.close handle (f loader) = f (Loader.close handle loader)

/-- What an entry answered, with the loader mapped. -/
def Resolved.mapLoader (f : σ → τ) (r : Resolved σ φ) : Resolved τ φ :=
  { r with loader := f r.loader }

/-- What a registry was resolved to, with the loader mapped. -/
def Registry.Resolved.mapLoader (f : σ → τ) (r : Registry.Resolved σ φ) :
    Registry.Resolved τ φ :=
  { r with loader := f r.loader }

/-- A host with its loader mapped. -/
def Host.mapLoader (f : σ → τ) (h : Host σ φ) : Host τ φ := { h with loader := f h.loader }

/-- A step with the loader of its host mapped. -/
def Step.mapLoader {α : Type} (f : σ → τ) (s : Step σ φ α) : Step τ φ α :=
  { s with host := s.host.mapLoader f }

namespace Host

/-- Loading a table asks no loader for anything, so that any map will do, here and in the two lemmas
that follow. -/
theorem loadConfig_mapLoader (f : σ → τ) (file : TableFile) (h : Host σ φ) :
    (h.mapLoader f).loadConfig file = (h.loadConfig file).mapLoader f := by
  simp only [Host.loadConfig, Host.mapLoader]
  cases Table.load h.policy file <;> rfl

theorem init_mapLoader (f : σ → τ) (file : Option TableFile) (h : Host σ φ) :
    (h.mapLoader f).init file = (h.init file).mapLoader f := by
  unfold Host.init
  rw [show (h.mapLoader f).registry = h.registry from rfl]
  cases h.registry.validate with
  | error e => rfl
  | ok =>
    cases file with
    | none => rfl
    | some file =>
      dsimp only
      rw [loadConfig_mapLoader]
      rfl

theorem loadHook_mapLoader (f : σ → τ) (file : Option TableFile) (h : Host σ φ) :
    (h.mapLoader f).loadHook file = (h.loadHook file).mapLoader f := by
  have hs : (h.mapLoader f).enterLoaded = h.enterLoaded.mapLoader f := rfl
  rw [Host.loadHook, Host.loadHook, hs]
  by_cases hr : h.enterLoaded.result = true
  · rw [if_pos hr, if_pos (show (h.enterLoaded.mapLoader f).result = true from hr)]
    dsimp only [Step.mapLoader]
    rw [init_mapLoader]
    rfl
  · rw [if_neg hr, if_neg (show ¬(h.enterLoaded.mapLoader f).result = true from hr)]
    rfl

end Host

section LoaderMap

variable [Loader σ φ] [Loader τ φ] {f : σ → τ}

/-- **Binding a target** asks the loader for up to three things. Each of them is carried over, and
each is asked of the loader that the one before has left. -/
theorem Target.bind_map (hf : LoaderMap (φ := φ) f) (t : Target) (loader : σ) :
    t.bind (f loader) = Prod.map id f (t.bind loader) := by
  unfold Target.bind
  split
  · rfl
  · cases moduleFileName t.library with
    | error reason => rfl
    | ok file =>
      dsimp only
      rw [hf.openModule]
      rcases Loader.openModule file loader with ⟨reason | handle, loader'⟩
      · rfl
      · -- The loader that is asked for the symbol is the one that the opening left.
        dsimp only [Prod.map, id]
        rw [hf.resolve]
        rcases Loader.resolve handle t.symbol loader' with ⟨reason | function, loader''⟩
        · dsimp only [Prod.map, id]
          rw [hf.close]
        · rfl

/-- A settled entry asks for nothing, and any other asks for its target. -/
theorem Entry.get_map (hf : LoaderMap (φ := φ) f) (e : Entry φ) (loader : σ) :
    e.get (f loader) = (e.get loader).mapLoader f := by
  unfold Entry.get
  split
  · rfl
  · rw [Target.bind_map hf]
    rcases e.target.bind loader with ⟨reason | b, loader'⟩ <;> rfl

/-- Entries are settled from one loader to the next, so the map is taken along. -/
theorem Registry.getAll_map (hf : LoaderMap (φ := φ) f) (es : List (Entry φ)) (loader : σ) :
    Registry.getAll es (f loader) = (Registry.getAll es loader).mapLoader f := by
  induction es generalizing loader with
  | nil => rfl
  | cons e es ih =>
    rw [Registry.getAll, Registry.getAll, Entry.get_map hf]
    dsimp only [Interpose.Resolved.mapLoader]
    rw [ih]
    rfl

/-- Entries close their handles from one loader to the next. -/
theorem Registry.releaseAll_map (hf : LoaderMap (φ := φ) f) (es : List (Entry φ)) (loader : σ) :
    Registry.releaseAll es (f loader) =
      ((Registry.releaseAll es loader).1, f (Registry.releaseAll es loader).2.1,
        (Registry.releaseAll es loader).2.2) := by
  induction es generalizing loader with
  | nil => rfl
  | cons e es ih =>
    rw [Registry.releaseAll, Registry.releaseAll]
    rcases e.release with ⟨- | handle, released⟩
    · simp only [ih]
    · simp only [hf.close, ih]

/-! ### Hosts over mapped loaders -/

namespace Host

theorem get_mapLoader (hf : LoaderMap (φ := φ) f) (i : Nat) (h : Host σ φ) :
    (h.mapLoader f).get i = (h.get i).mapLoader f := by
  unfold Host.get
  rw [show (h.mapLoader f).registry = h.registry from rfl]
  cases h.registry.entries[i]? with
  | none => rfl
  | some e =>
    dsimp only [Host.mapLoader]
    rw [Entry.get_map hf]
    rfl

theorem resolveAll_mapLoader (hf : LoaderMap (φ := φ) f) (h : Host σ φ) :
    (h.mapLoader f).resolveAll = h.resolveAll.mapLoader f := by
  simp only [Host.resolveAll, Registry.resolveAll, Host.mapLoader, Registry.getAll_map hf]
  rfl

theorem dispose_mapLoader (hf : LoaderMap (φ := φ) f) (h : Host σ φ) :
    (h.mapLoader f).dispose = h.dispose.mapLoader f := by
  simp only [Host.dispose, Registry.dispose, Host.mapLoader, Registry.releaseAll_map hf]
  rfl

/-- The unload hook is carried over: whether it takes effect is up to the phase, which no loader has
a part in. -/
theorem unloadHook_mapLoader (hf : LoaderMap (φ := φ) f) (h : Host σ φ) :
    (h.mapLoader f).unloadHook = h.unloadHook.mapLoader f := by
  have hs : (h.mapLoader f).enterUnloaded = h.enterUnloaded.mapLoader f := rfl
  rw [Host.unloadHook, Host.unloadHook, hs]
  by_cases hr : h.enterUnloaded.result = true
  · rw [if_pos hr, if_pos (show (h.enterUnloaded.mapLoader f).result = true from hr)]
    dsimp only [Step.mapLoader]
    rw [dispose_mapLoader hf]
    rfl
  · rw [if_neg hr, if_neg (show ¬(h.enterUnloaded.mapLoader f).result = true from hr)]
    rfl

/-- **A map between loaders carries steps to steps.** -/
theorem perform_mapLoader (hf : LoaderMap (φ := φ) f) (h : Host σ φ) (op : Operation) :
    (h.mapLoader f).perform op = (h.perform op).mapLoader f := by
  cases op with
  | configure i target =>
    simp only [perform, Host.configure, Host.mapLoader]
    cases h.registry.entries[i]? <;> rfl
  | applyTable t => rfl
  | loadConfig file =>
    simp only [perform, loadConfig_mapLoader]
    rfl
  | init file =>
    simp only [perform, init_mapLoader]
    rfl
  | get i =>
    simp only [perform, get_mapLoader hf]
    rfl
  | isOverridden i =>
    simp only [perform, Host.isOverridden, get_mapLoader hf]
    rfl
  | dispatch policy i =>
    simp only [perform, Host.dispatch, get_mapLoader hf]
    rfl
  | dispatchOrDefault i =>
    simp only [perform, Host.dispatchOrDefault, get_mapLoader hf]
    rfl
  | resolveAll =>
    simp only [perform, resolveAll_mapLoader hf]
    rfl
  | snapshot => rfl
  | info =>
    simp only [perform, Host.info, resolveAll_mapLoader hf]
    rfl
  | dispose =>
    simp only [perform, dispose_mapLoader hf]
    rfl
  | enterLoaded => rfl
  | enterUnloaded => rfl
  | loadHook file =>
    simp only [perform, loadHook_mapLoader]
    rfl
  | unloadHook =>
    simp only [perform, unloadHook_mapLoader hf]
    rfl

/-- **A map between loaders carries runs to runs.** -/
theorem run_mapLoader (hf : LoaderMap (φ := φ) f) (h : Host σ φ) (ops : List Operation) :
    (h.mapLoader f).run ops = (h.run ops).mapLoader f := by
  induction ops generalizing h with
  | nil => rfl
  | cons op ops ih =>
    rw [run, run, perform_mapLoader hf]
    dsimp only [Step.mapLoader]
    rw [ih]
    rfl

end Host

end LoaderMap

/-! ### Ledgers -/

/-- A loader with the handles that it gave out and those that it got back, in order. -/
structure Ledger (σ : Type) where
  base : σ
  given : List Handle := []
  returned : List Handle := []

namespace Ledger

variable [Loader σ φ]

/-- The ledger after an attempt to open a file. -/
def openModule (file : String) (ledger : Ledger σ) : Except BindError Handle × Ledger σ :=
  match Loader.openModule file ledger.base with
  | (.ok handle, base) => (.ok handle, { ledger with base, given := ledger.given ++ [handle] })
  | (.error reason, base) => (.error reason, { ledger with base })

/-- The ledger after an attempt to find a symbol. -/
def resolve (handle : Handle) (symbol : String) (ledger : Ledger σ) :
    Except BindError φ × Ledger σ :=
  let (found, base) := Loader.resolve handle symbol ledger.base
  (found, { ledger with base })

/-- The ledger after a module was closed. -/
def close (handle : Handle) (ledger : Ledger σ) : Ledger σ :=
  { ledger with base := Loader.close handle ledger.base, returned := ledger.returned ++ [handle] }

instance : Loader (Ledger σ) φ where
  openModule := openModule
  resolve := resolve
  close := close

/-- An attempt that succeeds is entered as a handle that was given. -/
theorem openModule_of_ok {file : String} {ledger : Ledger σ} {handle : Handle} {base : σ}
    (h : Loader.openModule file ledger.base = (.ok handle, base)) :
    ledger.openModule file =
      (.ok handle, { ledger with base, given := ledger.given ++ [handle] }) := by
  simp only [openModule, h]

/-- An attempt that fails is not entered. -/
theorem openModule_of_error {file : String} {ledger : Ledger σ} {reason : BindError} {base : σ}
    (h : Loader.openModule file ledger.base = (.error reason, base)) :
    ledger.openModule file = (.error reason, { ledger with base }) := by
  simp only [openModule, h]

/-- A ledger answers like the loader under it. -/
theorem loaderMap_base : LoaderMap (φ := φ) (Ledger.base : Ledger σ → σ) where
  openModule file ledger := by
    show Loader.openModule file ledger.base = Prod.map id base (ledger.openModule file)
    rw [openModule]
    rcases Loader.openModule file ledger.base with ⟨_ | _, _⟩ <;> rfl
  resolve _ _ _ := rfl
  close _ _ := rfl

/-- **Keeping a ledger changes nothing**: neither an answer nor what becomes of the host. -/
theorem run_base (h : Host (Ledger σ) φ) (ops : List Operation) :
    (h.mapLoader base).run ops = (h.run ops).mapLoader base :=
  Host.run_mapLoader loaderMap_base h ops

end Ledger

end Interpose
