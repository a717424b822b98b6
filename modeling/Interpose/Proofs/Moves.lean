import Interpose.Operation
import Mathlib.Logic.Relation

/-!
# Moves

What a host does to its entries and to its loader comes down to two **moves**, each about a single
entry that is still unresolved: it is given a target, or it is settled by asking for its function.
Besides the moves there is only the release of all handles. So an invariant of the entries and the
loader has to be checked against two moves and one release, whatever operations there are.

* `Host.moves_perform` and `Host.holdings_perform_of_disposes` are the inversion: an operation is a
  sequence of moves, unless it is one that releases all handles (`Host.Disposes`).
* `Moves.exists_entry` turns moves into what becomes of the entry at an index.

That an operation on a settled entry moves nothing is not a case of its own: such an operation is an
empty sequence of moves.
-/

namespace Interpose

variable {σ φ : Type}

/-! ### Holdings -/

/-- The entries of a host with the loader they are resolved by. -/
structure Holdings (σ φ : Type) where
  entries : List (Entry φ)
  loader : σ

namespace Host

/-- The entries and the loader of a host. -/
def holdings (h : Host σ φ) : Holdings σ φ := ⟨h.registry.entries, h.loader⟩

/-- The host after operations in order. -/
def after [Loader σ φ] (h : Host σ φ) (ops : List Operation) : Host σ φ := (h.run ops).host

/-- The entry at an index. -/
def entryAt (i : Nat) (h : Host σ φ) : Option (Entry φ) := h.registry.entries[i]?

/-- A host of entries that were just created. -/
def fresh (keys : List String) (loader : σ) (policy : NamePolicy) : Host σ φ :=
  { registry := .ofKeys keys, loader, policy }

/-- Whether an operation releases all handles of a host. -/
def Disposes (h : Host σ φ) : Operation → Prop
  | .dispose => True
  | .unloadHook => h.phase = .loaded
  | _ => False

@[simp] theorem after_nil [Loader σ φ] (h : Host σ φ) : h.after [] = h := rfl

@[simp] theorem after_cons [Loader σ φ] (h : Host σ φ) (op : Operation) (ops : List Operation) :
    h.after (op :: ops) = (h.perform op).host.after ops := rfl

/-- Operations may be taken in two parts. -/
theorem after_append [Loader σ φ] (h : Host σ φ) (ops more : List Operation) :
    h.after (ops ++ more) = (h.after ops).after more := by
  induction ops generalizing h with
  | nil => rfl
  | cons op ops ih => exact ih (h.perform op).host

/-- What is done to the entry at an index is done between the entries before and after it. -/
theorem exists_append_of_entryAt {h : Host σ φ} {i : Nat} {e : Entry φ}
    (he : h.entryAt i = some e) :
    ∃ before after, h.registry.entries = before ++ e :: after ∧
      ∀ e', h.registry.entries.set i e' = before ++ e' :: after := by
  obtain ⟨hi, rfl⟩ := List.getElem?_eq_some_iff.mp he
  refine ⟨h.registry.entries.take i, h.registry.entries.drop (i + 1), ?_, fun e' ↦ ?_⟩
  · rw [List.getElem_cons_drop, List.take_append_drop]
  · rw [List.set_eq_take_append_cons_drop, if_pos hi]

/-- The unload hook takes effect just if a host is loaded. -/
theorem result_enterUnloaded_iff {h : Host σ φ} :
    h.enterUnloaded.result = true ↔ h.phase = .loaded :=
  HookPhase.enterUnloaded_accepted_iff

end Host

/-! ### Moves -/

/-- One unresolved entry is given a target, or is settled. -/
inductive Move [Loader σ φ] : Holdings σ φ → Holdings σ φ → Prop
  | configure (before after : List (Entry φ)) {e : Entry φ} {loader : σ} (target : Target)
      (unresolved : e.state = .unresolved) :
      Move ⟨before ++ e :: after, loader⟩ ⟨before ++ { e with target } :: after, loader⟩
  | settle (before after : List (Entry φ)) {e : Entry φ} {loader : σ}
      (unresolved : e.state = .unresolved) :
      Move ⟨before ++ e :: after, loader⟩
        ⟨before ++ (e.get loader).entry :: after, (e.get loader).loader⟩

/-- Moves one after the other. -/
abbrev Moves [Loader σ φ] : Holdings σ φ → Holdings σ φ → Prop := Relation.ReflTransGen Move

section Moves

variable [Loader σ φ]

/-- A move among the later entries of a list. -/
theorem Move.cons {es es' : List (Entry φ)} {loader loader' : σ}
    (h : Move ⟨es, loader⟩ ⟨es', loader'⟩) (e : Entry φ) :
    Move ⟨e :: es, loader⟩ ⟨e :: es', loader'⟩ := by
  -- The holdings are generalised, because a move speaks of them as wholes.
  generalize hx : (⟨es, loader⟩ : Holdings σ φ) = x at h
  generalize hy : (⟨es', loader'⟩ : Holdings σ φ) = y at h
  cases h with
  | configure before after target unresolved =>
    obtain ⟨rfl, rfl⟩ := Holdings.mk.inj hx
    obtain ⟨rfl, rfl⟩ := Holdings.mk.inj hy
    exact Move.configure (e :: before) after target unresolved
  | settle before after unresolved =>
    obtain ⟨rfl, rfl⟩ := Holdings.mk.inj hx
    obtain ⟨rfl, rfl⟩ := Holdings.mk.inj hy
    exact Move.settle (e :: before) after unresolved

/-- Moves among the later entries of a list. -/
theorem Moves.cons {es es' : List (Entry φ)} {loader loader' : σ}
    (h : Moves ⟨es, loader⟩ ⟨es', loader'⟩) (e : Entry φ) :
    Moves ⟨e :: es, loader⟩ ⟨e :: es', loader'⟩ :=
  Relation.ReflTransGen.lift (fun x : Holdings σ φ ↦ (⟨e :: x.entries, x.loader⟩ : Holdings σ φ))
    (fun _ _ hm ↦ Move.cons hm e) _ _ h

/-- Configuring the entry between two lists. -/
theorem Moves.configure (before after : List (Entry φ)) (e : Entry φ) (loader : σ)
    (target : Target) :
    Moves ⟨before ++ e :: after, loader⟩
      ⟨before ++ (e.configure target).2 :: after, loader⟩ := by
  rw [Entry.configure]
  cases h : e.state.isTerminal with
  | true => exact .refl
  | false => exact .single (.configure before after target (State.isTerminal_eq_false_iff.mp h))

/-- Asking the entry between two lists for its function. -/
theorem Moves.get (before after : List (Entry φ)) (e : Entry φ) (loader : σ) :
    Moves ⟨before ++ e :: after, loader⟩
      ⟨before ++ (e.get loader).entry :: after, (e.get loader).loader⟩ := by
  cases h : e.state.isTerminal with
  | true =>
    rw [Entry.get_of_isTerminal h]
  | false => exact .single (.settle before after (State.isTerminal_eq_false_iff.mp h))

/-! ### Settling -/

/-- An unresolved entry whose target can be bound is bound. -/
theorem Entry.get_of_bind_ok {e : Entry φ} {loader loader' : σ} {b : Binding φ}
    (hu : e.state = .unresolved) (hb : e.target.bind loader = (.ok b, loader')) :
    e.get loader =
      { function := some b.function
        entry := e.bindTo b.handle b.function
        loader := loader'
        event := some (.bound e.key b.file e.target.symbol) } := by
  simp [Entry.get, Entry.settled?, hu, State.isTerminal, hb]

/-- An unresolved entry whose target cannot be bound is failed. -/
theorem Entry.get_of_bind_error {e : Entry φ} {loader loader' : σ} {reason : BindError}
    (hu : e.state = .unresolved) (hb : e.target.bind loader = (.error reason, loader')) :
    e.get loader =
      { function := none
        entry := e.fail reason
        loader := loader'
        event := some (.bindFailed e.key e.target reason) } := by
  simp [Entry.get, Entry.settled?, hu, State.isTerminal, hb]

/-- The function that an entry answers with is the one it holds from then on. -/
theorem Entry.function_get {e : Entry φ} (hn : e.state = .unresolved → e.function = none)
    (loader : σ) : (e.get loader).function = (e.get loader).entry.function := by
  cases h : e.state.isTerminal with
  | true => rw [Entry.get_of_isTerminal h]
  | false =>
    have hu := State.isTerminal_eq_false_iff.mp h
    rcases hb : e.target.bind loader with ⟨reason | b, loader'⟩
    · rw [Entry.get_of_bind_error hu hb]
      exact (hn hu).symm
    · rw [Entry.get_of_bind_ok hu hb]
      rfl

/-! ### Operations as moves -/

/-- One entry is configured, the first with the key. -/
theorem moves_configureFirst {key : String} {target : Target} {taken : Bool} (loader : σ) :
    ∀ {es es' : List (Entry φ)}, Registry.configureFirst key target es = some (taken, es') →
      Moves ⟨es, loader⟩ ⟨es', loader⟩
  | [], _, h => by simp [Registry.configureFirst] at h
  | e :: es, es', h => by
    rw [Registry.configureFirst] at h
    split at h
    · obtain ⟨-, rfl⟩ := Prod.mk.inj (Option.some.inj h)
      exact Moves.configure [] es e loader target
    · obtain ⟨⟨b, ds⟩, hd, hp⟩ := Option.map_eq_some_iff.mp h
      obtain ⟨rfl, rfl⟩ := Prod.mk.inj hp
      exact (moves_configureFirst loader hd).cons e

theorem moves_applyLine (r : Registry φ) (line : Table.Line) (loader : σ) :
    Moves ⟨r.entries, loader⟩ ⟨(r.applyLine line).1.entries, loader⟩ := by
  unfold Registry.applyLine
  dsimp only
  split
  · exact .refl
  · rename_i h
    exact moves_configureFirst loader h
  · exact .refl

/-- A table moves entries line by line. -/
theorem moves_applyLines (lines : List Table.Line) (r : Registry φ) (loader : σ) :
    Moves ⟨r.entries, loader⟩ ⟨(r.applyLines lines).1.entries, loader⟩ := by
  induction lines generalizing r with
  | nil => exact .refl
  | cons line lines ih => exact (moves_applyLine r line loader).trans (ih (r.applyLine line).1)

/-- A resolution of all entries moves one entry after the other, and with them the loader. -/
theorem moves_getAll (es : List (Entry φ)) (loader : σ) :
    Moves ⟨es, loader⟩
      ⟨(Registry.getAll es loader).registry.entries, (Registry.getAll es loader).loader⟩ := by
  induction es generalizing loader with
  | nil => exact .refl
  | cons e es ih => exact (Moves.get [] es e loader).trans ((ih (e.get loader).loader).cons _)

/-- Each entry is asked in its turn, with a loader of which holds what every asking keeps. -/
theorem exists_getElem?_getAll {P : σ → Prop}
    (hkeep : ∀ (e : Entry φ) (loader : σ), P loader → P (e.get loader).loader)
    {es : List (Entry φ)} {loader : σ} (hl : P loader) {i : Nat} {e : Entry φ}
    (he : es[i]? = some e) :
    ∃ loader', P loader' ∧
      (Registry.getAll es loader).registry.entries[i]? = some (e.get loader').entry := by
  induction es generalizing loader i with
  | nil => simp at he
  | cons d es ih =>
    cases i with
    | zero =>
      obtain rfl : d = e := by simpa using he
      exact ⟨loader, hl, rfl⟩
    | succ i => exact ih (hkeep d loader hl) he

namespace Host

variable (h : Host σ φ)

/-- Operations that release nothing are moves, one kind after the other. -/
theorem moves_configure (i : Nat) (target : Target) :
    Moves h.holdings (h.configure i target).host.holdings := by
  rw [Host.configure]
  split
  · exact .refl
  · rename_i e he
    obtain ⟨before, after, hes, hset⟩ := exists_append_of_entryAt he
    have hm := Moves.configure before after e h.loader target
    rwa [← hes, ← hset] at hm

theorem moves_get (i : Nat) : Moves h.holdings (h.get i).host.holdings := by
  rw [Host.get]
  split
  · exact .refl
  · rename_i e he
    obtain ⟨before, after, hes, hset⟩ := exists_append_of_entryAt he
    have hm := Moves.get before after e h.loader
    rwa [← hes, ← hset] at hm

theorem moves_applyTable (t : Table) : Moves h.holdings (h.applyTable t).host.holdings :=
  moves_applyLines t.lines h.registry h.loader

theorem moves_loadConfig (file : TableFile) :
    Moves h.holdings (h.loadConfig file).host.holdings := by
  rw [Host.loadConfig]
  split
  · exact h.moves_applyTable _
  · exact .refl

theorem moves_init (file : Option TableFile) : Moves h.holdings (h.init file).host.holdings := by
  unfold Host.init
  split
  · exact .refl
  · exact .refl
  · exact h.moves_loadConfig _

theorem moves_loadHook (file : Option TableFile) :
    Moves h.holdings (h.loadHook file).host.holdings := by
  unfold Host.loadHook
  dsimp only
  split
  · exact h.enterLoaded.host.moves_init file
  · exact .refl

theorem moves_resolveAll : Moves h.holdings h.resolveAll.host.holdings :=
  moves_getAll h.registry.entries h.loader

/-- **Inversion**, first half: an operation that releases no handles moves entries. -/
theorem moves_perform {op : Operation} (hd : ¬h.Disposes op) :
    Moves h.holdings (h.perform op).host.holdings := by
  cases op with
  | configure i target => exact h.moves_configure i target
  | applyTable t => exact h.moves_applyTable t
  | loadConfig file => exact h.moves_loadConfig file
  | init file => exact h.moves_init file
  | get i => exact h.moves_get i
  | isOverridden i => exact h.moves_get i
  | dispatch policy i => exact h.moves_get i
  | dispatchOrDefault i => exact h.moves_get i
  | resolveAll => exact h.moves_resolveAll
  | snapshot => exact .refl
  | info => exact h.moves_resolveAll
  | dispose => exact absurd trivial hd
  | enterLoaded => exact .refl
  | enterUnloaded => exact .refl
  | loadHook file => exact h.moves_loadHook file
  | unloadHook =>
    -- A hook that is not loaded is refused, and nothing is released.
    have hr : ¬h.enterUnloaded.result = true := fun hr ↦ hd (result_enterUnloaded_iff.mp hr)
    show Moves h.holdings h.unloadHook.host.holdings
    rw [unloadHook, if_neg hr]
    exact .refl

/-- **Inversion**, second half: the others leave what a release of all handles leaves. -/
theorem holdings_perform_of_disposes {op : Operation} (hd : h.Disposes op) :
    (h.perform op).host.holdings = h.dispose.host.holdings := by
  cases op with
  | dispose => rfl
  | unloadHook =>
    show h.unloadHook.host.holdings = h.dispose.host.holdings
    rw [unloadHook, if_pos (result_enterUnloaded_iff.mpr hd)]
    rfl
  | _ => exact absurd hd id

end Host

/-! ### What becomes of each entry -/

/-- Of the entries around one that is replaced, each stays where it is. -/
theorem getElem?_replace {es before after : List (Entry φ)} {a e : Entry φ} {i : Nat}
    (hes : es = before ++ a :: after) (he : es[i]? = some e) (b : Entry φ) :
    (before ++ b :: after)[i]? = some e ∨ e = a ∧ (before ++ b :: after)[i]? = some b := by
  subst hes
  rcases Nat.lt_trichotomy i before.length with hlt | heq | hgt
  · rw [List.getElem?_append_left hlt] at he ⊢
    exact .inl he
  · subst heq
    simp at he ⊢
    exact .inr he.symm
  · rw [List.getElem?_append_right (Nat.le_of_lt hgt)] at he ⊢
    obtain ⟨k, hk⟩ := Nat.exists_eq_add_of_lt hgt
    rw [show i - before.length = k + 1 by omega, List.getElem?_cons_succ] at he ⊢
    exact .inl he

/-- A reflexive and transitive relation that both moves keep relates each entry to what becomes of
it. -/
theorem Moves.exists_entry {R : Entry φ → Entry φ → Prop} (refl : ∀ e, R e e)
    (trans : ∀ {a b c}, R a b → R b c → R a c)
    (configure : ∀ (e : Entry φ) (target : Target), e.state = .unresolved → R e { e with target })
    (settle : ∀ (e : Entry φ) (loader : σ), e.state = .unresolved → R e (e.get loader).entry)
    {x y : Holdings σ φ} (h : Moves x y) {i : Nat} {e : Entry φ} (he : x.entries[i]? = some e) :
    ∃ e', y.entries[i]? = some e' ∧ R e e' := by
  induction h with
  | refl => exact ⟨e, he, refl e⟩
  | tail _ hm ih =>
    obtain ⟨d, hd, hed⟩ := ih
    cases hm with
    | configure _ _ target unresolved =>
      rcases getElem?_replace rfl hd _ with hsame | ⟨rfl, hnew⟩
      · exact ⟨d, hsame, hed⟩
      · exact ⟨_, hnew, trans hed (configure d target unresolved)⟩
    | settle _ _ unresolved =>
      rcases getElem?_replace rfl hd _ with hsame | ⟨rfl, hnew⟩
      · exact ⟨d, hsame, hed⟩
      · exact ⟨_, hnew, trans hed (settle d _ unresolved)⟩

/-- Moves neither add entries nor take any away. -/
theorem Moves.length_eq {x y : Holdings σ φ} (h : Moves x y) :
    y.entries.length = x.entries.length := by
  induction h with
  | refl => rfl
  | tail _ hm ih => cases hm <;> simpa using ih

/-! ### Releasing -/

/-- The handles that entries hold, in the order of the entries. -/
def handlesOf (es : List (Entry φ)) : List Handle := es.filterMap (·.handle)

/-- **What a release does**: every entry is released, every handle that was held is closed, in
order, and that many are counted. -/
theorem releaseAll_eq (es : List (Entry φ)) (loader : σ) :
    Registry.releaseAll es loader =
      (es.map fun e ↦ e.release.2,
        (handlesOf es).foldl (fun loader handle ↦ Loader.close handle loader) loader,
        (handlesOf es).length) := by
  induction es generalizing loader with
  | nil => rfl
  | cons e es ih =>
    rw [Registry.releaseAll]
    rcases hh : e.handle with - | handle
    · simp [Entry.release, handlesOf, hh, ih]
    · simp [Entry.release, handlesOf, hh, ih]

namespace Host

variable (h : Host σ φ)

/-- A release of all handles, in its three parts: the entries, the loader and the count. -/
theorem entries_dispose :
    h.dispose.host.registry.entries = h.registry.entries.map fun e ↦ e.release.2 :=
  congrArg Prod.fst (releaseAll_eq h.registry.entries h.loader)

theorem loader_dispose :
    h.dispose.host.loader =
      (handlesOf h.registry.entries).foldl (fun loader handle ↦ Loader.close handle loader)
        h.loader :=
  congrArg (·.2.1) (releaseAll_eq h.registry.entries h.loader)

theorem result_dispose : h.dispose.result = (handlesOf h.registry.entries).length :=
  congrArg (·.2.2) (releaseAll_eq h.registry.entries h.loader)

/-- A release of all handles releases the entry at an index. -/
theorem entryAt_perform_of_disposes {h : Host σ φ} {op : Operation} (hd : h.Disposes op) (i : Nat) :
    (h.perform op).host.entryAt i = (h.entryAt i).map fun e ↦ e.release.2 := by
  have hes : (h.perform op).host.registry.entries = h.dispose.host.registry.entries :=
    congrArg Holdings.entries (h.holdings_perform_of_disposes hd)
  rw [entryAt, hes, entries_dispose, List.getElem?_map]
  rfl

end Host

end Moves

end Interpose
