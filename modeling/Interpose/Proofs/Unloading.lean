import Interpose.Proofs.Impacts
import Interpose.Proofs.Prediction

/-!
# Calls after the unload

A host that was unloaded holds no handle, and what was bound before is not called any more. But the
release goes by the handles, so it passes over an entry that nobody asked for yet. If the target of
such an entry names a file, the entry is **dormant**: whoever asks it next opens a module that no
unload will close.

`unloaded_host_rests_iff` says that this is the only way in which a call after the unload can reach
the loader or an override. The loader stays untouched and all calls go to the functions that are
built in just if the unload leaves no entry dormant, and leaves none to be configured so by a load
hook that is still to come. `late_call_opens_module` is a host that is not of this kind.

The invariant is `Host.AtRest`. That it is kept rests on `Entry.Spent.get`: an entry that is empty
and not dormant is settled without a word to the loader.
-/

namespace Interpose

variable {σ φ : Type}

/-! ### Entries -/

namespace Entry

/-- Nobody asked for the entry yet, and whoever does opens a file. -/
def Dormant (e : Entry φ) : Prop := e.state = .unresolved ∧ e.target.file?.isSome

instance (e : Entry φ) : Decidable e.Dormant := inferInstanceAs (Decidable (_ ∧ _))

/-- The entry holds nothing, and asking for it opens no file. -/
structure Spent (e : Entry φ) : Prop where
  empty : e.Empty
  not_dormant : ¬e.Dormant

theorem Spent.file?_eq_none {e : Entry φ} (h : e.Spent) (hu : e.state = .unresolved) :
    e.target.file? = none := by
  rw [← Option.not_isSome_iff_eq_none]
  exact fun hf ↦ h.not_dormant ⟨hu, hf⟩

/-- **Asking a spent entry** is answered without the loader, and leaves it spent. -/
theorem Spent.get [Loader σ φ] {e : Entry φ} (h : e.Spent) (loader : σ) :
    (e.get loader).function = none ∧ (e.get loader).loader = loader ∧
      (e.get loader).entry.Spent := by
  cases ht : e.state.isTerminal with
  | true =>
    rw [get_of_isTerminal ht]
    exact ⟨h.empty.2, rfl, h⟩
  | false =>
    have hu := State.isTerminal_eq_false_iff.mp ht
    have hbind := e.target.bind_of_file?_eq_none (h.file?_eq_none hu) loader
    rw [get_of_bind_error hu hbind]
    exact ⟨rfl, rfl, h.empty, fun hd ↦ nomatch hd.1⟩

theorem Spent.release {e : Entry φ} (h : e.Spent) : e.release.2.Spent :=
  ⟨e.empty_release, h.not_dormant⟩

theorem Spent.configure {e : Entry φ} (h : e.Spent) {target : Target}
    (htarget : e.state = .unresolved → target.file? = none) : (e.configure target).2.Spent := by
  rw [configure_eq]
  split
  · next hu =>
    refine ⟨h.empty, fun hd ↦ ?_⟩
    have hfile : target.file?.isSome := hd.2
    rw [htarget hu] at hfile
    cases hfile
  · exact h

end Entry

/-! ### Hosts at rest -/

/-- Once it is left, the idle phase does not come back. -/
theorem HookPhase.eq_idle_of_after {p : HookPhase} {op : Operation} (h : p.after op = .idle) :
    p = .idle := by
  cases p with
  | idle => rfl
  | loaded | unloaded => cases op <;> cases h

/-- An operation does not configure entries, unless it is a hook. -/
def Operation.Lingers : Operation → Prop
  | .configure .. | .applyTable _ | .loadConfig _ | .init _ => False
  | _ => True

namespace Host

/-- All entries are spent, and no load hook can configure one to be dormant. -/
structure AtRest (h : Host σ φ) : Prop where
  spent : ∀ e ∈ h.registry.entries, e.Spent
  unroused : ∀ file i e line, h.entryAt i = some e → e.state = .unresolved →
    lastLineFor? h.registry.keys i (h.linesOf (.loadHook file)) = some line →
      line.assignment.target.file? = none

/-- What a load hook makes of the entry at an index. -/
theorem entryAt_loadHook (h : Host σ φ) (file : Option TableFile) (i : Nat) :
    (h.loadHook file).host.entryAt i = (h.entryAt i).map fun e ↦
      match lastLineFor? h.registry.keys i (h.linesOf (.loadHook file)) with
      | some line => (e.configure line.assignment.target).2
      | none => e := by
  rw [entryAt, (h.applied_loadHook file).host]
  exact h.registry.getElem?_applyLines_lastLineFor? _ i

theorem loader_loadHook (h : Host σ φ) (file : Option TableFile) :
    (h.loadHook file).host.loader = h.loader := by
  rw [(h.applied_loadHook file).host]
  rfl

/-- A host of empty entries is at rest if none is dormant, be it before or after a load hook. -/
theorem atRest_of_not_dormant {h : Host σ φ} (hempty : ∀ e ∈ h.registry.entries, e.Empty)
    (hnow : ∀ e ∈ h.registry.entries, ¬e.Dormant)
    (hhook : h.phase = .idle →
      ∀ file, ∀ e ∈ (h.loadHook file).host.registry.entries, ¬e.Dormant) : h.AtRest := by
  refine ⟨fun e he ↦ ⟨hempty e he, hnow e he⟩, fun file i e line he hu hline ↦ ?_⟩
  by_cases hidle : h.phase = .idle
  · have hafter : (h.loadHook file).host.entryAt i =
        some (e.configure line.assignment.target).2 := by
      rw [entryAt_loadHook, he, hline, Option.map_some]
    have hawake := hhook hidle file _ (List.mem_of_getElem? hafter)
    rw [Entry.configure_eq, if_pos hu] at hawake
    rw [← Option.not_isSome_iff_eq_none]
    exact fun hf ↦ hawake ⟨hu, hf⟩
  · -- A load hook that comes too late applies no lines.
    have hlines : h.linesOf (.loadHook file) = [] := by
      rw [linesOf, admits, decide_eq_false hidle]
      rfl
    rw [hlines] at hline
    cases hline

variable [Loader σ φ] {h : Host σ φ}

/-! ### What is asked of a host at rest -/

theorem AtRest.get (hr : h.AtRest) (i : Nat) :
    (h.get i).result = none ∧ (h.get i).host.loader = h.loader ∧
      ∀ e ∈ (h.get i).host.registry.entries, e.Spent := by
  rw [Host.get]
  cases he : h.registry.entries[i]? with
  | none => exact ⟨rfl, rfl, hr.spent⟩
  | some e =>
    obtain ⟨hfunction, hloader, hspent⟩ := (hr.spent e (List.mem_of_getElem? he)).get h.loader
    refine ⟨hfunction, hloader, fun d hd ↦ ?_⟩
    obtain hold | rfl := List.mem_or_eq_of_mem_set hd
    · exact hr.spent d hold
    · exact hspent

theorem getAll_of_spent {es : List (Entry φ)} (hes : ∀ e ∈ es, e.Spent) (loader : σ) :
    (Registry.getAll es loader).loader = loader ∧
      ∀ e ∈ (Registry.getAll es loader).registry.entries, e.Spent := by
  induction es with
  | nil => exact ⟨rfl, hes⟩
  | cons e es ih =>
    obtain ⟨hfirst, hothers⟩ := List.forall_mem_cons.mp hes
    obtain ⟨-, hloader, hspent⟩ := hfirst.get loader
    obtain ⟨hrest, hall⟩ := ih hothers
    rw [Registry.getAll, hloader]
    exact ⟨hrest, List.forall_mem_cons.mpr ⟨hspent, hall⟩⟩

theorem AtRest.resolveAll (hr : h.AtRest) :
    h.resolveAll.host.loader = h.loader ∧
      ∀ e ∈ h.resolveAll.host.registry.entries, e.Spent :=
  getAll_of_spent hr.spent h.loader

theorem AtRest.dispose (hr : h.AtRest) :
    h.dispose.host.loader = h.loader ∧ ∀ e ∈ h.dispose.host.registry.entries, e.Spent := by
  have hnone : handlesOf h.registry.entries = [] :=
    List.filterMap_eq_nil_iff.mpr fun e he ↦ (hr.spent e he).empty.1
  refine ⟨by rw [loader_dispose, hnone, List.foldl_nil], ?_⟩
  rw [entries_dispose, List.forall_mem_map]
  exact fun e he ↦ (hr.spent e he).release

omit [Loader σ φ] in
theorem AtRest.loadHook (hr : h.AtRest) (file : Option TableFile) :
    ∀ e ∈ (h.loadHook file).host.registry.entries, e.Spent := by
  intro e' he'
  obtain ⟨i, hi⟩ := exists_entryAt_of_mem he'
  rw [entryAt_loadHook] at hi
  obtain ⟨e, he, rfl⟩ := Option.map_eq_some_iff.mp hi
  have hspent := hr.spent e (List.mem_of_getElem? he)
  cases hline : lastLineFor? h.registry.keys i (h.linesOf (.loadHook file)) with
  | none => exact hspent
  | some line => exact hspent.configure fun hu ↦ hr.unroused file i e line he hu hline

/-- Without configuring, no operation reaches the loader or wakes an entry. -/
theorem AtRest.spent_perform (hr : h.AtRest) {op : Operation} (hop : op.Lingers) :
    (h.perform op).host.loader = h.loader ∧
      ∀ e ∈ (h.perform op).host.registry.entries, e.Spent := by
  cases op with
  | get i => exact (hr.get i).2
  | isOverridden i => exact (hr.get i).2
  | dispatch policy i => exact (hr.get i).2
  | dispatchOrDefault i => exact (hr.get i).2
  | resolveAll => exact hr.resolveAll
  | info => exact hr.resolveAll
  | snapshot | enterLoaded | enterUnloaded => exact ⟨rfl, hr.spent⟩
  | dispose => exact hr.dispose
  | loadHook file => exact ⟨h.loader_loadHook file, hr.loadHook file⟩
  | unloadHook =>
    show h.unloadHook.host.loader = h.loader ∧ ∀ e ∈ h.unloadHook.host.registry.entries, e.Spent
    rw [unloadHook]
    split
    · exact hr.dispose
    · exact ⟨rfl, hr.spent⟩
  | _ => exact hop.elim

/-- Whatever is done to a host, a later load hook applies the lines that it would apply now, or
none. -/
theorem linesOf_loadHook_perform (h : Host σ φ) (op : Operation) (file : Option TableFile) :
    (h.perform op).host.linesOf (.loadHook file) = h.linesOf (.loadHook file) ∨
      (h.perform op).host.linesOf (.loadHook file) = [] := by
  obtain ⟨hphase, hpolicy⟩ := h.phase_perform op
  have hvalid : (h.perform op).host.registry.validate = h.registry.validate := by
    rw [Registry.validate, Registry.validate, h.keys_perform]
  rw [linesOf, linesOf, admits, admits, hphase, hpolicy, hvalid]
  by_cases hidle : h.phase.after op = .idle
  · exact .inl (by rw [hidle, HookPhase.eq_idle_of_after hidle])
  · exact .inr (by rw [decide_eq_false hidle]; rfl)

theorem AtRest.unroused_perform (hr : h.AtRest) (op : Operation) (file : Option TableFile)
    (i : Nat) (e : Entry φ) (line : Table.Line) (he : (h.perform op).host.entryAt i = some e)
    (hu : e.state = .unresolved)
    (hline : lastLineFor? (h.perform op).host.registry.keys i
      ((h.perform op).host.linesOf (.loadHook file)) = some line) :
    line.assignment.target.file? = none := by
  obtain ⟨d, hd, hturn⟩ := exists_entryAt_of_perform he
  have hdu : d.state = .unresolved := by
    rcases hturn with ⟨-, rfl⟩ | ⟨-, hev⟩
    · exact hu
    · by_contra hne
      exact hne (hev.eq_of_isTerminal (State.isTerminal_of_ne hne) ▸ hu)
  rw [h.keys_perform] at hline
  obtain hsame | hnone := h.linesOf_loadHook_perform op file
  · rw [hsame] at hline
    exact hr.unroused file i d line hd hdu hline
  · rw [hnone] at hline
    cases hline

/-- **One step.** -/
theorem AtRest.perform (hr : h.AtRest) {op : Operation} (hop : op.Lingers) :
    (h.perform op).host.AtRest :=
  ⟨(hr.spent_perform hop).2, hr.unroused_perform op⟩

/-- **A run** that does not configure entries never reaches the loader. -/
theorem AtRest.after (hr : h.AtRest) {ops : List Operation} (hops : ∀ op ∈ ops, op.Lingers) :
    (h.after ops).AtRest ∧ (h.after ops).loader = h.loader := by
  induction ops generalizing h with
  | nil => exact ⟨hr, rfl⟩
  | cons op ops ih =>
    obtain ⟨hfirst, hothers⟩ := List.forall_mem_cons.mp hops
    obtain ⟨hrest, hloader⟩ := ih (hr.perform hfirst) hothers
    exact ⟨hrest, hloader.trans (hr.spent_perform hfirst).1⟩

end Host

/-- Without a function to call, what is chosen is built in. -/
theorem FallbackPolicy.eq_builtIn_of_choose {policy : FallbackPolicy} {s : State} {c : Choice φ}
    (h : policy.choose s none = .ok c) : c = .builtIn := by
  unfold FallbackPolicy.choose at h
  dsimp only at h
  split at h
  · split at h
    · cases h
    · exact (Except.ok.inj h).symm
  · exact (Except.ok.inj h).symm

/-! ### Dormant entries -/

/-- Asking a dormant entry opens its file. -/
theorem Host.asked_get_of_dormant [Loader σ φ] {h : Host (Watched σ) φ} {i : Nat} {e : Entry φ}
    (he : h.entryAt i = some e) (hd : e.Dormant) :
    (h.get i).host.loader.asked ≠ h.loader.asked := by
  obtain ⟨hu, hf⟩ := hd
  obtain ⟨file, hfile⟩ := Option.isSome_iff_exists.mp hf
  have he' : h.registry.entries[i]? = some e := he
  simp only [Host.get, he', Entry.asked_get hu, hfile]
  simp

/-- Nothing that is asked of a host, other than to configure its entries, reaches an override or the
loader, from now on. -/
def Host.Rests [Loader σ φ] (h : Host (Watched σ) φ) : Prop :=
  ∀ later : List Operation, (∀ op ∈ later, op.Lingers) →
    let last := h.after later
    (∀ i, (last.get i).result = none) ∧
      (∀ policy i c, (last.dispatch policy i).result = .ok c → c = .builtIn) ∧
      (∀ i, (last.dispatchOrDefault i).result = .builtIn) ∧
      last.loader.asked = h.loader.asked ∧ ∀ e ∈ last.registry.entries, e.handle = none

theorem Host.AtRest.rests [Loader σ φ] {h : Host (Watched σ) φ} (hr : h.AtRest) : h.Rests := by
  intro later hlater last
  obtain ⟨hlast, hloader⟩ := hr.after hlater
  refine ⟨fun i ↦ (hlast.get i).1, fun policy i c hc ↦ ?_, fun i ↦ ?_,
    congrArg Watched.asked hloader, fun e he ↦ (hlast.spent e he).empty.1⟩
  · have hresult : (last.dispatch policy i).result =
        policy.choose ((last.get i).host.stateAt i) (last.get i).result := rfl
    rw [hresult, (hlast.get i).1] at hc
    exact FallbackPolicy.eq_builtIn_of_choose hc
  · exact congrArg Choice.ofFunction (hlast.get i).1

/-- A host at rest has no dormant entry, and gets none from a load hook. -/
theorem Host.Rests.not_dormant [Loader σ φ] {h : Host (Watched σ) φ} (hr : h.Rests) :
    (∀ e ∈ h.registry.entries, ¬e.Dormant) ∧
      ∀ file, ∀ e ∈ (h.loadHook file).host.registry.entries, ¬e.Dormant := by
  -- What a dormant entry is asked for shows in the files that were opened.
  have hquiet (later : List Operation) (hlater : ∀ op ∈ later, op.Lingers) {e : Entry φ}
      (he : e ∈ (h.after later).registry.entries) (hd : e.Dormant) : False := by
    obtain ⟨i, hi⟩ := exists_entryAt_of_mem he
    have hmore : ∀ op ∈ later ++ [.get i], op.Lingers := by
      rw [List.forall_mem_append]
      exact ⟨hlater, List.forall_mem_singleton.mpr trivial⟩
    obtain ⟨-, -, -, hnow, -⟩ := hr later hlater
    obtain ⟨-, -, -, hthen, -⟩ := hr _ hmore
    rw [after_append] at hthen
    exact asked_get_of_dormant hi hd (hthen.trans hnow.symm)
  exact ⟨fun e he hd ↦ hquiet [] (List.forall_mem_nil _) he hd,
    fun file e he hd ↦ hquiet [.loadHook file] (by simp [Operation.Lingers]) he hd⟩

/-- **When an unloaded host is at rest**, in every run over any loader.

From the release of all handles on, no entry that is asked has a function, calls that are not
refused go to the functions that are built in, no file is opened, and no entry holds a handle,
whatever is asked of the host but to configure its entries: this holds just if the release leaves no
entry dormant, and, in case that the load hook is still to come, no table makes that hook leave
one. -/
theorem unloaded_host_rests_iff [Loader σ φ] (keys : List String) (loader : σ) (policy : NamePolicy)
    (ops : List Operation) (op : Operation)
    (hop : ((Host.fresh keys { base := loader } policy : Host (Watched σ) φ).after ops).Disposes
      op) :
    let start : Host (Watched σ) φ := .fresh keys { base := loader } policy
    let now := start.after (ops ++ [op])
    now.Rests ↔
      (∀ e ∈ now.registry.entries, ¬e.Dormant) ∧
        (now.phase = .idle →
          ∀ file, ∀ e ∈ (now.loadHook file).host.registry.entries, ¬e.Dormant) := by
  intro start now
  have hempty : ∀ e ∈ now.registry.entries, e.Empty := by
    intro e he
    obtain ⟨i, hi⟩ := Host.exists_entryAt_of_mem he
    have hreleased : now.entryAt i = ((start.after ops).entryAt i).map fun e ↦ e.release.2 := by
      rw [← Host.entryAt_perform_of_disposes hop i]
      exact congrArg (Host.entryAt i) (start.after_append ops [op])
    rw [hreleased] at hi
    obtain ⟨d, -, rfl⟩ := Option.map_eq_some_iff.mp hi
    exact d.empty_release
  constructor
  · intro hrests
    exact ⟨hrests.not_dormant.1, fun _ ↦ hrests.not_dormant.2⟩
  · rintro ⟨hnow, hhook⟩
    exact (Host.atRest_of_not_dormant hempty hnow hhook).rests

/-- All entries were asked before the unload, one that was bound and one without a line. -/
theorem unloaded_host_rests_iff_asked :
    let start : Host (Watched (Catalog Nat)) Nat :=
      .fresh ["sum", "mean"] { base := .single } .truncate
    let ops : List Operation := [.loadHook (some .single), .get 0, .get 1]
    (start.after ops).Disposes .unloadHook ∧ ((start.after ops).get 0).result = some 7 ∧
      (start.after (ops ++ [.unloadHook])).Rests := by
  intro start ops
  have hloaded : (start.after ops).phase = .loaded := by decide +kernel
  have hbound : ((start.after ops).get 0).result = some 7 := by decide +kernel
  have hiff := unloaded_host_rests_iff ["sum", "mean"] Catalog.single .truncate ops .unloadHook
    hloaded
  refine ⟨hloaded, hbound, hiff.mpr ⟨by decide +kernel, fun hidle ↦ ?_⟩⟩
  exact absurd hidle (by decide +kernel)

/-- **A call after the unload opens a module**: nobody asked for the entry before. The unload hook
takes effect and closes nothing, and then the first call goes to the override. -/
theorem late_call_opens_module :
    let start : Host (Watched (Catalog Nat)) Nat := .fresh ["sum"] { base := .single } .truncate
    let loaded := start.after [.loadHook (some .single)]
    let now := loaded.after [.unloadHook]
    loaded.unloadHook.result = some 0 ∧ now.loader.asked = [] ∧
      (now.get 0).result = some 7 ∧ (now.dispatchOrDefault 0).result = .overriding 7 ∧
      (now.get 0).host.loader.asked = ["libsum.so"] ∧
      (∃ e ∈ (now.get 0).host.registry.entries, e.handle.isSome) ∧ ¬now.Rests := by
  intro start loaded now
  have hanswer : (now.get 0).result = some 7 := by decide +kernel
  refine ⟨by decide +kernel, by decide +kernel, hanswer, by decide +kernel, by decide +kernel,
    by decide +kernel, fun hr ↦ ?_⟩
  have hnone := (hr [] (List.forall_mem_nil _)).1 0
  cases hanswer.symm.trans hnone

end Interpose
