import Interpose.Proofs.Lifecycle

/-!
# What a report says of calls

A report settles all entries, and its return code is to say whether each of them is overridden. It
is read off the states, whereas calls are served from the functions, and a release takes functions
away without a change of states. So the code agrees with what calls get, except where all entries
are bound and one of them was released (`info_code_agrees_iff`). There the code is zero, although
calls of that entry go to the function that is built in (`info_code_after_release`).

That an entry is bound and has no function is traced back to a release by the invariant of runs,
`Host.consistent_after_fresh`.
-/

namespace Interpose

variable {σ φ : Type}

/-! ### Return codes -/

/-- If all entries are settled, none is failed just if all are bound. -/
theorem Report.anyFailed_eq_false_iff {r : Registry φ}
    (ht : ∀ e ∈ r.entries, e.state.isTerminal = true) :
    (Report.ofRegistry r).anyFailed = false ↔ ∀ e ∈ r.entries, e.state = .bound := by
  rw [Report.ofRegistry, List.any_eq_false]
  refine forall₂_congr fun e he ↦ ?_
  have hterminal := ht e he
  cases hs : e.state with
  | unresolved =>
    rw [hs] at hterminal
    cases hterminal
  | bound => simp [State.failure?]
  | failed reason => simp [State.failure?]

/-- If all entries are settled, the code of a report is zero just if all are bound. -/
theorem Report.returnCode_ofRegistry {r : Registry φ}
    (ht : ∀ e ∈ r.entries, e.state.isTerminal = true) :
    (Report.ofRegistry r).returnCode = 0 ↔ ∀ e ∈ r.entries, e.state = .bound := by
  rw [← Report.anyFailed_eq_false_iff ht, returnCode]
  cases (Report.ofRegistry r).anyFailed <;> decide

theorem Report.returnCode_eq (r : Report) : r.returnCode = 0 ∨ r.returnCode = -1 := by
  rw [returnCode]
  cases r.anyFailed
  · exact .inl rfl
  · exact .inr rfl

/-! ### Hosts that were reported on -/

/-- What holds of each entry after it was asked, whatever has become of the loader, holds of all
entries after all were asked. -/
theorem Registry.forall_mem_getAll [Loader σ φ] {P : Entry φ → Prop} {es : List (Entry φ)}
    (h : ∀ e ∈ es, ∀ loader : σ, P (e.get loader).entry) (loader : σ) :
    ∀ e ∈ (getAll es loader).registry.entries, P e := by
  induction es generalizing loader with
  | nil => exact List.forall_mem_nil _
  | cons e es ih =>
    obtain ⟨he, hes⟩ := List.forall_mem_cons.mp h
    rw [getAll, List.forall_mem_cons]
    exact ⟨he loader, ih hes _⟩

namespace Host

variable [Loader σ φ] {h : Host σ φ} {i : Nat} {e : Entry φ}

theorem isTerminal_of_mem_info (he : e ∈ h.info.host.registry.entries) :
    e.state.isTerminal = true :=
  Registry.forall_mem_getAll (P := fun e ↦ e.state.isTerminal = true)
    (fun d _ loader ↦ d.isTerminal_get loader) h.loader e he

/-- After a report, an entry is overridden if it holds a function. -/
theorem result_isOverridden_info (he : h.info.host.entryAt i = some e) :
    (h.info.host.isOverridden i).result = e.function.isSome :=
  congrArg Option.isSome
    (result_get_of_isTerminal (isTerminal_of_mem_info (List.mem_of_getElem? he)) he)

/-- What was released while it was bound is bound for good, and holds nothing. -/
theorem ReleasedBound.exists_entryAt {ops : List Operation} (hr : h.ReleasedBound i ops) :
    ∃ e, (h.after ops).entryAt i = some e ∧ e.state = .bound ∧ e.function = none := by
  obtain ⟨early, op, late, rfl, hd, e, he, hb⟩ := hr
  have ht : e.state.isTerminal = true := by
    rw [hb]
    rfl
  obtain ⟨-, hreleased⟩ := entryAt_after_of_isTerminal ht he (op :: late)
  refine ⟨e.release.2, ?_, hb, rfl⟩
  rw [after_append]
  exact hreleased (.inl hd)

/-- An entry of a report, in a run. It is full if it is bound and was not released since, and empty
otherwise. -/
theorem full_info_iff {keys : List String} {loader : σ} {policy : NamePolicy}
    {ops : List Operation}
    (he : ((fresh keys loader policy).after ops).info.host.entryAt i = some e) :
    e.function.isSome = true ↔
      e.state = .bound ∧ ¬(fresh keys loader policy : Host σ φ).ReleasedBound i ops := by
  have hperform : (((fresh keys loader policy).after ops).perform .info).host.entryAt i = some e :=
    he
  obtain ⟨d, hd, hturn⟩ := exists_entryAt_of_perform hperform
  obtain ⟨-, hev⟩ := hturn.resolve_left fun hdis ↦ hdis.1
  obtain ⟨hcons, hreleased⟩ := consistent_after_fresh ops hd
  constructor
  · intro hf
    have hb : e.state = .bound := by
      by_contra hne
      rw [((hev.consistent hcons).empty hne).2] at hf
      cases hf
    refine ⟨hb, fun hr ↦ ?_⟩
    obtain ⟨d', hd', hb', hnone⟩ := hr.exists_entryAt
    obtain rfl := Option.some.inj (hd.symm.trans hd')
    obtain rfl := hev.eq_of_isTerminal (by rw [hb']; rfl)
    rw [hnone] at hf
    cases hf
  · rintro ⟨hb, hr⟩
    obtain hfull | hempty := (hev.consistent hcons).full_or_empty
    · exact hfull.2
    · obtain rfl := hev.eq_of_empty hcons hb hempty
      exact absurd (hreleased hb hempty) hr

end Host

/-- **When the code of a report agrees with what calls get**, in every run over any loader.

The code is zero or minus one, and zero just if all entries are bound. If each entry is overridden
right after, it is zero. The converse holds, too, just if it is not the case that the code is zero
and some entry was released while it was bound. -/
theorem info_code_agrees_iff [Loader σ φ] (keys : List String) (loader : σ) (policy : NamePolicy)
    (ops : List Operation) :
    let start : Host σ φ := .fresh keys loader policy
    let now := start.after ops
    let code := now.info.result.returnCode
    let last := now.info.host
    (code = 0 ∨ code = -1) ∧ (code = 0 ↔ ∀ e ∈ last.registry.entries, e.state = .bound) ∧
      ((∀ i < keys.length, (last.isOverridden i).result = true) → code = 0) ∧
      ((code = 0 ↔ ∀ i < keys.length, (last.isOverridden i).result = true) ↔
        (code = 0 → ∀ i, ¬start.ReleasedBound i ops)) := by
  intro start now code last
  have hcode : code = 0 ↔ ∀ e ∈ last.registry.entries, e.state = .bound :=
    Report.returnCode_ofRegistry fun e ↦ Host.isTerminal_of_mem_info
  have hnow : now.registry.entries.length = keys.length :=
    (start.length_after ops).trans (List.length_map _)
  have hlength : last.registry.entries.length = keys.length :=
    (Host.length_perform (h := now) .info).trans hnow
  have hentry {i : Nat} (hi : i < keys.length) : ∃ e, last.entryAt i = some e :=
    ⟨_, List.getElem?_eq_getElem (hlength.symm ▸ hi)⟩
  -- An entry is overridden if it is bound and was not released since.
  have hover {i : Nat} {e : Entry φ} (he : last.entryAt i = some e) :
      (last.isOverridden i).result = true ↔ e.state = .bound ∧ ¬start.ReleasedBound i ops := by
    rw [Host.result_isOverridden_info he]
    exact Host.full_info_iff he
  have hall (hover' : ∀ i < keys.length, (last.isOverridden i).result = true) : code = 0 := by
    refine hcode.mpr fun e he ↦ ?_
    obtain ⟨i, hi⟩ := Host.exists_entryAt_of_mem he
    obtain ⟨hlt, -⟩ := List.getElem?_eq_some_iff.mp hi
    exact ((hover hi).mp (hover' i (hlength ▸ hlt))).1
  refine ⟨Report.returnCode_eq _, hcode, hall, fun hiff hzero i hr ↦ ?_, fun hkept ↦ ⟨?_, hall⟩⟩
  · obtain ⟨d, hd, -⟩ := hr.exists_entryAt
    obtain ⟨hlt, -⟩ := List.getElem?_eq_some_iff.mp hd
    have hi : i < keys.length := hnow ▸ hlt
    obtain ⟨e, he⟩ := hentry hi
    exact ((hover he).mp (hiff.mp hzero i hi)).2 hr
  · intro hzero i hi
    obtain ⟨e, he⟩ := hentry hi
    exact (hover he).mpr ⟨hcode.mp hzero e (List.mem_of_getElem? he), hkept hzero i⟩

/-- **After a release the code is zero although nothing is overridden**: the entry was bound. -/
theorem info_code_after_release :
    let start : Host (Catalog Nat) Nat := .fresh ["sum"] .single .truncate
    let now := start.after [.configure 0 ⟨"libsum", "sum"⟩, .get 0, .dispose]
    now.info.result.returnCode = 0 ∧ (now.info.host.isOverridden 0).result = false ∧
      ¬(now.info.result.returnCode = 0 ↔
        ∀ i < ["sum"].length, (now.info.host.isOverridden i).result = true) := by
  intro start now
  have hcode : now.info.result.returnCode = 0 := by decide +kernel
  have hover : (now.info.host.isOverridden 0).result = false := by decide +kernel
  refine ⟨hcode, hover, fun hiff ↦ ?_⟩
  have htrue := hiff.mp hcode 0 (by decide)
  cases hover.symm.trans htrue

end Interpose
