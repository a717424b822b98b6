import Interpose.Proofs.Impacts

/-!
# Falling back

An override that is configured and broken is hidden by failing open, and failing closed shows it and
nothing else (`broken_override_hidden`).

Two runs are compared that differ by the targets of one entry: in the first they are broken, in the
second the entry has none. Step by step, the impacts on all other entries are the same, and the
impacts on this entry are the same except where the first run assigns a broken target
(`Host.Twins.impacts`). So the other entries look alike in both runs, and this one is a pair of
**twins**: both unresolved, or both failed, for different reasons (`Entry.Twins`). The reason is all
that tells twins apart, and among the answers to calls only those of failing closed depend on it.

That the two hosts agree also in their phases matters: otherwise a hook could take effect in one run
and be refused in the other.
-/

namespace Interpose

variable {σ φ : Type}

/-! ### Broken targets -/

/-- A target that is configured, and cannot be bound to any function of the modules. -/
def Target.Broken (modules : List (Catalog.Module φ)) (t : Target) : Prop :=
  ∃ reason, reason ≠ .noConfig ∧ Catalog.verdict modules t = .error reason

theorem Catalog.verdict_eq_noConfig_iff {modules : List (Module φ)} {t : Target} :
    verdict modules t = .error .noConfig ↔ t.isConfigured = false := by
  have hnames : t.isConfigured = false ↔ t.library = "" ∨ t.symbol = "" := by
    simp [Target.isConfigured, imp_iff_not_or]
  rw [hnames, verdict]
  split
  · next h => simp [h]
  · next h =>
    simp only [h, iff_false]
    split
    · simp
    · split
      · simp
      · split <;> simp

/-! ### Twins -/

/-- What an entry looks like in two runs: its targets are broken in the first, and it has none in
the second. -/
structure Entry.Twins (modules : List (Catalog.Module φ)) (e e' : Entry φ) : Prop where
  state : ∃ reason, Catalog.verdict modules e.target = .error reason ∧
    (e.state = .unresolved ∧ e'.state = .unresolved ∨
      e.state = .failed reason ∧ e'.state = .failed .noConfig)
  unconfigured : Catalog.verdict modules e'.target = .error .noConfig
  empty : e.function = none ∧ e'.function = none

/-- The impacts on an entry in two runs: they are the same, except that the first run may assign a
broken target where the second does nothing. -/
inductive Impact.Twins (modules : List (Catalog.Module φ)) : Impact → Impact → Prop
  | same {x : Impact} (hx : ∀ target, x ≠ .assign target) : Twins modules x x
  | broken {target : Target} (h : target.Broken modules) : Twins modules (.assign target) .keep

namespace Entry.Twins

variable {modules : List (Catalog.Module φ)} {e e' : Entry φ}

theorem face_iff : e.face.Twins modules e'.face ↔ e.Twins modules e' :=
  ⟨fun ⟨hstate, hunconfigured, hempty⟩ ↦ ⟨hstate, hunconfigured, hempty⟩,
    fun ⟨hstate, hunconfigured, hempty⟩ ↦ ⟨hstate, hunconfigured, hempty⟩⟩

theorem settle (h : e.Twins modules e') : (e.settle modules).Twins modules (e'.settle modules) := by
  obtain ⟨⟨reason, hverdict, ⟨hu, hu'⟩ | ⟨hs, hs'⟩⟩, hunconfigured, hempty⟩ := h
  · rw [Entry.settle, Entry.settle, hu, hu', hverdict, hunconfigured]
    exact ⟨⟨reason, hverdict, .inr ⟨rfl, rfl⟩⟩, hunconfigured, hempty⟩
  · rw [Entry.settle, Entry.settle, hs, hs']
    exact ⟨⟨reason, hverdict, .inr ⟨hs, hs'⟩⟩, hunconfigured, hempty⟩

/-- **Twins stay twins.** -/
theorem apply (h : e.Twins modules e') {x x' : Impact} (hx : x.Twins modules x') :
    (x.apply modules e).Twins modules (x'.apply modules e') := by
  cases hx with
  | same hx =>
    cases x with
    | keep => exact h
    | assign target => exact absurd rfl (hx target)
    | settle => exact h.settle
    | release => exact ⟨h.state, h.unconfigured, rfl, rfl⟩
  | @broken target hbroken =>
    obtain ⟨reason, -, hverdict⟩ := hbroken
    rw [Impact.apply, Impact.apply, Entry.configure_eq]
    obtain ⟨⟨old, hold, ⟨hu, hu'⟩ | ⟨hs, hs'⟩⟩, hunconfigured, hempty⟩ := h
    · rw [if_pos hu]
      exact ⟨⟨reason, hverdict, .inl ⟨hu, hu'⟩⟩, hunconfigured, hempty⟩
    · -- A settled entry refuses the target.
      rw [if_neg (by simp [hs])]
      exact ⟨⟨old, hold, .inr ⟨hs, hs'⟩⟩, hunconfigured, hempty⟩

/-- Once they were asked, twins are failed, the first one for the reason that its target is broken,
if it has one. -/
theorem state_settle (h : e.Twins modules e') :
    ∃ reason, Catalog.verdict modules e.target = .error reason ∧
      (e.settle modules).state = .failed reason ∧
        (e'.settle modules).state = .failed .noConfig := by
  obtain ⟨⟨reason, hverdict, hstates⟩, hunconfigured, -⟩ := h
  refine ⟨reason, hverdict, ?_⟩
  rw [Entry.settle, Entry.settle, hverdict, hunconfigured]
  obtain ⟨hu, hu'⟩ | ⟨hs, hs'⟩ := hstates
  · rw [hu, hu']
    exact ⟨rfl, rfl⟩
  · rw [hs, hs']
    exact ⟨hs, hs'⟩

theorem answer (h : e.Twins modules e') :
    e.answer modules = none ∧ e'.answer modules = none := by
  obtain ⟨⟨reason, hverdict, hstates⟩, hunconfigured, hempty, hempty'⟩ := h
  rw [Entry.answer, Entry.answer, hempty, hempty', hverdict, hunconfigured]
  simp [Except.toOption]

end Entry.Twins

/-! ### Runs that spare an entry -/

/-- Of some lines, those are left that are not for an entry, and the others have broken targets. -/
structure SparesLines (modules : List (Catalog.Module φ)) (keys : List String) (i : Nat)
    (lines lines' : List Table.Line) : Prop where
  rest : lines' = lines.filter fun line ↦ ¬line.IsFor keys i
  broken : ∀ line ∈ lines, line.IsFor keys i → line.assignment.target.Broken modules

/-- What is done instead of an operation in a run that leaves one entry unconfigured. A
configuration of the entry, with a broken target, is left out; tables that are applied lack the
lines for the entry, which have broken targets; and all else is the same. -/
inductive Operation.Spares (modules : List (Catalog.Module φ)) (keys : List String)
    (policy : NamePolicy) (i : Nat) : Operation → Option Operation → Prop
  | configure {target : Target} (broken : target.Broken modules) :
    Spares modules keys policy i (.configure i target) none
  | applyTable {t t' : Table} (lines : SparesLines modules keys i t.lines t'.lines) :
    Spares modules keys policy i (.applyTable t) (some (.applyTable t'))
  | loadConfig {file file' : TableFile}
    (lines : SparesLines modules keys i (file.lines policy) (file'.lines policy)) :
    Spares modules keys policy i (.loadConfig file) (some (.loadConfig file'))
  | init {file file' : Option TableFile}
    (lines : SparesLines modules keys i ((Operation.init file).lines policy)
      ((Operation.init file').lines policy)) :
    Spares modules keys policy i (.init file) (some (.init file'))
  | loadHook {file file' : Option TableFile}
    (lines : SparesLines modules keys i ((Operation.loadHook file).lines policy)
      ((Operation.loadHook file').lines policy)) :
    Spares modules keys policy i (.loadHook file) (some (.loadHook file'))
  | same {op : Operation} (tables : ¬op.Applies) (others : ∀ target, op ≠ .configure i target) :
    Spares modules keys policy i op (some op)

section Lines

variable {keys : List String} {i : Nat}

theorem lastLineFor?_filter_of_ne {j : Nat} (hj : j ≠ i) (lines : List Table.Line) :
    lastLineFor? keys j (lines.filter fun line ↦ ¬line.IsFor keys i) =
      lastLineFor? keys j lines := by
  rw [lastLineFor?, lastLineFor?, ← List.filter_reverse, List.find?_filter]
  refine congrArg (List.find? · lines.reverse) (funext fun line ↦ ?_)
  by_cases hfor : line.IsFor keys j
  · have hother : ¬line.IsFor keys i := fun h ↦ hj (Option.some.inj (hfor.symm.trans h))
    simp [hfor, hother]
  · simp [hfor]

theorem lastLineFor?_filter_self (lines : List Table.Line) :
    lastLineFor? keys i (lines.filter fun line ↦ ¬line.IsFor keys i) = none := by
  simp [lastLineFor?]

end Lines

namespace Host

/-- The impact of what is done in the place of an operation. -/
def impact? (h : Host σ φ) (i : Nat) : Option Operation → Impact
  | some op => h.impact i op
  | none => .keep

/-- The host after what is done in the place of an operation. -/
def perform? [Loader σ φ] (h : Host σ φ) : Option Operation → Host σ φ
  | some op => (h.perform op).host
  | none => h

/-- Two hosts that look alike, except for one entry, which looks like twins. -/
structure Twins (modules : List (Catalog.Module φ)) (i : Nat) (h h' : Host (Catalog φ) φ) :
    Prop where
  listed : h.loader.modules = modules ∧ h'.loader.modules = modules
  keys : h'.registry.keys = h.registry.keys
  policy : h'.policy = h.policy
  phase : h'.phase = h.phase
  others : ∀ j, j ≠ i → (h.entryAt j).map Entry.face = (h'.entryAt j).map Entry.face
  twins : ∀ e e', h.entryAt i = some e → h'.entryAt i = some e' → e.Twins modules e'

variable {modules : List (Catalog.Module φ)} {i : Nat} {h h' : Host (Catalog φ) φ}

theorem Twins.admits_eq (ht : Twins modules i h h') (op : Operation) :
    h'.admits op = h.admits op := by
  have hvalidate : h'.registry.validate = h.registry.validate := by
    rw [Registry.validate, Registry.validate, ht.keys]
  cases op <;> simp only [admits, hvalidate, ht.phase]

/-- Lines that spare the entry have the same impact on all others. -/
theorem Twins.impacts_ofLines (ht : Twins modules i h h') {lines lines' : List Table.Line}
    (hlines : SparesLines modules h.registry.keys i lines lines') :
    (∀ j, j ≠ i → impact.ofLines h j lines = impact.ofLines h' j lines') ∧
      (impact.ofLines h i lines).Twins modules (impact.ofLines h' i lines') := by
  obtain ⟨rfl, hbroken⟩ := hlines
  refine ⟨fun j hj ↦ ?_, ?_⟩
  · rw [impact.ofLines, impact.ofLines, ht.keys, lastLineFor?_filter_of_ne hj]
  · rw [impact.ofLines, impact.ofLines, ht.keys, lastLineFor?_filter_self]
    cases hlast : lastLineFor? h.registry.keys i lines with
    | none => exact .same (by simp)
    | some line =>
      refine .broken (hbroken line ?_ ?_)
      · exact List.mem_reverse.mp (List.mem_of_find?_eq_some hlast)
      · simpa using List.find?_some hlast

theorem Twins.impacts_of_applies (ht : Twins modules i h h') (op op' : Operation)
    (hop : op.Applies) (hop' : op'.Applies) (hadmits : h.admits op' = h.admits op)
    (hlines : SparesLines modules h.registry.keys i (op.lines h.policy) (op'.lines h.policy)) :
    (∀ j, j ≠ i → h.impact j op = h'.impact j op') ∧
      (h.impact i op).Twins modules (h'.impact i op') := by
  have hspares : SparesLines modules h.registry.keys i (h.linesOf op) (h'.linesOf op') := by
    rw [linesOf, linesOf, ht.admits_eq, hadmits, ht.policy]
    split
    · exact hlines
    · exact ⟨rfl, fun _ hline ↦ absurd hline List.not_mem_nil⟩
  simpa only [impact_of_applies hop, impact_of_applies hop'] using ht.impacts_ofLines hspares

/-- Without a table, an impact depends on the phase at most. -/
theorem impact_congr {op : Operation} (tables : ¬op.Applies) (hphase : h'.phase = h.phase)
    (j : Nat) : h.impact j op = h'.impact j op := by
  cases op with
  | unloadHook => rw [impact, impact, hphase]
  | applyTable | loadConfig | init | loadHook => exact absurd trivial tables
  | _ => rfl

/-- Without a table, only a configuration assigns a target. -/
theorem impact_ne_assign {op : Operation} (tables : ¬op.Applies)
    (others : ∀ target, op ≠ .configure i target) (target : Target) :
    h.impact i op ≠ .assign target := by
  cases op with
  | configure j target' =>
    have hji : j ≠ i := fun hji ↦ others target' (hji ▸ rfl)
    simp [impact, hji]
  | get | isOverridden | dispatch | dispatchOrDefault | unloadHook =>
    rw [impact]
    split <;> simp
  | resolveAll | info | snapshot | enterLoaded | enterUnloaded | dispose => simp [impact]
  | _ => exact absurd trivial tables

/-- **One operation** has the same impact on all other entries as what is done in its place. -/
theorem Twins.impacts (ht : Twins modules i h h') {op : Operation} {op? : Option Operation}
    (hspares : op.Spares modules h.registry.keys h.policy i op?) :
    (∀ j, j ≠ i → h.impact j op = h'.impact? j op?) ∧
      (h.impact i op).Twins modules (h'.impact? i op?) := by
  cases hspares with
  | @configure target broken =>
    refine ⟨fun j hj ↦ if_neg (Ne.symm hj), ?_⟩
    rw [impact, if_pos rfl]
    exact .broken broken
  | @applyTable t t' lines =>
    exact ht.impacts_of_applies (.applyTable t) (.applyTable t') trivial trivial rfl lines
  | @loadConfig file file' lines =>
    exact ht.impacts_of_applies (.loadConfig file) (.loadConfig file') trivial trivial rfl lines
  | @init file file' lines =>
    exact ht.impacts_of_applies (.init file) (.init file') trivial trivial rfl lines
  | @loadHook file file' lines =>
    exact ht.impacts_of_applies (.loadHook file) (.loadHook file') trivial trivial rfl lines
  | same tables others =>
    have hsame (j : Nat) : h.impact j op = h'.impact j op := impact_congr tables ht.phase j
    exact ⟨fun j _ ↦ hsame j, hsame i ▸ .same (impact_ne_assign tables others)⟩

theorem fixed_perform? (hroom : h.loader.modules.length < Catalog.slots) (op? : Option Operation) :
    (h.perform? op?).loader.modules = h.loader.modules ∧
      (h.perform? op?).registry.keys = h.registry.keys ∧ (h.perform? op?).policy = h.policy := by
  cases op? with
  | none => exact ⟨rfl, rfl, rfl⟩
  | some op => exact ⟨modules_perform hroom op, h.keys_perform op, (h.phase_perform op).2⟩

theorem map_face_perform? (hroom : h.loader.modules.length < Catalog.slots)
    (op? : Option Operation) (j : Nat) :
    ((h.perform? op?).entryAt j).map Entry.face =
      ((h.entryAt j).map Entry.face).map fun e ↦
        ((h.impact? j op?).apply h.loader.modules e).face := by
  cases op? with
  | some op => exact map_face_perform hroom op j
  | none =>
    cases he : h.entryAt j with
    | none => rw [perform?, he, Option.map_none, Option.map_none]
    | some e =>
      rw [perform?, he]
      rfl

/-- What is done in the place of an operation finds the entry as it was before. -/
theorem exists_of_entryAt_perform? (hroom : h.loader.modules.length < Catalog.slots)
    {op? : Option Operation} {j : Nat} {d : Entry φ} (hd : (h.perform? op?).entryAt j = some d) :
    ∃ e, h.entryAt j = some e ∧ d.face = ((h.impact? j op?).apply h.loader.modules e).face := by
  have hmap := map_face_perform? hroom op? j
  rw [hd, Option.map_some, eq_comm, Option.map_map, Option.map_eq_some_iff] at hmap
  obtain ⟨e, he, hface⟩ := hmap
  rw [Function.comp_apply, Impact.face_apply] at hface
  exact ⟨e, he, hface.symm⟩

theorem Twins.phase_perform? (ht : Twins modules i h h') {op : Operation}
    {op? : Option Operation} (hspares : op.Spares modules h.registry.keys h.policy i op?) :
    (h'.perform? op?).phase = (h.perform op).host.phase := by
  rw [(h.phase_perform op).1, ← ht.phase]
  cases hspares with
  | configure => rfl
  | _ => exact (h'.phase_perform _).1

/-- **One step** leaves two hosts that look alike so. -/
theorem Twins.perform (ht : Twins modules i h h') (hroom : modules.length < Catalog.slots)
    {op : Operation} {op? : Option Operation}
    (hspares : op.Spares modules h.registry.keys h.policy i op?) :
    Twins modules i (h.perform op).host (h'.perform? op?) := by
  have hroom₁ : h.loader.modules.length < Catalog.slots := ht.listed.1 ▸ hroom
  have hroom₂ : h'.loader.modules.length < Catalog.slots := ht.listed.2 ▸ hroom
  obtain ⟨hothers, htwins⟩ := ht.impacts hspares
  obtain ⟨hmodules, hkeys, hpolicy⟩ := fixed_perform? hroom₁ (some op)
  obtain ⟨hmodules', hkeys', hpolicy'⟩ := fixed_perform? hroom₂ op?
  refine ⟨⟨hmodules.trans ht.listed.1, hmodules'.trans ht.listed.2⟩,
    hkeys'.trans (ht.keys.trans hkeys.symm), hpolicy'.trans (ht.policy.trans hpolicy.symm),
    ht.phase_perform? hspares, fun j hj ↦ ?_, fun d d' hd hd' ↦ ?_⟩
  · rw [map_face_perform hroom₁, map_face_perform? hroom₂, ht.others j hj, hothers j hj,
      ht.listed.1, ht.listed.2]
  · have hd₁ : (h.perform? (some op)).entryAt i = some d := hd
    obtain ⟨e, he, hface⟩ := exists_of_entryAt_perform? hroom₁ hd₁
    obtain ⟨e', he', hface'⟩ := exists_of_entryAt_perform? hroom₂ hd'
    rw [← Entry.Twins.face_iff, hface, hface', Entry.Twins.face_iff, ht.listed.1, ht.listed.2]
    exact (ht.twins e e' he he').apply htwins

/-- **A run** leaves two hosts that look alike so. -/
theorem Twins.after (ht : Twins modules i h h') (hroom : modules.length < Catalog.slots)
    {script : List (Operation × Option Operation)}
    (hscript : ∀ p ∈ script, p.1.Spares modules h.registry.keys h.policy i p.2) :
    Twins modules i (h.after (script.map (·.1))) (h'.after (script.filterMap (·.2))) := by
  induction script generalizing h h' with
  | nil => exact ht
  | cons p script ih =>
    obtain ⟨hfirst, hothers⟩ := List.forall_mem_cons.mp hscript
    have hstep := ht.perform hroom hfirst
    -- Which entry a line is for is decided by the keys, and they are those of the start.
    have hrest := ih hstep fun q hq ↦ by
      rw [h.keys_perform, (h.phase_perform p.1).2]
      exact hothers q hq
    rw [List.map_cons, after_cons, List.filterMap_cons]
    cases hop : p.2 with
    | none =>
      rw [hop] at hrest
      exact hrest
    | some op' =>
      rw [hop] at hrest
      exact hrest

end Host

/-! ### What calls are answered -/

namespace FallbackPolicy

/-- Failing closed tells the reason of a broken override. -/
theorem choose_failed {reason : BindError} (hr : reason ≠ .noConfig) :
    failClosed.choose (.failed reason) (none : Option φ) = .error (.unavailable reason) := by
  cases reason with
  | noConfig => exact absurd rfl hr
  | _ => rfl

/-- Without a broken override to tell of, it makes no difference how to fail. -/
theorem choose_failClosed {s : State} (hs : ∀ reason, s = .failed reason → reason = .noConfig)
    (function : Option φ) : failClosed.choose s function = failOpen.choose s function := by
  cases function with
  | some function => rfl
  | none =>
    cases s with
    | failed reason =>
      obtain rfl := hs reason rfl
      rfl
    | _ => rfl

end FallbackPolicy

namespace Host

variable {modules : List (Catalog.Module φ)} {i : Nat} {h h' : Host (Catalog φ) φ}

theorem result_dispatch [Loader σ φ] (h : Host σ φ) (policy : FallbackPolicy) (j : Nat) :
    (h.dispatch policy j).result =
      policy.choose ((h.get j).host.stateAt j) (h.get j).result := rfl

theorem result_get_of_none {j : Nat} (he : h.entryAt j = none) :
    (h.get j).result = none ∧ (h.get j).host.stateAt j = .unresolved := by
  have he' : h.registry.entries[j]? = none := he
  simp only [get, he', stateAt, Option.map_none, Option.getD_none, and_self]

/-- The entries at an index are both missing, or look alike, or are twins. -/
theorem Twins.cases_entryAt (ht : Twins modules i h h') (j : Nat) :
    (h.entryAt j = none ∧ h'.entryAt j = none) ∨
      ∃ e e', h.entryAt j = some e ∧ h'.entryAt j = some e' ∧
        (j = i ∧ e.Twins modules e' ∨ j ≠ i ∧ e.face = e'.face) := by
  have hlength : h'.registry.entries.length = h.registry.entries.length := by
    simpa [Registry.keys] using congrArg List.length ht.keys
  cases he : h.entryAt j with
  | none =>
    refine .inl ⟨rfl, ?_⟩
    rw [entryAt, List.getElem?_eq_none_iff] at he ⊢
    rwa [hlength]
  | some e =>
    obtain ⟨hlt, -⟩ := List.getElem?_eq_some_iff.mp he
    have he' : h'.entryAt j = some _ := List.getElem?_eq_getElem (hlength ▸ hlt)
    refine .inr ⟨e, _, rfl, he', ?_⟩
    by_cases hj : j = i
    · subst hj
      exact .inl ⟨rfl, ht.twins _ _ he he'⟩
    · have hothers := ht.others j hj
      rw [he, he'] at hothers
      exact .inr ⟨hj, Option.some.inj hothers⟩

/-- **No entry answers differently.** -/
theorem Twins.result_get (ht : Twins modules i h h') (hroom : modules.length < Catalog.slots)
    (j : Nat) : (h.get j).result = (h'.get j).result := by
  obtain ⟨he, he'⟩ | ⟨e, e', he, he', hlook⟩ := ht.cases_entryAt j
  · rw [(result_get_of_none he).1, (result_get_of_none he').1]
  · rw [(answer_get (ht.listed.1 ▸ hroom) he).1, (answer_get (ht.listed.2 ▸ hroom) he').1,
      ht.listed.1, ht.listed.2]
    obtain ⟨-, htwins⟩ | ⟨-, hface⟩ := hlook
    · rw [htwins.answer.1, htwins.answer.2]
    · rw [← e.answer_face, hface, e'.answer_face]

/-- Once it was asked, no other entry is in a different state. -/
theorem Twins.stateAt_get (ht : Twins modules i h h') (hroom : modules.length < Catalog.slots)
    {j : Nat} (hj : j ≠ i) : (h.get j).host.stateAt j = (h'.get j).host.stateAt j := by
  obtain ⟨he, he'⟩ | ⟨e, e', he, he', hlook⟩ := ht.cases_entryAt j
  · rw [(result_get_of_none he).2, (result_get_of_none he').2]
  · rw [(answer_get (ht.listed.1 ▸ hroom) he).2, (answer_get (ht.listed.2 ▸ hroom) he').2,
      ht.listed.1, ht.listed.2]
    obtain ⟨heq, -⟩ | ⟨-, hface⟩ := hlook
    · exact absurd heq hj
    · rw [← e.state_settle_face, hface, e'.state_settle_face]

/-- **Failing closed tells twins apart** if a broken target was taken in the first run. -/
theorem Twins.dispatch_failClosed (ht : Twins modules i h h')
    (hroom : modules.length < Catalog.slots) {e : Entry φ} (he : h.entryAt i = some e) :
    (h'.dispatch .failClosed i).result = .ok .builtIn ∧
      (e.target.isConfigured = false → (h.dispatch .failClosed i).result = .ok .builtIn) ∧
      (e.target.isConfigured = true → ∃ reason, reason ≠ .noConfig ∧
        (h.get i).host.stateAt i = .failed reason ∧
          (h.dispatch .failClosed i).result = .error (.unavailable reason)) := by
  obtain ⟨hnone, -⟩ | ⟨d, e', hd, he', ⟨-, htwins⟩ | ⟨hne, -⟩⟩ := ht.cases_entryAt i
  · cases hnone.symm.trans he
  swap
  · exact absurd rfl hne
  obtain rfl := Option.some.inj (hd.symm.trans he)
  obtain ⟨hanswer, hstate⟩ := answer_get (ht.listed.1 ▸ hroom) hd
  obtain ⟨hanswer', hstate'⟩ := answer_get (ht.listed.2 ▸ hroom) he'
  rw [ht.listed.1] at hanswer hstate
  rw [ht.listed.2] at hanswer' hstate'
  obtain ⟨reason, hverdict, hsettled, hsettled'⟩ := htwins.state_settle
  rw [hsettled] at hstate
  rw [hsettled'] at hstate'
  have hresult : (h.dispatch .failClosed i).result =
      FallbackPolicy.failClosed.choose (.failed reason) none := by
    rw [result_dispatch, hstate, hanswer, htwins.answer.1]
  have hresult' : (h'.dispatch .failClosed i).result =
      FallbackPolicy.failClosed.choose (.failed .noConfig) none := by
    rw [result_dispatch, hstate', hanswer', htwins.answer.2]
  have hconfigured : d.target.isConfigured = false ↔ reason = .noConfig := by
    rw [← Catalog.verdict_eq_noConfig_iff, hverdict, Except.error.injEq]
  refine ⟨hresult', fun hn ↦ ?_, fun hc ↦ ?_⟩
  · rw [hresult, hconfigured.mp hn]
    rfl
  · have hreason : reason ≠ .noConfig := fun hr ↦ by
      rw [hconfigured.mpr hr] at hc
      cases hc
    exact ⟨reason, hreason, hstate, hresult.trans (FallbackPolicy.choose_failed hreason)⟩

end Host

theorem Host.dispatch_failClosed [Loader σ φ] {h : Host σ φ} {i : Nat}
    (hs : ∀ reason, (h.get i).host.stateAt i = .failed reason → reason = .noConfig) :
    h.dispatch .failClosed i = h.dispatch .failOpen i := by
  rw [dispatch, dispatch, Step.map, Step.map, FallbackPolicy.choose_failClosed hs]

/-- A call of a bound entry whose handle was released goes to the function that is built in. -/
theorem Host.dispatch_released [Loader σ φ] {h : Host σ φ} {i : Nat} {e : Entry φ}
    (he : h.entryAt i = some e) (hb : e.state = .bound) (policy : FallbackPolicy) :
    (h.dispose.host.dispatch policy i).result = .ok .builtIn := by
  have hreleased : h.dispose.host.registry.entries[i]? = some e.release.2 := by
    have he' : h.registry.entries[i]? = some e := he
    rw [entries_dispose, List.getElem?_map, he', Option.map_some]
  obtain ⟨hi, -⟩ := List.getElem?_eq_some_iff.mp hreleased
  have ht : e.release.2.state.isTerminal = true := by
    rw [Entry.state_release, hb]
    rfl
  have hget : (h.dispose.host.get i).result = none ∧
      (h.dispose.host.get i).host.stateAt i = .bound := by
    simp only [get, hreleased, Entry.get_of_isTerminal ht, stateAt, List.getElem?_set_self hi,
      Option.map_some, Option.getD_some]
    exact ⟨rfl, hb⟩
  rw [result_dispatch, hget.1, hget.2]
  cases policy <;> rfl

/-- **Failing open hides a broken override, and failing closed shows that and nothing else.**

Two runs over a catalog differ by the targets of one entry: the first one gives it broken targets,
by configuring it or in the tables that are applied, and the second one leaves it unconfigured. At
every point of the two runs, all entries answer the same in both, are overridden in both or in
neither, and calls of them go to the same functions when failing open. When failing closed, this
holds for all other entries; calls of this one go to the function that is built in, except that they
are refused in the first run if a broken target was taken, for the reason in the state of the entry.

In any host, failing closed and failing open come to the same, as long as the entry that is called
is not failed for another reason than that it was not configured. A call of a bound entry that was
released goes to the function that is built in. -/
theorem broken_override_hidden (c : Catalog φ) (hroom : c.modules.length < Catalog.slots)
    (keys : List String) (policy : NamePolicy) (i : Nat)
    {script : List (Operation × Option Operation)}
    (hscript : ∀ p ∈ script, p.1.Spares c.modules keys policy i p.2) (n : Nat) :
    let start : Host (Catalog φ) φ := .fresh keys c policy
    let now := start.after ((script.take n).map (·.1))
    let now' := start.after ((script.take n).filterMap (·.2))
    (∀ j, (now.get j).result = (now'.get j).result ∧
        (now.isOverridden j).result = (now'.isOverridden j).result ∧
        (now.dispatch .failOpen j).result = (now'.dispatch .failOpen j).result ∧
        (now.dispatchOrDefault j).result = (now'.dispatchOrDefault j).result) ∧
      (∀ j, j ≠ i →
        (now.dispatch .failClosed j).result = (now'.dispatch .failClosed j).result) ∧
      (∀ e, now.entryAt i = some e →
        (now'.dispatch .failClosed i).result = .ok .builtIn ∧
          (e.target.isConfigured = false → (now.dispatch .failClosed i).result = .ok .builtIn) ∧
          (e.target.isConfigured = true → ∃ reason, reason ≠ .noConfig ∧
            (now.get i).host.stateAt i = .failed reason ∧
              (now.dispatch .failClosed i).result = .error (.unavailable reason))) ∧
      ∀ (τ : Type) [Loader τ φ] (h : Host τ φ) (j : Nat),
        ((∀ reason, (h.get j).host.stateAt j = .failed reason → reason = .noConfig) →
            h.dispatch .failClosed j = h.dispatch .failOpen j) ∧
          ∀ e, h.entryAt j = some e → e.state = .bound → ∀ fallback : FallbackPolicy,
            (h.dispose.host.dispatch fallback j).result = .ok .builtIn := by
  intro start now now'
  have hstart : Host.Twins c.modules i start start := by
    refine ⟨⟨rfl, rfl⟩, rfl, rfl, rfl, fun _ _ ↦ rfl, fun e e' he he' ↦ ?_⟩
    obtain rfl := Option.some.inj (he.symm.trans he')
    obtain ⟨key, -, rfl⟩ := List.mem_map.mp (List.mem_of_getElem? he)
    have hverdict : Catalog.verdict c.modules {} = .error .noConfig :=
      Catalog.verdict_eq_noConfig_iff.mpr rfl
    exact ⟨⟨.noConfig, hverdict, .inl ⟨rfl, rfl⟩⟩, hverdict, rfl, rfl⟩
  have hkeys : start.registry.keys = keys := Registry.keys_ofKeys keys
  have htwins : Host.Twins c.modules i now now' := hstart.after hroom fun p hp ↦ by
    rw [hkeys]
    exact hscript p (List.mem_of_mem_take hp)
  have hget := htwins.result_get hroom
  refine ⟨fun j ↦ ⟨hget j, congrArg Option.isSome (hget j), ?_,
      congrArg Choice.ofFunction (hget j)⟩, fun j hj ↦ ?_,
    fun e he ↦ htwins.dispatch_failClosed hroom he,
    fun τ _ h j ↦ ⟨Host.dispatch_failClosed, fun e ↦ Host.dispatch_released⟩⟩
  · rw [Host.result_dispatch, Host.result_dispatch, FallbackPolicy.choose_failOpen,
      FallbackPolicy.choose_failOpen, hget]
  · rw [Host.result_dispatch, Host.result_dispatch, htwins.stateAt_get hroom hj, hget]

/-- The symbol of one override is missing. The call is refused in the run that configured it, when
failing closed, and the other override, configured by a table in both runs, is found in both. -/
theorem broken_override_hidden_lost_symbol :
    let t : Table := { lines := [⟨1, "sum", "libsum", "lost"⟩, ⟨2, "total", "libsum", "sum"⟩] }
    let t' : Table := { lines := [⟨2, "total", "libsum", "sum"⟩] }
    let script : List (Operation × Option Operation) :=
      [(.configure 0 ⟨"libgone", "sum"⟩, none), (.applyTable t, some (.applyTable t')),
        (.get 1, some (.get 1))]
    let start : Host (Catalog Nat) Nat := .fresh ["sum", "total"] .single .truncate
    let now := start.after ((script.take 3).map (·.1))
    let now' := start.after ((script.take 3).filterMap (·.2))
    Catalog.single.modules.length < Catalog.slots ∧
      (∀ p ∈ script, p.1.Spares Catalog.single.modules ["sum", "total"] .truncate 0 p.2) ∧
      (now.dispatch .failOpen 1).result = .ok (.overriding 7) ∧
      (now'.dispatch .failOpen 1).result = .ok (.overriding 7) ∧
      (now.dispatch .failOpen 0).result = (now'.dispatch .failOpen 0).result ∧
      (∃ reason, reason ≠ .noConfig ∧ (now.get 0).host.stateAt 0 = .failed reason ∧
        (now.dispatch .failClosed 0).result = .error (.unavailable reason)) ∧
      now'.dispatch .failClosed 0 = now'.dispatch .failOpen 0 ∧
      (now.dispose.host.dispatch .failClosed 1).result = .ok .builtIn := by
  intro t t' script start now now'
  have hroom : Catalog.single.modules.length < Catalog.slots := by decide
  have hlost : Target.Broken Catalog.single.modules ⟨"libsum", "lost"⟩ :=
    ⟨.symbolNotFound, by decide, rfl⟩
  have hgone : Target.Broken Catalog.single.modules ⟨"libgone", "sum"⟩ :=
    ⟨.moduleNotFound, by decide, rfl⟩
  have hscript : ∀ p ∈ script,
      p.1.Spares Catalog.single.modules ["sum", "total"] .truncate 0 p.2 := by
    have hlines : SparesLines Catalog.single.modules ["sum", "total"] 0 t.lines t'.lines := by
      refine ⟨by decide, fun line hline hfor ↦ ?_⟩
      obtain rfl | rfl : line = _ ∨ line = _ := by simpa [t] using hline
      · exact hlost
      · exact absurd hfor (by decide)
    simp only [script, List.forall_mem_cons]
    exact ⟨.configure hgone, .applyTable hlines, .same id nofun, List.forall_mem_nil _⟩
  obtain ⟨hanswers, -, hclosed, hany⟩ :=
    broken_override_hidden Catalog.single hroom ["sum", "total"] .truncate 0 hscript 3
  have hsum : (now.entryAt 0).map (·.target) = some ⟨"libsum", "lost"⟩ := by decide +kernel
  have htotal : (now.dispatch .failOpen 1).result = .ok (.overriding 7) := by decide +kernel
  have hbound : (now.entryAt 1).map (·.state) = some .bound := by decide +kernel
  have hstate : (now'.get 0).host.stateAt 0 = .failed .noConfig := by decide +kernel
  obtain ⟨d, hd, htarget⟩ := Option.map_eq_some_iff.mp hsum
  obtain ⟨e, he, hb⟩ := Option.map_eq_some_iff.mp hbound
  refine ⟨hroom, hscript, htotal, (hanswers 1).2.2.1.symm.trans htotal, (hanswers 0).2.2.1,
    (hclosed d hd).2.2 (htarget ▸ by decide), (hany _ now' 0).1 fun reason hreason ↦ ?_,
    (hany _ now 1).2 e he hb .failClosed⟩
  exact (State.failed.inj (hstate.symm.trans hreason)).symm

end Interpose
