import Interpose.Proofs.Knowledge
import Interpose.Proofs.Lifecycle
import Mathlib.Algebra.Order.BigOperators.Group.Finset

/-!
# Threads settle an entry once

However many threads ask for entries or configure them, and in whatever order their steps come, the
deeds done to an entry make up a history. So the loader is asked for its module at most once, one
outcome is published, everyone who asks is answered with it, and it is told once.
`threads_settle_once` states this for every machine that can be reached.

The invariant is `Machine.Sound`: the history of each entry, what each thread knows, that a lock is
with the one thread that has it, and that one thread owes telling an outcome that was published and
not told. `Machine.Sound.step` keeps it, by `Point.advance` for the thread that takes the step and
by `Point.Fits.of_change` for the others.

Whenever some call has not returned some thread can take a step, since a thread that has a lock
never waits. As every step brings a call nearer to its end, all calls can return
(`Machine.exists_reaches_finished`).
-/

namespace Interpose

variable {σ φ : Type}

/-! ### The invariant of a machine -/

namespace Machine

variable {ι κ : Type}

/-- A thread is in a call on an entry, at a point of some kind. -/
def At (kind : Point φ → Bool) (m : Machine ι κ σ φ) (t : ι) (k : κ) : Prop :=
  ∃ point, m.doing t = some (k, point) ∧ kind point = true

theorem at_iff {kind : Point φ → Bool} {m : Machine ι κ σ φ} {t : ι} {k k' : κ} {point : Point φ}
    (h : m.doing t = some (k, point)) : m.At kind t k' ↔ k' = k ∧ kind point = true := by
  simp only [At, h, Option.some.injEq, Prod.mk.injEq]
  constructor
  · rintro ⟨_, ⟨rfl, rfl⟩, hkind⟩
    exact ⟨rfl, hkind⟩
  · rintro ⟨rfl, hkind⟩
    exact ⟨point, ⟨rfl, rfl⟩, hkind⟩

theorem not_at {kind : Point φ → Bool} {m : Machine ι κ σ φ} {t : ι} {k : κ}
    (h : m.doing t = none) : ¬m.At kind t k := by
  rintro ⟨point, hp, -⟩
  rw [h] at hp
  cases hp

variable [DecidableEq κ]

/-- What holds of every machine that can be reached, given the phases of its entries. -/
structure Sound (keys : κ → String) (targets : κ → Target) (program : ι → List (Call κ))
    (phase : κ → Phase φ) (m : Machine ι κ σ φ) : Prop where
  key : ∀ k, (m.cells k).key = keys k
  history : ∀ k, History (keys k) (targets k) (m.history k) (phase k)
  cells : ∀ k, (phase k).Cells (m.cells k)
  fits : ∀ {t k point}, m.doing t = some (k, point) → point.Fits (phase k) (m.cells k)
  /-- The lock of an entry is with the thread that has it. -/
  owner_iff : ∀ {t k}, m.owner k = some t ↔ m.At Point.holds t k
  between : ∀ {k}, m.owner k = none → (phase k).Between
  exists_owes : ∀ {k target o}, phase k = .settled target o false → ∃ t, m.At Point.owesTelling t k
  owes_unique : ∀ {t t' k}, m.At Point.owesTelling t k → m.At Point.owesTelling t' k → t = t'
  /-- Every call for a function is yet to be made, or is being made, or led to an answer. -/
  asked : ∀ {t k}, Call.get k ∈ program t →
    Call.get k ∈ m.todo t ∨ m.At Point.asks t k ∨ ∃ function, .answered function ∈ m.history k

/-- The invariant holds at first. -/
theorem Sound.start (keys : κ → String) (targets : κ → Target) (loader : σ)
    (program : ι → List (Call κ)) :
    Sound keys targets program (fun k ↦ .waiting (targets k))
      (.start keys targets loader program : Machine ι κ σ φ) where
  key _ := rfl
  history _ := .nil
  cells _ := ⟨rfl, rfl, rfl, rfl⟩
  fits := nofun
  owner_iff := ⟨nofun, nofun⟩
  between _ := nofun
  exists_owes := nofun
  owes_unique := nofun
  asked h := .inl h

variable {keys : κ → String} {targets : κ → Target} {program : ι → List (Call κ)}
  {phase : κ → Phase φ} {m : Machine ι κ σ φ} {t : ι} {k : κ}

/-- An outcome that is owed was published. -/
theorem Sound.settled_of_owes (h : Sound keys targets program phase m)
    (ho : m.At Point.owesTelling t k) : (phase k).Settled := by
  obtain ⟨point, hp, howes⟩ := ho
  have hfits := h.fits hp
  cases point with
  | unlock target o | tell target o => exact ⟨target, o, false, hfits⟩
  | _ => cases howes

/-- Once all calls have returned, an entry that was asked for was settled, and that was told. -/
theorem Sound.settled_of_finished (h : Sound keys targets program phase m) (hf : m.Finished)
    (hasked : Call.get k ∈ program t) : ∃ target o, phase k = .settled target o true := by
  rcases h.asked hasked with htodo | hasks | ⟨function, hans⟩
  · rw [(hf t).2] at htodo
    cases htodo
  · exact absurd hasks (not_at (hf t).1)
  · obtain ⟨target, o, told, hp, -⟩ := (h.history k).answered hans
    cases told with
    | true => exact ⟨target, o, hp⟩
    | false =>
      obtain ⟨t', howes⟩ := h.exists_owes hp
      exact absurd howes (not_at (hf t').1)

variable [DecidableEq ι]

/-- What was done to the entries after a step. -/
theorem history_apply (x : Effect σ φ) (k' : κ) :
    (m.apply t k x).history k' =
      if k' = k then m.history k ++ x.deed.toList else m.history k' := by
  rcases hd : x.deed with - | deed
  · by_cases hk : k' = k <;> simp [history, apply, hd, hk]
  · by_cases hk : k' = k
    · simp [history, apply, hd, hk]
    · simp [history, apply, hd, hk, Ne.symm hk]

/-- Who is at a point of some kind after a step. -/
theorem at_apply {kind : Point φ → Bool} {x : Effect σ φ} {t' : ι} {k' : κ} :
    (m.apply t k x).At kind t' k' ↔
      if t' = t then k' = k ∧ x.next.any kind = true else m.At kind t' k' := by
  by_cases ht : t' = t
  · subst ht
    rw [if_pos rfl, At]
    simp only [apply, Function.update_self, Option.map_eq_some_iff, Prod.mk.injEq,
      Option.any_eq_true]
    constructor
    · rintro ⟨_, ⟨next, hn, rfl, rfl⟩, hkind⟩
      exact ⟨rfl, next, hn, hkind⟩
    · rintro ⟨rfl, next, hn, hkind⟩
      exact ⟨next, ⟨next, hn, rfl, rfl⟩, hkind⟩
  · simp [At, apply, ht]

omit [DecidableEq κ] in
/-- Who is at a point of some kind after a thread began a call. -/
theorem at_begin {kind : Point φ → Bool} {call : Call κ} {others : List (Call κ)} {t' : ι}
    {k' : κ} :
    (m.begin t call others).At kind t' k' ↔
      if t' = t then k' = call.start (φ := φ).1 ∧ kind call.start.2 = true
      else m.At kind t' k' := by
  by_cases ht : t' = t
  · subst ht
    rw [if_pos rfl, At]
    simp only [begin, Function.update_self, Option.some.injEq]
    constructor
    · rintro ⟨point, hp, hkind⟩
      rw [hp]
      exact ⟨rfl, hkind⟩
    · rintro ⟨rfl, hkind⟩
      exact ⟨_, rfl, hkind⟩
  · simp [At, begin, ht]

/-- **Beginning a call** keeps the invariant. -/
theorem Sound.begin (h : Sound keys targets program phase m) (hdoing : m.doing t = none)
    {call : Call κ} {others : List (Call κ)} (htodo : m.todo t = call :: others) :
    Sound keys targets program phase (m.begin t call others) where
  key := h.key
  history := h.history
  cells := h.cells
  fits := by
    intro t' k' point hp
    by_cases ht : t' = t
    · subst ht
      simp only [Machine.begin, Function.update_self, Option.some.injEq] at hp
      obtain rfl : (call.start (φ := φ)).2 = point := congrArg Prod.snd hp
      cases call <;> trivial
    · exact h.fits (by simpa [Machine.begin, ht] using hp)
  owner_iff := by
    intro t' k'
    rw [at_begin]
    split
    · rename_i ht
      subst ht
      -- No call begins with a lock.
      refine ⟨fun ho ↦ absurd (h.owner_iff.mp ho) (not_at hdoing), fun hs ↦ ?_⟩
      cases call <;> cases hs.2
    · exact h.owner_iff
  between := h.between
  exists_owes := by
    intro k' target o hp
    obtain ⟨t', ho⟩ := h.exists_owes hp
    refine ⟨t', at_begin.mpr ?_⟩
    rw [if_neg]
    · exact ho
    · rintro rfl
      exact not_at hdoing ho
  owes_unique := by
    intro t₁ t₂ k' h₁ h₂
    have hold {t'} (ht' : (m.begin t call others).At Point.owesTelling t' k') :
        m.At Point.owesTelling t' k' := by
      rw [at_begin] at ht'
      split at ht'
      · cases call <;> cases ht'.2
      · exact ht'
    exact h.owes_unique (hold h₁) (hold h₂)
  asked := by
    intro t' k' hmem
    rw [at_begin]
    by_cases ht : t' = t
    · subst ht
      rcases h.asked hmem with htodo' | hasks | hans
      · rw [htodo] at htodo'
        rcases List.mem_cons.mp htodo' with rfl | hothers
        · exact .inr (.inl (by simp [Call.start, Point.asks]))
        · exact .inl (by simpa [Machine.begin] using hothers)
      · exact absurd hasks (not_at hdoing)
      · exact .inr (.inr hans)
    · have htodo : (m.begin t call others).todo t' = m.todo t' := Function.update_of_ne ht ..
      rw [if_neg ht, htodo]
      exact h.asked hmem

section Apply

variable {point : Point φ} {x : Effect σ φ} {p' : Phase φ}

/-- The lock is with the thread that has it, after a step that uses the lock as its points tell. -/
theorem owner_apply_iff (h : ∀ {t k}, m.owner k = some t ↔ m.At Point.holds t k)
    (hdoing : m.doing t = some (k, point))
    (hlock : x.lock = .between point.holds (x.next.any Point.holds))
    (hfree : x.lock = .take → m.owner k = none) {t' : ι} {k' : κ} :
    (m.apply t k x).owner k' = some t' ↔ (m.apply t k x).At Point.holds t' k' := by
  have howner : (m.apply t k x).owner = useLock t k m.owner x.lock := rfl
  rw [at_apply, howner]
  by_cases hk : k' = k
  · subst hk
    by_cases ht : t' = t
    · subst ht
      -- The four uses of the lock are the four ways to have it before and after.
      rw [if_pos rfl, hlock]
      have hold := (h (t := t') (k := k')).trans (at_iff hdoing)
      cases hb : point.holds <;> cases ha : x.next.any Point.holds <;>
        simp [useLock, LockUse.between, hold, hb]
    · rw [if_neg ht, ← h, hlock]
      rw [hlock] at hfree
      have hold := (h (t := t) (k := k')).trans (at_iff hdoing)
      cases hb : point.holds <;> cases ha : x.next.any Point.holds
      · exact Iff.rfl
      · have hnone : m.owner k' = none := hfree (by rw [hb, ha]; rfl)
        simp [useLock, LockUse.between, hnone, Ne.symm ht]
      · have hsome : m.owner k' = some t := hold.mpr ⟨rfl, hb⟩
        simp [useLock, LockUse.between, hsome, Ne.symm ht]
      · exact Iff.rfl
  · rw [useLock_of_ne t m.owner x.lock hk]
    by_cases ht : t' = t
    · subst ht
      rw [if_pos rfl, h, at_iff hdoing]
      simp [hk]
    · rw [if_neg ht, h]

/-- The other threads go on knowing what they know. -/
theorem Sound.fits_apply (h : Sound keys targets program phase m)
    (hdoing : m.doing t = some (k, point)) (hadv : point.Advance (phase k) (m.cells k) x p')
    {t' : ι} {k' : κ} {point' : Point φ} (hp : (m.apply t k x).doing t' = some (k', point')) :
    point'.Fits (Function.update phase k p' k') ((m.apply t k x).cells k') := by
  by_cases ht : t' = t
  · subst ht
    simp only [Machine.apply, Function.update_self, Option.map_eq_some_iff, Prod.mk.injEq] at hp
    obtain ⟨next, hn, rfl, rfl⟩ := hp
    simp only [Machine.apply, Function.update_self]
    exact hadv.fits next hn
  · have hp' : m.doing t' = some (k', point') := by simpa [Machine.apply, ht] using hp
    by_cases hk : k' = k
    · subst hk
      simp only [Machine.apply, Function.update_self]
      refine (h.fits hp').of_change hadv.change (fun hh ↦ ?_) fun hh ↦ ?_
      · -- Two threads that have the lock are one.
        rw [← Bool.not_eq_true]
        intro hh'
        have hsome := h.owner_iff.mpr ⟨point, hdoing, hh⟩
        rw [h.owner_iff.mpr ⟨point', hp', hh'⟩] at hsome
        exact ht (Option.some.inj hsome)
      · rw [← Bool.not_eq_true]
        exact fun hh' ↦ ht (h.owes_unique ⟨point', hp', hh'⟩ ⟨point, hdoing, hh⟩)
    · simp only [Machine.apply, Function.update_of_ne hk]
      exact h.fits hp'

/-- No lock is free in the middle of resolving. -/
theorem Sound.between_apply (h : Sound keys targets program phase m)
    (hdoing : m.doing t = some (k, point)) (hadv : point.Advance (phase k) (m.cells k) x p')
    (hlock : x.lock = .between point.holds (x.next.any Point.holds))
    (hfree : x.lock = .take → m.owner k = none) {k' : κ} (ho : (m.apply t k x).owner k' = none) :
    (Function.update phase k p' k').Between := by
  by_cases hk : k' = k
  · subst hk
    rw [Function.update_self]
    have hnext : x.next.any Point.holds = false := by
      have hnot : ¬(m.apply t k' x).At Point.holds t k' := by
        rw [← owner_apply_iff h.owner_iff hdoing hlock hfree, ho]
        exact Option.some_ne_none t ∘ Eq.symm
      rw [at_apply, if_pos rfl] at hnot
      simpa using hnot
    rcases hadv.between with hb | hn | hbetween
    · -- A thread that never had the lock has not begun to resolve either.
      rw [hb, hnext] at hlock
      have howner : (m.apply t k' x).owner = m.owner := by
        rw [Machine.apply, hlock]
        rfl
      exact hadv.change.between hb (h.between (howner ▸ ho))
    · rw [hnext] at hn
      cases hn
    · exact hbetween
  · rw [Function.update_of_ne hk]
    have howner : (m.apply t k x).owner k' = m.owner k' := useLock_of_ne t m.owner x.lock hk
    exact h.between (howner ▸ ho)

/-- Some thread owes telling an outcome that was not told. -/
theorem Sound.exists_owes_apply (h : Sound keys targets program phase m)
    (hdoing : m.doing t = some (k, point)) (hadv : point.Advance (phase k) (m.cells k) x p')
    {k' : κ} {target : Target} {o : BindResult φ}
    (hp : Function.update phase k p' k' = .settled target o false) :
    ∃ t', (m.apply t k x).At Point.owesTelling t' k' := by
  by_cases hk : k' = k
  · subst hk
    rw [Function.update_self] at hp
    rcases hadv.teller target o hp with hnext | ⟨hbefore, hnot⟩
    · exact ⟨t, at_apply.mpr (by rw [if_pos rfl]; exact ⟨rfl, hnext⟩)⟩
    · obtain ⟨t', hother⟩ := h.exists_owes hbefore
      refine ⟨t', at_apply.mpr ?_⟩
      rw [if_neg]
      · exact hother
      · rintro rfl
        rw [(at_iff hdoing).mp hother |>.2] at hnot
        cases hnot
  · rw [Function.update_of_ne hk] at hp
    obtain ⟨t', hother⟩ := h.exists_owes hp
    refine ⟨t', at_apply.mpr ?_⟩
    rw [if_neg]
    · exact hother
    · rintro rfl
      exact hk ((at_iff hdoing).mp hother).1

/-- No two threads owe telling the same outcome. -/
theorem Sound.owes_unique_apply (h : Sound keys targets program phase m)
    (hdoing : m.doing t = some (k, point)) (hadv : point.Advance (phase k) (m.cells k) x p')
    {t₁ t₂ : ι} {k' : κ} (h₁ : (m.apply t k x).At Point.owesTelling t₁ k')
    (h₂ : (m.apply t k x).At Point.owesTelling t₂ k') : t₁ = t₂ := by
  have hother {t'} (ht : t' ≠ t) (ho : m.At Point.owesTelling t' k) :
      ¬x.next.any Point.owesTelling = true := by
    -- A thread comes to owe by publishing, and until then nothing was settled.
    rcases hadv.owes with hnext | hown | hp
    · simp [hnext]
    · exact absurd (h.owes_unique ho ⟨point, hdoing, hown⟩) ht
    · exact absurd (h.settled_of_owes ho) hp
  rw [at_apply] at h₁ h₂
  by_cases ht₁ : t₁ = t <;> by_cases ht₂ : t₂ = t
  · rw [ht₁, ht₂]
  · rw [if_pos ht₁] at h₁
    rw [if_neg ht₂, h₁.1] at h₂
    exact absurd h₁.2 (hother ht₂ h₂)
  · rw [if_pos ht₂] at h₂
    rw [if_neg ht₁, h₂.1] at h₁
    exact absurd h₂.2 (hother ht₁ h₁)
  · rw [if_neg ht₁] at h₁
    rw [if_neg ht₂] at h₂
    exact h.owes_unique h₁ h₂

/-- No call for a function is lost. -/
theorem Sound.asked_apply (h : Sound keys targets program phase m)
    (hdoing : m.doing t = some (k, point)) (hadv : point.Advance (phase k) (m.cells k) x p')
    {t' : ι} {k' : κ} (hmem : Call.get k' ∈ program t') :
    Call.get k' ∈ (m.apply t k x).todo t' ∨ (m.apply t k x).At Point.asks t' k' ∨
      ∃ function, .answered function ∈ (m.apply t k x).history k' := by
  rw [at_apply, history_apply]
  rcases h.asked hmem with htodo | hasks | ⟨function, hans⟩
  · exact .inl htodo
  · by_cases ht : t' = t
    · subst ht
      obtain ⟨rfl, ha⟩ := (at_iff hdoing).mp hasks
      rw [if_pos rfl, if_pos rfl]
      rcases hadv.asks with hnot | hnext | ⟨function, hd⟩
      · rw [ha] at hnot
        cases hnot
      · exact .inr (.inl ⟨rfl, hnext⟩)
      · exact .inr (.inr ⟨function, by simp [hd]⟩)
    · rw [if_neg ht]
      exact .inr (.inl hasks)
  · refine .inr (.inr ⟨function, ?_⟩)
    split
    · rename_i hk
      exact List.mem_append_left _ (hk ▸ hans)
    · exact hans

/-- **A step of a call** keeps the invariant. -/
theorem Sound.apply (h : Sound keys targets program phase m) (hdoing : m.doing t = some (k, point))
    (hadv : point.Advance (phase k) (m.cells k) x p')
    (hlock : x.lock = .between point.holds (x.next.any Point.holds))
    (hfree : x.lock = .take → m.owner k = none) :
    Sound keys targets program (Function.update phase k p') (m.apply t k x) where
  key := by
    intro k'
    by_cases hk : k' = k
    · subst hk
      simp only [Machine.apply, Function.update_self]
      exact hadv.key.trans (h.key k')
    · simp only [Machine.apply, Function.update_of_ne hk]
      exact h.key k'
  history := by
    intro k'
    rw [history_apply]
    by_cases hk : k' = k
    · subst hk
      have hphase := hadv.phase
      rw [if_pos rfl, Function.update_self]
      rcases hd : x.deed with - | deed
      · rw [hd] at hphase
        rw [hphase]
        simpa using h.history k'
      · rw [hd, h.key k'] at hphase
        exact (h.history k').snoc hphase
    · rw [if_neg hk, Function.update_of_ne hk]
      exact h.history k'
  cells := by
    intro k'
    by_cases hk : k' = k
    · subst hk
      simp only [Machine.apply, Function.update_self]
      exact hadv.cells
    · simp only [Machine.apply, Function.update_of_ne hk]
      exact h.cells k'
  fits := h.fits_apply hdoing hadv
  owner_iff := owner_apply_iff h.owner_iff hdoing hlock hfree
  between := h.between_apply hdoing hadv hlock hfree
  exists_owes := h.exists_owes_apply hdoing hadv
  owes_unique := h.owes_unique_apply hdoing hadv
  asked := h.asked_apply hdoing hadv

end Apply

/-- **One step** of a machine keeps the invariant. -/
theorem Sound.step [Loader σ φ] (h : Sound keys targets program phase m) {m' : Machine ι κ σ φ}
    (hs : m.step t = some m') : ∃ phase', Sound keys targets program phase' m' := by
  rw [Machine.step] at hs
  rcases hdoing : m.doing t with - | ⟨k, point⟩
  · rw [hdoing] at hs
    rcases htodo : m.todo t with - | ⟨call, others⟩
    · rw [htodo] at hs
      cases hs
    · rw [htodo] at hs
      obtain rfl := Option.some.inj hs
      exact ⟨phase, h.begin hdoing htodo⟩
  · rw [hdoing] at hs
    obtain ⟨x, hx, rfl⟩ := Option.map_eq_some_iff.mp hs
    have hfree : (m.owner k).isNone = true → (phase k).Between := fun ho ↦
      h.between (Option.isNone_iff_eq_none.mp ho)
    obtain ⟨p', hadv⟩ := Point.advance hx (h.fits hdoing) (h.cells k) hfree
    exact ⟨_, h.apply hdoing hadv (Point.lock_of_step hx) fun hl ↦
      Option.isNone_iff_eq_none.mp (Point.free_of_take hx hl)⟩

/-- **Every machine that can be reached** satisfies the invariant. -/
theorem Sound.reaches [Loader σ φ] {loader : σ}
    (h : (Machine.start keys targets loader program : Machine ι κ σ φ).Reaches m) :
    ∃ phase, Sound keys targets program phase m := by
  induction h with
  | refl => exact ⟨_, .start keys targets loader program⟩
  | tail _ hs ih =>
    obtain ⟨phase, hsound⟩ := ih
    obtain ⟨t, hstep⟩ := hs
    exact hsound.step hstep

/-! ### What follows -/

/-- **Nobody waits for ever**: while some call has not returned, some thread can take a step. A
thread that waits for a lock waits for a thread that does not. -/
theorem Sound.exists_step [Loader σ φ] (h : Sound keys targets program phase m)
    (hf : ¬m.Finished) : ∃ t m', m.step t = some m' := by
  obtain ⟨t, ht⟩ := not_forall.mp hf
  rcases hdoing : m.doing t with - | ⟨k, point⟩
  · rcases htodo : m.todo t with - | ⟨call, others⟩
    · exact absurd ⟨hdoing, htodo⟩ ht
    · exact ⟨t, m.begin t call others, by simp only [Machine.step, hdoing, htodo]⟩
  · rcases ho : m.owner k with - | t'
    · obtain ⟨x, hx⟩ : ∃ x, point.step true (m.cells k) m.loader = some x :=
        Point.exists_step_of_free
      exact ⟨t, m.apply t k x, step_of_doing hdoing (by rw [ho]; exact hx)⟩
    · -- The thread that has the lock can go on.
      obtain ⟨point', hdoing', hh⟩ := h.owner_iff.mp ho
      obtain ⟨x, hx⟩ : ∃ x, point'.step (m.owner k).isNone (m.cells k) m.loader = some x :=
        Point.exists_step_of_holds hh
      exact ⟨t', m.apply t' k x, step_of_doing hdoing' hx⟩

end Machine

/-! ### Calls return -/

/-- How many steps a call takes at most from a point on. -/
def Point.remaining : Point φ → Nat
  | unlockTarget | answer _ => 1
  | write _ | unlockSettled _ | loadFunction | tell .. => 2
  | check _ | recheckFunction | unlock .. => 3
  | acquireTarget _ | storeState .. => 4
  | close .. | storeFunction .. => 5
  | storeHandle .. => 6
  | resolve .. => 7
  | openModule .. => 8
  | copyTarget => 9
  | recheckState => 10
  | acquire => 11
  | loadState => 12

theorem Point.remaining_step [Loader σ φ] {free : Bool} {e : Entry φ} {loader : σ} {point : Point φ}
    {x : Effect σ φ} (hx : point.step free e loader = some x) :
    x.next.elim 0 Point.remaining < point.remaining := by
  cases point with
  | acquire | acquireTarget =>
    obtain rfl := Option.some.inj (Option.ite_none_right_eq_some.mp hx).2
    simp [remaining]
  | check target =>
    simp only [step] at hx
    split at hx <;> (obtain rfl := Option.some.inj hx; simp [remaining])
  | loadState | recheckState | copyTarget | openModule | resolve =>
    obtain rfl := Option.some.inj hx
    split <;> simp [remaining]
  | _ =>
    obtain rfl := Option.some.inj hx
    simp [remaining]

namespace Machine

variable {ι κ : Type} [DecidableEq ι] [DecidableEq κ] [Loader σ φ] {m m' : Machine ι κ σ φ}

/-- How many steps a thread takes at most. -/
def remaining (m : Machine ι κ σ φ) (t : ι) : Nat :=
  (m.doing t).elim 0 (fun (_, point) ↦ point.remaining) + 13 * (m.todo t).length

/-- A step brings its own thread nearer to the end, and no other thread farther from it. -/
theorem remaining_step {t : ι} (hs : m.step t = some m') :
    m'.remaining t < m.remaining t ∧ ∀ t', t' ≠ t → m'.remaining t' = m.remaining t' := by
  rw [step] at hs
  rcases hdoing : m.doing t with - | ⟨k, point⟩ <;> rw [hdoing] at hs
  · rcases htodo : m.todo t with - | ⟨call, others⟩ <;> rw [htodo] at hs <;> cases hs
    refine ⟨?_, fun t' ht ↦ by simp [remaining, begin, ht]⟩
    cases call <;> simp [remaining, begin, hdoing, htodo, Call.start, Point.remaining] <;> omega
  · obtain ⟨x, hx, rfl⟩ := Option.map_eq_some_iff.mp hs
    refine ⟨?_, fun t' ht ↦ by simp [remaining, apply, ht]⟩
    have hless := Point.remaining_step hx
    cases hn : x.next <;> rw [hn] at hless <;>
      simpa [remaining, apply, hdoing, hn] using hless

/-- **All calls can return**, from wherever finitely many threads have got to. -/
theorem exists_reaches_finished [Fintype ι] {keys : κ → String} {targets : κ → Target} {loader : σ}
    {program : ι → List (Call κ)}
    (h : (Machine.start keys targets loader program : Machine ι κ σ φ).Reaches m) :
    ∃ m', m.Reaches m' ∧ m'.Finished := by
  -- By induction on the steps that remain to all threads together.
  induction hn : ∑ t, m.remaining t using Nat.strong_induction_on generalizing m with
  | _ n ih =>
    by_cases hf : m.Finished
    · exact ⟨m, .refl, hf⟩
    · obtain ⟨phase, hsound⟩ := Sound.reaches h
      obtain ⟨t, m₁, hs⟩ := hsound.exists_step hf
      obtain ⟨hless, hsame⟩ := remaining_step hs
      have hsum : ∑ t, m₁.remaining t < n := by
        rw [← hn]
        refine Finset.sum_lt_sum (fun t' _ ↦ ?_) ⟨t, Finset.mem_univ t, hless⟩
        by_cases ht : t' = t
        · rw [ht]
          exact hless.le
        · exact (hsame t' ht).le
      obtain ⟨m', hreaches, hdone⟩ := ih _ hsum (h.tail ⟨t, hs⟩) rfl
      exact ⟨m', .head ⟨t, hs⟩ hreaches, hdone⟩

end Machine

/-- **Threads settle an entry once**, whatever calls they make, and in whatever order their steps
come.

The loader is asked for a module at most once, and an outcome is published at most once; one was
published exactly if the state is terminal. What was published is what the cells hold, and what
everybody is answered with. So no entry is ever bound without a function. It is what is told, too,
and it is told at most once. Once all calls have returned, an entry that was asked for was settled
once, and that was told once.

Answers, events and refusals come after an outcome was published, and no target is taken from then
on. The outcome is about the target that was taken last. While some call has not returned, some
thread can take a step. -/
theorem threads_settle_once {ι κ : Type} [DecidableEq ι] [DecidableEq κ] [Loader σ φ]
    (keys : κ → String) (targets : κ → Target) (loader : σ) (program : ι → List (Call κ))
    {m : Machine ι κ σ φ} (h : (Machine.start keys targets loader program).Reaches m) (k : κ) :
    let e := m.cells k
    let deeds := m.history k
    let target := lastTaken (targets k) deeds
    (deeds.countP Deed.isOpened ≤ 1 ∧ deeds.countP Deed.isPublished ≤ 1 ∧
        (e.state.isTerminal = true ↔ deeds.countP Deed.isPublished = 1)) ∧
      (∀ o, .published o ∈ deeds →
        (e.state = o.state ∧ e.handle = o.handle ∧ e.function = o.function) ∧
          (∀ function, .answered function ∈ deeds → function = o.function) ∧
          ∀ event, .told event ∈ deeds → event = o.event (keys k) target) ∧
      (e.state = .bound → e.handle.isSome ∧ e.function.isSome) ∧
      deeds.countP Deed.isTold ≤ 1 ∧
      (m.Finished → (∃ t, Call.get k ∈ program t) →
        deeds.countP Deed.isPublished = 1 ∧ deeds.countP Deed.isTold = 1) ∧
      (∀ early deed late, deeds = early ++ deed :: late →
        (∃ event, deed = .told event) ∨ (∃ function, deed = .answered function) ∨
          (∃ target', deed = .refused target') → ∃ o, .published o ∈ early) ∧
      (∀ early late o, deeds = early ++ late → .published o ∈ early →
        ∀ target', .taken target' ∉ late) ∧
      (e.target = target ∧ ∀ file, .opened file ∈ deeds → target.file = .ok file) ∧
      (¬m.Finished → ∃ t m', m.step t = some m') := by
  intro e deeds target
  obtain ⟨phase, hs⟩ := Machine.Sound.reaches h
  have hhist : History (keys k) (targets k) deeds (phase k) := hs.history k
  have hcells := hs.cells k
  have htarget : target = (phase k).target := hhist.lastTaken_eq
  obtain ⟨hopened, hpublished, htold⟩ := hhist.countP_le_one
  refine ⟨⟨hopened, hpublished, hcells.isTerminal_iff.trans hhist.settled_iff_countP⟩, ?_, ?_,
    htold, ?_, ?_, ?_, ⟨?_, ?_⟩, hs.exists_step⟩
  · intro o ho
    obtain ⟨target', told, hp⟩ := hhist.published_iff.mp ho
    rw [hp] at hcells htarget
    refine ⟨⟨hcells.1, hcells.2.2⟩, fun function hans ↦ ?_, fun event htold ↦ ?_⟩
    · obtain ⟨_, _, _, hp', hf⟩ := hhist.answered hans
      rw [hp] at hp'
      cases hp'
      exact hf
    · obtain ⟨_, _, hp', he⟩ := hhist.told htold
      rw [hp] at hp'
      cases hp'
      rw [htarget]
      exact he
  · exact hcells.isSome_of_bound
  · rintro hf ⟨t, hasked⟩
    obtain ⟨_, _, hp⟩ := hs.settled_of_finished hf hasked
    have hcounts := hhist.counts
    rw [hp] at hcounts
    exact hcounts.2
  · intro early deed late hdeeds hd
    exact History.published_before (hdeeds ▸ hhist) hd
  · intro early late o hdeeds ho
    exact History.not_taken_after (hdeeds ▸ hhist) ho
  · rw [htarget]
    exact hcells.target_eq
  · intro file hmem
    rw [htarget]
    exact hhist.file_eq hmem

/-- Two threads that are about to ask the same entry. -/
def Machine.twoAsking : Machine Bool Unit (Catalog Nat) Nat :=
  .start (fun _ ↦ "sum") (fun _ ↦ ⟨"libsum", "sum"⟩) .single fun _ ↦ [.get ()]

/-- An order of steps in which both threads find the entry unresolved, and one of them has to wait
for the other. -/
def raceSchedule : List Bool :=
  [true, false, true, false, true, false] ++ List.replicate 8 true ++ List.replicate 5 false ++
    [true, true]

/-- When two threads ask at the same time the outcome is told once. -/
theorem threads_settle_once_race :
    let m := Machine.twoAsking.follow raceSchedule
    Machine.twoAsking.Reaches m ∧ m.Finished ∧ (m.history ()).countP Deed.isTold = 1 := by
  intro m
  have hreaches : Machine.twoAsking.Reaches m := Machine.reaches_follow _ _
  have hdone : ∀ t, ((Machine.twoAsking.follow raceSchedule).doing t).isNone = true ∧
      ((Machine.twoAsking.follow raceSchedule).todo t).isEmpty = true := by
    decide +kernel
  have hfinished : m.Finished := fun t ↦
    ⟨Option.isNone_iff_eq_none.mp (hdone t).1, List.isEmpty_iff.mp (hdone t).2⟩
  obtain ⟨-, -, -, -, honce, -⟩ :=
    threads_settle_once (fun _ ↦ "sum") (fun _ ↦ ⟨"libsum", "sum"⟩) Catalog.single
      (fun _ ↦ [.get ()]) hreaches ()
  exact ⟨hreaches, hfinished, (honce hfinished ⟨true, List.mem_singleton_self _⟩).2⟩

end Interpose
