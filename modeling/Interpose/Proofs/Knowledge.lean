import Interpose.Proofs.History

/-!
# What threads know of an entry

What a thread knows of an entry is decided by the point where it is (`Point.Fits`), together with
the phase of the entry's history, which the cells agree with (`Phase.Cells`). Without the lock a
thread knows that the entry is settled, or nothing at all, and this is why the loads without the
lock do no harm: nobody takes such knowledge away. What a thread knows with the lock, only that
thread changes.

`Point.advance` is the step lemma for one entry: the deed of a step, if there is one, continues the
history, and the thread knows what it should know at the next point. `Point.Change` is what a step
looks like to all other threads, and `Point.Fits.of_change` says that they go on knowing what they
knew. Neither of them mentions machines: that no two threads have one lock is a hypothesis here.
-/

namespace Interpose

variable {σ φ : Type}

/-! ### What is known of an entry -/

namespace Phase

/-- No thread is in the middle of resolving. -/
def Between (p : Phase φ) : Prop := ∀ target, p ≠ .opened target

theorem between_waiting (target : Target) : (waiting target : Phase φ).Between := nofun

theorem between_settled (target : Target) (o : BindResult φ) (told : Bool) :
    (settled target o told).Between := nofun

theorem not_settled_waiting (target : Target) : ¬(waiting target : Phase φ).Settled := nofun

theorem not_settled_opened (target : Target) : ¬(opened target : Phase φ).Settled := nofun

/-- What a phase says about the cells of the entry. While a thread is in the middle of resolving,
handle and function are for that thread to know. -/
def Cells (e : Entry φ) : Phase φ → Prop
  | waiting target =>
    e.state = .unresolved ∧ e.target = target ∧ e.handle = none ∧ e.function = none
  | opened target => e.state = .unresolved ∧ e.target = target
  | settled target o _ =>
    e.state = o.state ∧ e.target = target ∧ e.handle = o.handle ∧ e.function = o.function

/-- The state of the entry tells whether an outcome was published. -/
theorem Cells.isTerminal_iff {p : Phase φ} {e : Entry φ} (h : p.Cells e) :
    e.state.isTerminal = true ↔ p.Settled := by
  cases p with
  | waiting target => simp [Settled, h.1, State.isTerminal]
  | opened target => simp [Settled, h.1, State.isTerminal]
  | settled target o told => simp [Settled, h.1]

theorem Cells.target_eq {p : Phase φ} {e : Entry φ} (h : p.Cells e) : e.target = p.target := by
  cases p with
  | waiting target => exact h.2.1
  | opened target => exact h.2
  | settled target o told => exact h.2.1

/-- A bound entry has a handle and a function. -/
theorem Cells.isSome_of_bound {p : Phase φ} {e : Entry φ} (h : p.Cells e) (hb : e.state = .bound) :
    e.handle.isSome ∧ e.function.isSome := by
  cases p with
  | waiting target => rw [h.1] at hb; cases hb
  | opened target => rw [h.1] at hb; cases hb
  | settled target o told =>
    obtain ⟨hstate, -, hhandle, hfunction⟩ := h
    rw [hhandle, hfunction]
    cases o with
    | ok b => exact ⟨rfl, rfl⟩
    | error reason => rw [hstate] at hb; cases hb

/-- Between settlings an entry that is not settled waits for one. -/
theorem Cells.exists_waiting {p : Phase φ} {e : Entry φ} (h : p.Cells e) (hb : p.Between)
    (ht : ¬e.state.isTerminal = true) : ∃ target, p = .waiting target := by
  cases p with
  | waiting target => exact ⟨target, rfl⟩
  | opened target => exact absurd rfl (hb target)
  | settled target o told => exact absurd (h.isTerminal_iff.mpr ⟨target, o, told, rfl⟩) ht

end Phase

namespace Point

/-- Whether the thread published an outcome and has yet to tell it. -/
def owesTelling : Point φ → Bool
  | unlock .. | tell .. => true
  | _ => false

/-- Whether the thread is asking for the function, as opposed to configuring. -/
def asks : Point φ → Bool
  | acquireTarget _ | check _ | write _ | unlockTarget => false
  | _ => true

/-- What a thread at a point knows of the entry. -/
def Fits (p : Phase φ) (e : Entry φ) : Point φ → Prop
  | loadState | acquire | acquireTarget _ => True
  | loadFunction | recheckFunction => p.Settled
  | recheckState | check _ | unlockTarget => p.Between
  | copyTarget | write _ => ∃ target, p = .waiting target
  | openModule target file => p = .waiting target ∧ target.file = .ok file
  | resolve target _ _ | close target _ _ | storeHandle target _ =>
    p = .opened target ∧ e.handle = none ∧ e.function = none
  | storeFunction target b => p = .opened target ∧ e.handle = some b.handle ∧ e.function = none
  | storeState target o =>
    (p = .opened target ∨ ∃ reason, p = .waiting target ∧ o = .error reason ∧
      target.file = .error reason) ∧ e.handle = o.handle ∧ e.function = o.function
  | unlock target o | tell target o => p = .settled target o false
  | unlockSettled function | answer function =>
    ∃ target o told, p = .settled target o told ∧ function = o.function

/-- How a step of one thread looks to all others. -/
inductive Change (point : Point φ) (p : Phase φ) (e : Entry φ) : Phase φ → Entry φ → Prop
  /-- Nothing changed. -/
  | same : Change point p e p e
  /-- Something changed under the lock, before an outcome was published. -/
  | locked {p' : Phase φ} {e' : Entry φ} (hh : point.holds = true) (hp : ¬p.Settled) :
      Change point p e p' e'
  /-- The outcome was told. -/
  | told {target : Target} {o : BindResult φ} (ho : point.owesTelling = true)
      (hp : p = .settled target o false) : Change point p e (.settled target o true) e

/-- **What one thread does to what the others know**: nothing, as long as no two threads have the
lock, and no two have the same outcome to tell. -/
theorem Fits.of_change {point other : Point φ} {p p' : Phase φ} {e e' : Entry φ}
    (h : other.Fits p e) (hc : point.Change p e p' e')
    (hlock : point.holds = true → other.holds = false)
    (htell : point.owesTelling = true → other.owesTelling = false) : other.Fits p' e' := by
  cases hc with
  | same => exact h
  | locked hh hp =>
    -- Without the lock something is known of settled entries only, and this one is not settled.
    have hfree := hlock hh
    cases other with
    | loadState | acquire | acquireTarget => trivial
    | loadFunction => exact absurd h hp
    | tell target o => exact absurd ⟨target, o, false, h⟩ hp
    | answer function =>
      obtain ⟨target, o, told, rfl, -⟩ := h
      exact absurd ⟨target, o, told, rfl⟩ hp
    | _ => cases hfree
  | @told target o ho hp =>
    -- Whether it was told matters to nobody but the one thread that had it to tell.
    have howes := htell ho
    subst hp
    cases other with
    | unlock | tell => cases howes
    | loadState | acquire | acquireTarget => trivial
    | loadFunction | recheckFunction => exact ⟨target, o, true, rfl⟩
    | recheckState | check | unlockTarget => exact Phase.between_settled target o true
    | copyTarget | write =>
      obtain ⟨_, h⟩ := h
      cases h
    | openModule | resolve | close | storeHandle | storeFunction => cases h.1
    | storeState target o =>
      obtain ⟨h | ⟨_, h, -⟩, -⟩ := h <;> cases h
    | unlockSettled function | answer function =>
      obtain ⟨_, _, _, h, hf⟩ := h
      cases h
      exact ⟨target, o, true, rfl, hf⟩

/-- A step without the lock begins no resolving. -/
theorem Change.between {point : Point φ} {p p' : Phase φ} {e e' : Entry φ}
    (hc : point.Change p e p' e') (hh : point.holds = false) (hb : p.Between) : p'.Between := by
  cases hc with
  | same => exact hb
  | locked hh' =>
    rw [hh] at hh'
    cases hh'
  | @told target o => exact Phase.between_settled target o true

/-! ### One step on one entry -/

/-- What a step comes to, seen from the entry: the phase before and after it, and what the thread
knows at the point where it is then. -/
structure Advance (point : Point φ) (p : Phase φ) (e : Entry φ) (x : Effect σ φ) (p' : Phase φ) :
    Prop where
  /-- The deed, if there is one, continues the history. -/
  phase : match x.deed with
    | none => p' = p
    | some deed => p.Next e.key deed p'
  cells : p'.Cells x.entry
  key : x.entry.key = e.key
  change : point.Change p e p' x.entry
  fits : ∀ next, x.next = some next → next.Fits p' x.entry
  /-- The lock is not left in the middle of resolving. -/
  between : point.holds = false ∨ x.next.any holds = true ∨ p'.Between
  /-- Whoever published an outcome owes telling it. -/
  owes : x.next.any owesTelling = false ∨ point.owesTelling = true ∨ ¬p.Settled
  /-- An outcome that was not told is still owed. -/
  teller : ∀ target o, p' = .settled target o false →
    x.next.any owesTelling = true ∨ p = .settled target o false ∧ point.owesTelling = false
  /-- Whoever asks goes on asking or is answered. -/
  asks : point.asks = false ∨ x.next.any asks = true ∨
    ∃ function, x.deed = some (.answered function)

section Advance

variable {free : Bool} {e : Entry φ} {loader : σ} {point : Point φ} {x : Effect σ φ} {p : Phase φ}

/-- A step that only the thread itself takes notice of. -/
theorem Advance.quiet {next : Point φ} {lock : LockUse} (hcells : p.Cells e)
    (hfits : next.Fits p e)
    (hbetween : point.holds = false ∨ next.holds = true ∨ p.Between)
    (howes : next.owesTelling = point.owesTelling) (hasks : next.asks = point.asks) :
    point.Advance p e { next := some next, entry := e, loader, lock } p where
  phase := rfl
  cells := hcells
  key := rfl
  change := .same
  fits := by
    rintro _ ⟨⟩
    exact hfits
  between := hbetween
  owes := by
    show next.owesTelling = false ∨ _
    rw [howes]
    cases point.owesTelling with
    | true => exact .inr (.inl rfl)
    | false => exact .inl rfl
  teller target o h := by
    show next.owesTelling = true ∨ _
    rw [howes]
    cases point.owesTelling with
    | true => exact .inl rfl
    | false => exact .inr ⟨h, rfl⟩
  asks := by
    show point.asks = false ∨ next.asks = true ∨ _
    rw [hasks]
    cases point.asks with
    | true => exact .inr (.inl rfl)
    | false => exact .inl rfl

/-- A step that changes the entry under the lock. -/
theorem Advance.locked {next : Point φ} {deed : Option (Deed φ)} {p' : Phase φ} {e' : Entry φ}
    (hphase : match deed with
      | none => p' = p
      | some deed => p.Next e.key deed p')
    (hcells : p'.Cells e') (hkey : e'.key = e.key) (hh : point.holds = true) (hp : ¬p.Settled)
    (hfits : next.Fits p' e') (hnext : next.holds = true)
    (hteller : ¬p'.Settled ∨ next.owesTelling = true)
    (hasks : next.asks = point.asks) :
    point.Advance p e { next := some next, entry := e', loader, deed } p' where
  phase := hphase
  cells := hcells
  key := hkey
  change := .locked hh hp
  fits := by
    rintro _ ⟨⟩
    exact hfits
  between := .inr (.inl hnext)
  owes := .inr (.inr hp)
  teller target o h := .inl (hteller.resolve_left fun hn ↦ hn ⟨target, o, false, h⟩)
  asks := by
    show point.asks = false ∨ next.asks = true ∨ _
    rw [hasks]
    cases point.asks with
    | true => exact .inr (.inl rfl)
    | false => exact .inl rfl

variable [Loader σ φ]

/-- **One step**, by what the thread knows before it. A thread that takes the lock learns that
nobody is in the middle of resolving. -/
theorem advance (hx : point.step free e loader = some x) (hfits : point.Fits p e)
    (hcells : p.Cells e) (hfree : free = true → p.Between) : ∃ p', point.Advance p e x p' := by
  cases point with
  | loadState =>
    obtain rfl := Option.some.inj hx
    refine ⟨p, ?_⟩
    split
    · exact .quiet hcells (hcells.isTerminal_iff.mp ‹_›) (.inl rfl) rfl rfl
    · exact .quiet hcells trivial (.inl rfl) rfl rfl
  | loadFunction =>
    obtain rfl := Option.some.inj hx
    obtain ⟨target, o, told, rfl⟩ := hfits
    exact ⟨_, .quiet hcells ⟨target, o, told, rfl, hcells.2.2.2⟩ (.inl rfl) rfl rfl⟩
  | acquire =>
    obtain ⟨hf, hx⟩ := Option.ite_none_right_eq_some.mp hx
    obtain rfl := Option.some.inj hx
    exact ⟨p, .quiet hcells (hfree hf) (.inl rfl) rfl rfl⟩
  | recheckState =>
    obtain rfl := Option.some.inj hx
    refine ⟨p, ?_⟩
    split
    · exact .quiet hcells (hcells.isTerminal_iff.mp ‹_›) (.inr (.inr hfits)) rfl rfl
    · -- Nobody else resolves while this thread has the lock, so the entry waits for it.
      exact .quiet hcells (hcells.exists_waiting hfits ‹_›) (.inr (.inr hfits)) rfl rfl
  | recheckFunction =>
    obtain rfl := Option.some.inj hx
    obtain ⟨target, o, told, rfl⟩ := hfits
    exact ⟨_, .quiet hcells ⟨target, o, told, rfl, hcells.2.2.2⟩ (.inr (.inl rfl)) rfl rfl⟩
  | copyTarget =>
    obtain rfl := Option.some.inj hx
    obtain ⟨target, rfl⟩ := hfits
    obtain ⟨-, rfl, hhandle, hfunction⟩ := id hcells
    refine ⟨.waiting e.target, ?_⟩
    split
    · rename_i reason hfile
      exact .quiet hcells ⟨.inr ⟨reason, rfl, rfl, hfile⟩, hhandle, hfunction⟩
        (.inr (.inl rfl)) rfl rfl
    · rename_i file hfile
      exact .quiet hcells ⟨rfl, hfile⟩ (.inr (.inl rfl)) rfl rfl
  | openModule target file =>
    obtain rfl := Option.some.inj hx
    obtain ⟨rfl, hfile⟩ := hfits
    obtain ⟨hstate, htarget, hhandle, hfunction⟩ := hcells
    refine ⟨.opened target, ?_⟩
    split
    · exact .locked (.opened hfile) ⟨hstate, htarget⟩ rfl rfl (Phase.not_settled_waiting _)
        ⟨.inl rfl, hhandle, hfunction⟩ rfl (.inl (Phase.not_settled_opened _)) rfl
    · exact .locked (.opened hfile) ⟨hstate, htarget⟩ rfl rfl (Phase.not_settled_waiting _)
        ⟨rfl, hhandle, hfunction⟩ rfl (.inl (Phase.not_settled_opened _)) rfl
  | resolve target file handle =>
    obtain rfl := Option.some.inj hx
    refine ⟨p, ?_⟩
    split
    · exact .quiet hcells hfits (.inr (.inl rfl)) rfl rfl
    · exact .quiet hcells hfits (.inr (.inl rfl)) rfl rfl
  | close target handle reason =>
    obtain rfl := Option.some.inj hx
    obtain ⟨rfl, hhandle, hfunction⟩ := hfits
    exact ⟨_, .quiet hcells ⟨.inl rfl, hhandle, hfunction⟩ (.inr (.inl rfl)) rfl rfl⟩
  | storeHandle target b =>
    obtain rfl := Option.some.inj hx
    obtain ⟨rfl, -, hfunction⟩ := hfits
    have hp := Phase.not_settled_opened (φ := φ) target
    exact ⟨_, .locked rfl hcells rfl rfl hp ⟨rfl, rfl, hfunction⟩ rfl (.inl hp) rfl⟩
  | storeFunction target b =>
    obtain rfl := Option.some.inj hx
    obtain ⟨rfl, hhandle, -⟩ := hfits
    have hp := Phase.not_settled_opened (φ := φ) target
    exact ⟨_, .locked rfl hcells rfl rfl hp ⟨.inl rfl, hhandle, rfl⟩ rfl (.inl hp) rfl⟩
  | storeState target o =>
    obtain rfl := Option.some.inj hx
    obtain ⟨hp, hhandle, hfunction⟩ := hfits
    refine ⟨.settled target o false, ?_⟩
    -- The loader was asked, or the names were unusable.
    obtain rfl | ⟨reason, rfl, rfl, hfile⟩ := hp
    · exact .locked (.published target o) ⟨rfl, hcells.2, hhandle, hfunction⟩ rfl rfl
        (Phase.not_settled_opened _) rfl rfl (.inr rfl) rfl
    · exact .locked (.unusable hfile) ⟨rfl, hcells.2.1, hhandle, hfunction⟩ rfl rfl
        (Phase.not_settled_waiting _) rfl rfl (.inr rfl) rfl
  | unlock target o =>
    obtain rfl := Option.some.inj hx
    obtain rfl := hfits
    exact ⟨_, .quiet hcells rfl (.inr (.inr (Phase.between_settled target o false))) rfl rfl⟩
  | tell target o =>
    obtain rfl := Option.some.inj hx
    obtain rfl := hfits
    refine ⟨.settled target o true, .told target o, hcells, rfl, .told rfl rfl, ?_, .inl rfl,
      .inl rfl, ?_, .inr (.inl rfl)⟩
    · rintro _ ⟨⟩
      exact ⟨target, o, true, rfl, rfl⟩
    · rintro _ _ ⟨⟩
  | unlockSettled function =>
    obtain rfl := Option.some.inj hx
    obtain ⟨target, o, told, rfl, hf⟩ := hfits
    exact ⟨_, .quiet hcells ⟨target, o, told, rfl, hf⟩
      (.inr (.inr (Phase.between_settled target o told))) rfl rfl⟩
  | answer function =>
    obtain rfl := Option.some.inj hx
    obtain ⟨target, o, told, rfl, rfl⟩ := hfits
    refine ⟨_, .answered target o told, hcells, rfl, .same, ?_, .inl rfl, .inl rfl,
      fun _ _ h ↦ .inr ⟨h, rfl⟩, .inr (.inr ⟨_, rfl⟩)⟩
    rintro _ ⟨⟩
  | acquireTarget target =>
    obtain ⟨hf, hx⟩ := Option.ite_none_right_eq_some.mp hx
    obtain rfl := Option.some.inj hx
    exact ⟨p, .quiet hcells (hfree hf) (.inl rfl) rfl rfl⟩
  | check target =>
    simp only [step] at hx
    split at hx
    · obtain rfl := Option.some.inj hx
      obtain ⟨target', o, told, rfl⟩ := hcells.isTerminal_iff.mp ‹_›
      refine ⟨_, .refused target' o told target, hcells, rfl, .same, ?_, .inr (.inl rfl), .inl rfl,
        fun _ _ h ↦ .inr ⟨h, rfl⟩, .inl rfl⟩
      rintro _ ⟨⟩
      exact hfits
    · obtain rfl := Option.some.inj hx
      exact ⟨p, .quiet hcells (hcells.exists_waiting hfits ‹_›) (.inr (.inr hfits)) rfl rfl⟩
  | write target =>
    obtain rfl := Option.some.inj hx
    obtain ⟨target', rfl⟩ := hfits
    exact ⟨.waiting target, .locked (.taken target' target) ⟨hcells.1, rfl, hcells.2.2⟩ rfl rfl
      (Phase.not_settled_waiting _) (Phase.between_waiting _) rfl
      (.inl (Phase.not_settled_waiting _)) rfl⟩
  | unlockTarget =>
    obtain rfl := Option.some.inj hx
    refine ⟨p, rfl, hcells, rfl, .same, ?_, .inr (.inr hfits), .inl rfl,
      fun _ _ h ↦ .inr ⟨h, rfl⟩, .inl rfl⟩
    rintro _ ⟨⟩

end Advance

end Point

end Interpose
