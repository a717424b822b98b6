import Interpose.Proofs.Callers

/-!
# Hooks take effect at most once

However many callers there are, and in whatever order their steps come, one load hook at most asks
for the file and applies its lines, and one unload hook at most closes modules. Which ones is
decided by the claims: the first claim of the load is accepted, and so is the first claim of the
unload after a load. A hook whose claim was refused answers so and changes nothing.
`hooks_take_effect_once` states this for all callers that can be reached, whatever host they share.

The invariant is `Callers.Sound`. It says of the log that every claim was decided by the phase that
the claims before it led to (`Chronicle`), and of each caller that what it did and where it is
belong together (`Course`). `Callers.Sound.step` keeps it. What decides a claim is then read off the
log alone (`Chronicle.accepted_iff_due`).
-/

namespace Interpose

variable {σ φ : Type}

namespace Hooks

/-! ### The log and the phase -/

/-- The transition that an act is an effect of. A claim is no effect. -/
def Act.effect? : Act → Option Claim
  | .claimed .. => none
  | .asked | .applied _ => some .load
  | .closed _ => some .unload

theorem Act.claimed_ne {act : Act} {claim : Claim} (h : act.effect? = some claim) (claim' : Claim)
    (accepted : Bool) : .claimed claim' accepted ≠ act := by
  rintro rfl
  cases h

theorem Claim.exchange_eq_idle_iff {claim : Claim} {p : HookPhase} :
    (claim.exchange p).2 = .idle ↔ p = .idle ∧ claim = .unload := by
  cases claim <;> cases p <;> decide

section Chronicle

variable {ι : Type}

/-- What has to come before a claim in order that it is accepted, if the log began in a phase. The
load has to be claimed for the first time. The unload has to be claimed after the load, and must not
have been claimed since. -/
def Claim.Due (p : HookPhase) (before : List (ι × Act)) : Claim → Prop
  | load => p = .idle ∧ ∀ c accepted, (c, .claimed .load accepted) ∉ before
  | unload =>
    (p = .loaded ∨ ∃ c, (c, .claimed .load true) ∈ before) ∧
      ∀ c, (c, .claimed .unload true) ∉ before

/-- A claim is due only if it was not accepted before. -/
theorem Claim.Due.not_mem {claim : Claim} {p : HookPhase} {before : List (ι × Act)}
    (h : claim.Due p before) (c : ι) : (c, .claimed claim true) ∉ before := by
  cases claim with
  | load => exact h.2 c true
  | unload => exact h.2 c

/-- A log that leads from one phase to another, each claim being decided by the phase it finds. -/
inductive Chronicle (p : HookPhase) : List (ι × Act) → HookPhase → Prop
  | nil : Chronicle p [] p
  | claim {log : List (ι × Act)} {q : HookPhase} (h : Chronicle p log q) (c : ι) (claim : Claim) :
      Chronicle p (log ++ [(c, .claimed claim (claim.exchange q).1)]) (claim.exchange q).2
  | effect {log : List (ι × Act)} {q : HookPhase} {act : Act} {claim : Claim}
      (h : Chronicle p log q) (c : ι) (hact : act.effect? = some claim) :
      Chronicle p (log ++ [(c, act)]) q

namespace Chronicle

variable {p q : HookPhase} {log before after : List (ι × Act)} {c : ι} {act : Act} {claim : Claim}

theorem of_concat (h : Chronicle p (log ++ [(c, act)]) q) :
    ∃ q', Chronicle p log q' ∧
      ∀ claim accepted, act = .claimed claim accepted → accepted = (claim.exchange q').1 := by
  generalize hlog : log ++ [(c, act)] = log' at h
  cases h with
  | nil => simp at hlog
  | @claim log' q' h c' claim' =>
    obtain ⟨rfl, hlast⟩ := List.append_inj' hlog rfl
    cases hlast
    refine ⟨q', h, fun claim accepted hact ↦ ?_⟩
    cases hact
    rfl
  | @effect log' q' act' claim' h c' hact =>
    obtain ⟨rfl, hlast⟩ := List.append_inj' hlog rfl
    cases hlast
    refine ⟨q, h, fun claim accepted hclaim ↦ ?_⟩
    rw [hclaim] at hact
    cases hact

theorem exists_prefix (h : Chronicle p (before ++ after) q) : ∃ q', Chronicle p before q' := by
  induction after using List.reverseRecOn generalizing q with
  | nil => exact ⟨q, by simpa using h⟩
  | append_singleton after note ih =>
    rw [← List.append_assoc] at h
    obtain ⟨q', hq', -⟩ := h.of_concat
    exact ih hq'

/-- The load can be claimed as long as nobody has tried. -/
theorem idle_iff (h : Chronicle p log q) :
    q = .idle ↔ p = .idle ∧ ∀ c accepted, (c, .claimed .load accepted) ∉ log := by
  induction h with
  | nil => simp
  | @claim log q h c claim ih =>
    rw [Claim.exchange_eq_idle_iff, ih]
    cases claim with
    | load =>
      refine iff_of_false (fun hq ↦ nomatch hq.2) fun hn ↦ hn.2 c (Claim.load.exchange q).1 ?_
      exact List.mem_append_right _ (List.mem_singleton_self _)
    | unload => simp
  | @effect log q act claim h c hact ih => simpa [Act.claimed_ne hact] using ih

/-- There is no way back from an unload. -/
theorem unloaded_of_mem (h : Chronicle p log q) (hc : (c, .claimed .unload true) ∈ log) :
    q = .unloaded := by
  induction h with
  | nil => cases hc
  | @claim log q h c' claim ih =>
    cases hacc : (claim.exchange q).1 with
    | false =>
      rw [Claim.exchange_of_refused hacc]
      exact ih (by simpa [hacc] using hc)
    | true =>
      cases claim with
      | load =>
        obtain rfl := HookPhase.enterLoaded_accepted_iff.mp hacc
        cases ih (by simpa using hc)
      | unload =>
        obtain rfl := HookPhase.enterUnloaded_accepted_iff.mp hacc
        rfl
  | @effect log q act claim h c' hact ih => exact ih (by simpa [Act.claimed_ne hact] using hc)

/-- The unload can be claimed once the load was, until somebody does. -/
theorem loaded_iff (h : Chronicle p log q) :
    q = .loaded ↔ (p = .loaded ∨ ∃ c, (c, .claimed .load true) ∈ log) ∧
      ∀ c, (c, .claimed .unload true) ∉ log := by
  induction h with
  | nil => simp
  | @claim log q h c claim ih =>
    cases hacc : (claim.exchange q).1 with
    | false =>
      -- A refused claim is neither of those that the log is searched for.
      rw [Claim.exchange_of_refused hacc, ih]
      simp
    | true =>
      have hlast : (c, Act.claimed claim true) ∈ log ++ [(c, .claimed claim true)] :=
        List.mem_append_right _ (List.mem_singleton_self _)
      cases claim with
      | load =>
        obtain rfl := HookPhase.enterLoaded_accepted_iff.mp hacc
        refine iff_of_true rfl ⟨.inr ⟨c, hlast⟩, fun c' hc' ↦ ?_⟩
        have hold : (c', .claimed .unload true) ∈ log := by simpa using hc'
        cases h.unloaded_of_mem hold
      | unload =>
        obtain rfl := HookPhase.enterUnloaded_accepted_iff.mp hacc
        exact iff_of_false nofun fun hn ↦ hn.2 c hlast
  | @effect log q act claim h c hact ih => simpa [Act.claimed_ne hact] using ih

/-- **What decides a claim** are the claims before it. -/
theorem accepted_iff_due (h : Chronicle p log q) :
    (claim.exchange q).1 = true ↔ claim.Due p log := by
  cases claim with
  | load => exact HookPhase.enterLoaded_accepted_iff.trans h.idle_iff
  | unload => exact HookPhase.enterUnloaded_accepted_iff.trans h.loaded_iff

/-- The claims in a log, one by one. -/
theorem claimed_iff_due {accepted : Bool}
    (h : Chronicle p (before ++ (c, .claimed claim accepted) :: after) q) :
    accepted = true ↔ claim.Due p before := by
  rw [List.append_cons] at h
  obtain ⟨q', hq'⟩ := h.exists_prefix
  obtain ⟨q'', hq'', haccepted⟩ := hq'.of_concat
  rw [haccepted claim accepted rfl]
  exact hq''.accepted_iff_due

/-- **No claim is accepted twice.** -/
theorem claimed_unique {c' : ι} (h : Chronicle p log q) (hc : (c, .claimed claim true) ∈ log)
    (hc' : (c', .claimed claim true) ∈ log) : c = c' := by
  obtain ⟨before, after, rfl⟩ := List.append_of_mem hc
  have hfirst : claim.Due p before := h.claimed_iff_due.mp rfl
  rcases List.mem_append.mp hc' with hbefore | hlater
  · exact absurd hbefore (hfirst.not_mem c')
  · rcases List.mem_cons.mp hlater with hsame | hafter
    · exact (congrArg Prod.fst hsame).symm
    · -- What comes between the two claims does not matter, for the first one is before both.
      obtain ⟨between, rest, rfl⟩ := List.append_of_mem hafter
      rw [← List.cons_append, ← List.append_assoc] at h
      have hsecond := h.claimed_iff_due.mp rfl
      exact absurd (List.mem_append_right _ (List.mem_cons_self ..)) (hsecond.not_mem c)

end Chronicle

end Chronicle

/-! ### What a caller has done -/

/-- What a caller has done in an operation at a point of its progress, if the keys of the registry
are as `verdict` says. -/
inductive Course (verdict : Except RegistryError Unit) : Operation → List Act → Progress φ → Prop
  | waiting (op : Operation) : Course verdict op [] .waiting
  /-- A hook whose claim was refused. -/
  | refused {op : Operation} {claim : Claim} (hop : op.hook? = some claim) :
      Course verdict op [.claimed claim false] (.returned claim.refusal)
  | asking (file : Option TableFile) :
      Course verdict (.loadHook file) [.claimed .load true] (.asking file)
  | opening (file : Option TableFile) :
      Course verdict (.loadHook file) [.claimed .load true, .asked] (.opening file)
  /-- The load hook on a registry that is not valid. -/
  | invalid (file : Option TableFile) {e : RegistryError} (hv : verdict = .error e) :
      Course verdict (.loadHook file) [.claimed .load true, .asked]
        (.returned (.hooked ⟨true, none⟩))
  | applying (file : Option TableFile) (hv : verdict = .ok ()) (done : List Table.Line) (t : Table)
      (lines : List Table.Line) (events : List Event) :
      Course verdict (.loadHook file) (.claimed .load true :: .asked :: done.map .applied)
        (.applying t lines events)
  | loaded (file : Option TableFile) (hv : verdict = .ok ()) (done : List Table.Line)
      (report : InitReport) :
      Course verdict (.loadHook file) (.claimed .load true :: .asked :: done.map .applied)
        (.returned (.hooked ⟨true, some report⟩))
  | releasing (i : Nat) (handles : List Handle) :
      Course verdict .unloadHook (.claimed .unload true :: handles.map .closed)
        (.releasing i handles.length)
  | unloaded (handles : List Handle) :
      Course verdict .unloadHook (.claimed .unload true :: handles.map .closed)
        (.returned (.unhooked (some handles.length)))
  /-- An operation that is nothing but a claim. -/
  | entered {op : Operation} {claim : Claim} (hop : op.claim? = some claim)
      (hhook : op.hook? = none) (accepted : Bool) :
      Course verdict op [.claimed claim accepted] (.returned (.verdict accepted))
  /-- An operation that claims nothing. -/
  | performed {op : Operation} (hop : op.claim? = none) (answer : Answer φ) :
      Course verdict op [] (.returned answer)

namespace Course

variable {verdict : Except RegistryError Unit} {op : Operation} {acts : List Act} {p : Progress φ}
  {h : Host σ φ} {x : Turn σ φ}

/-- What comes after a claim. -/
theorem of_claim {claim : Claim} (hop : op.claim? = some claim) (accepted : Bool) :
    Course verdict op [.claimed claim accepted] (afterClaim accepted op : Progress φ) := by
  cases op with
  | loadHook file =>
    obtain rfl := Option.some.inj hop
    cases accepted with
    | true => exact .asking file
    | false => exact .refused rfl
  | unloadHook =>
    obtain rfl := Option.some.inj hop
    cases accepted with
    | true => exact .releasing 0 []
    | false => exact .refused rfl
  | enterLoaded | enterUnloaded => exact .entered hop rfl accepted
  | _ => cases hop

/-- What comes after opening the file. -/
theorem of_opening (file : Option TableFile) (h : Host σ φ) :
    Course h.registry.validate (.loadHook file) [.claimed .load true, .asked]
      (afterOpening file h) := by
  cases hv : h.registry.validate with
  | error e =>
    simp only [afterOpening, hv]
    exact .invalid file rfl
  | ok =>
    cases file with
    | none =>
      simp only [afterOpening, hv]
      exact .loaded none rfl [] _
    | some file =>
      cases ht : Table.load h.policy file with
      | error e =>
        simp only [afterOpening, hv, ht]
        exact .loaded (some file) rfl [] _
      | ok t =>
        simp only [afterOpening, hv, ht]
        exact .applying (some file) rfl [] t t.lines []

variable [Loader σ φ]

/-- **One step** of a caller. -/
theorem turn (hc : Course h.registry.validate op acts p) (hx : p.turn op h = some x) :
    Course h.registry.validate op (acts ++ x.act.toList) x.progress := by
  cases hc with
  | waiting =>
    cases hop : op.claim? with
    | none =>
      rw [turn_of_claim?_eq_none hop] at hx
      obtain rfl := Option.some.inj hx
      exact .performed hop _
    | some claim =>
      rw [turn_of_claim? hop] at hx
      obtain rfl := Option.some.inj hx
      exact of_claim hop _
  | asking file =>
    obtain rfl := Option.some.inj hx
    exact .opening file
  | opening file =>
    obtain rfl := Option.some.inj hx
    exact of_opening file h
  | applying file hv done t lines events =>
    cases lines with
    | nil =>
      obtain rfl := Option.some.inj hx
      rw [Option.toList_none, List.append_nil]
      exact .loaded file hv done _
    | cons line lines =>
      obtain rfl := Option.some.inj hx
      have hdone : Act.claimed .load true :: .asked :: done.map .applied ++ [.applied line] =
          .claimed .load true :: .asked :: (done ++ [line]).map .applied := by simp
      rw [Option.toList_some, hdone]
      exact .applying file hv (done ++ [line]) t lines _
  | releasing i handles =>
    cases he : h.registry.entries[i]? with
    | none =>
      rw [turn_releasing_of_eq_none _ he] at hx
      obtain rfl := Option.some.inj hx
      rw [Option.toList_none, List.append_nil]
      exact .unloaded handles
    | some e =>
      cases hh : e.handle with
      | none =>
        rw [turn_releasing_of_handle_eq_none _ he hh] at hx
        obtain rfl := Option.some.inj hx
        rw [Option.toList_none, List.append_nil]
        exact .releasing (i + 1) handles
      | some handle =>
        rw [turn_releasing_of_handle_eq_some _ he hh] at hx
        obtain rfl := Option.some.inj hx
        have hclosed : Act.claimed .unload true :: handles.map .closed ++ [.closed handle] =
            .claimed .unload true :: (handles ++ [handle]).map .closed := by simp
        have hlength : handles.length + 1 = (handles ++ [handle]).length := by simp
        rw [Option.toList_some, hclosed, hlength]
        exact .releasing (i + 1) (handles ++ [handle])
  | refused | invalid | loaded | unloaded | entered | performed => cases hx

omit [Loader σ φ]

/-- **An effect** is that of a hook whose first act was an accepted claim. -/
theorem of_effect (hc : Course verdict op acts p) {act : Act} {claim : Claim} (hact : act ∈ acts)
    (he : act.effect? = some claim) :
    op.hook? = some claim ∧ ∃ others, acts = .claimed claim true :: others := by
  cases hc with
  | waiting | performed => cases hact
  | refused | asking | entered =>
    obtain rfl := List.mem_singleton.mp hact
    cases he
  | opening | invalid =>
    simp only [List.mem_cons, List.not_mem_nil, or_false] at hact
    obtain rfl | rfl := hact
    · cases he
    · exact ⟨he, _, by rw [← Option.some.inj he]⟩
  | applying file hv done | loaded file hv done =>
    simp only [List.mem_cons, List.mem_map] at hact
    obtain rfl | rfl | ⟨line, -, rfl⟩ := hact
    · cases he
    · exact ⟨he, _, by rw [← Option.some.inj he]⟩
    · exact ⟨he, _, by rw [← Option.some.inj he]⟩
  | releasing i handles | unloaded handles =>
    simp only [List.mem_cons, List.mem_map] at hact
    obtain rfl | ⟨handle, -, rfl⟩ := hact
    · cases he
    · exact ⟨he, _, by rw [← Option.some.inj he]⟩

theorem count_asked_le_one (hc : Course verdict op acts p) : acts.count .asked ≤ 1 := by
  cases hc with
  | applying file hv done | loaded file hv done =>
    have hnone : (done.map Act.applied).count .asked = 0 := by simp [List.count_eq_zero]
    simp [hnone]
  | releasing i handles | unloaded handles =>
    have hnone : (handles.map Act.closed).count .asked = 0 := by simp [List.count_eq_zero]
    simp [hnone]
  | _ => simp

/-- A hook that has no accepted claim has not begun, or was refused. -/
theorem of_not_accepted (hc : Course verdict op acts p) {claim : Claim}
    (hop : op.hook? = some claim) (hn : .claimed claim true ∉ acts) :
    p = .waiting ∨ p = .returned claim.refusal := by
  cases hc with
  | waiting => exact .inl rfl
  | refused hop' =>
    obtain rfl := Option.some.inj (hop.symm.trans hop')
    exact .inr rfl
  | asking | opening | invalid | applying | loaded | releasing | unloaded =>
    obtain rfl := Option.some.inj hop
    exact absurd (List.mem_cons_self ..) hn
  | entered hop' hhook => cases hop.symm.trans hhook
  | performed hop' => cases hop'.symm.trans (op.claim?_of_hook? hop)

/-- The load hook on a registry that is not valid. -/
theorem turn_of_invalid [Loader σ φ] {e : RegistryError} (hc : Course (.error e) op acts p)
    (hop : op.hook? = some .load) (hx : p.turn op h = some x) :
    x.host = { h with phase := x.host.phase } ∧ x.events = [] := by
  cases hc with
  | waiting =>
    rw [turn_of_claim? (op.claim?_of_hook? hop)] at hx
    obtain rfl := Option.some.inj hx
    exact ⟨rfl, rfl⟩
  | asking | opening =>
    obtain rfl := Option.some.inj hx
    exact ⟨rfl, rfl⟩
  | applying file hv => cases hv
  | releasing => cases hop
  | refused | invalid | loaded | unloaded | entered | performed => cases hx

theorem answer_of_invalid {e : RegistryError} {answer : Answer φ}
    (hc : Course (.error e) op acts (.returned answer)) (hop : op.hook? = some .load)
    (haccepted : .claimed .load true ∈ acts) : answer = .hooked ⟨true, none⟩ := by
  cases hc with
  | refused hop' => simp at haccepted
  | invalid => rfl
  | loaded file hv => cases hv
  | unloaded => cases hop
  | entered hop' hhook => cases hop.symm.trans hhook
  | performed => cases haccepted

end Course

/-! ### The invariant -/

section Turn

variable [Loader σ φ] {op : Operation} {h : Host σ φ} {p : Progress φ} {x : Turn σ φ}

/-- **What a step leaves alone** are the keys, and the phase unless the step is a claim. -/
theorem frame_of_turn (hx : p.turn op h = some x) :
    x.host.registry.keys = h.registry.keys ∧
      ((∃ claim, x.act = some (.claimed claim (claim.exchange h.phase).1) ∧
          x.host.phase = (claim.exchange h.phase).2) ∨
        x.host.phase = h.phase ∧ ∀ act, x.act = some act → ∃ claim, act.effect? = some claim) := by
  cases p with
  | waiting =>
    cases hop : op.claim? with
    | none =>
      rw [turn_of_claim?_eq_none hop] at hx
      obtain rfl := Option.some.inj hx
      exact ⟨h.keys_perform op, .inr ⟨Operation.phase_perform_of_claim?_eq_none hop h, by simp⟩⟩
    | some claim =>
      rw [turn_of_claim? hop] at hx
      obtain rfl := Option.some.inj hx
      exact ⟨rfl, .inl ⟨claim, rfl, rfl⟩⟩
  | asking | opening =>
    obtain rfl := Option.some.inj hx
    exact ⟨rfl, .inr ⟨rfl, by simp [Act.effect?]⟩⟩
  | applying t lines events =>
    cases lines with
    | nil =>
      obtain rfl := Option.some.inj hx
      exact ⟨rfl, .inr ⟨rfl, by simp⟩⟩
    | cons line lines =>
      obtain rfl := Option.some.inj hx
      exact ⟨h.registry.keys_applyLine line, .inr ⟨rfl, by simp [Act.effect?]⟩⟩
  | releasing i closed =>
    cases he : h.registry.entries[i]? with
    | none =>
      rw [turn_releasing_of_eq_none _ he] at hx
      obtain rfl := Option.some.inj hx
      exact ⟨rfl, .inr ⟨rfl, by simp⟩⟩
    | some e =>
      have hkeys : (⟨h.registry.entries.set i e.release.2⟩ : Registry φ).keys =
          h.registry.keys := by
        obtain ⟨before, after, hes, hset⟩ := Host.exists_append_of_entryAt he
        rw [Registry.keys, Registry.keys, hset, hes]
        simp [Entry.release]
      cases hh : e.handle with
      | none =>
        rw [turn_releasing_of_handle_eq_none _ he hh] at hx
        obtain rfl := Option.some.inj hx
        exact ⟨hkeys, .inr ⟨rfl, by simp⟩⟩
      | some handle =>
        rw [turn_releasing_of_handle_eq_some _ he hh] at hx
        obtain rfl := Option.some.inj hx
        exact ⟨hkeys, .inr ⟨rfl, by simp [Act.effect?]⟩⟩
  | returned answer => cases hx

end Turn

namespace Callers

variable {ι : Type} [DecidableEq ι] {call : ι → Operation} {host : Host σ φ} {c c' : ι}
  {m m' : Callers ι σ φ} {act : Act} {x : Turn σ φ}

/-- What holds of all callers that can be reached from a host. -/
structure Sound (call : ι → Operation) (host : Host σ φ) (m : Callers ι σ φ) : Prop where
  keys : m.host.registry.keys = host.registry.keys
  chronicle : Chronicle host.phase m.log m.host.phase
  course : ∀ c, Course host.registry.validate (call c) (m.acts c) (m.progress c)

theorem Sound.start (call : ι → Operation) (host : Host σ φ) : Sound call host { host } where
  keys := rfl
  chronicle := .nil
  course c := .waiting (call c)

theorem Sound.validate_eq (h : Sound call host m) :
    m.host.registry.validate = host.registry.validate := by
  rw [Registry.validate, Registry.validate, h.keys]

variable [Loader σ φ]

/-- **One step** of a caller keeps the invariant. -/
theorem Sound.step (h : Sound call host m) (hs : m.step call c = some m') :
    Sound call host m' := by
  obtain ⟨x, hx, rfl⟩ := Option.map_eq_some_iff.mp hs
  obtain ⟨hkeys, hframe⟩ := frame_of_turn hx
  refine ⟨hkeys.trans h.keys, ?_, fun c' ↦ ?_⟩
  · rcases hframe with ⟨claim, hact, hphase⟩ | ⟨hphase, hact⟩
    · have hlog := h.chronicle.claim c claim
      simpa [apply, hact, hphase] using hlog
    · rcases hx' : x.act with - | act
      · simpa [apply, hx', hphase] using h.chronicle
      · obtain ⟨claim, heffect⟩ := hact act hx'
        simpa [apply, hx', hphase] using h.chronicle.effect c heffect
  · rw [acts_apply]
    by_cases hc : c' = c
    · subst hc
      have hcourse := h.course c'
      rw [← h.validate_eq] at hcourse ⊢
      rw [if_pos rfl, progress_apply_self]
      exact hcourse.turn hx
    · rw [if_neg hc, progress_apply_of_ne hc]
      exact h.course c'

/-- **All callers that can be reached** satisfy the invariant. -/
theorem Sound.reaches (h : Reaches call { host } m) : Sound call host m := by
  induction h with
  | refl => exact .start call host
  | tail _ hs ih =>
    obtain ⟨c, hstep⟩ := hs
    exact ih.step hstep

omit [Loader σ φ]

/-- **What an effect takes**: the hook has claimed before, as its first act, and was accepted. -/
theorem Sound.of_effect (h : Sound call host m) (hact : (c, act) ∈ m.log) {claim : Claim}
    (he : act.effect? = some claim) :
    (call c).hook? = some claim ∧
      ∃ before after, m.log = before ++ (c, .claimed claim true) :: after ∧
        claim.Due host.phase before ∧ ∀ act', (c, act') ∉ before := by
  obtain ⟨hhook, others, hacts⟩ := (h.course c).of_effect (mem_acts.mpr hact) he
  obtain ⟨⟨c', first⟩, notes, hfilter, rfl, -⟩ := List.map_eq_cons_iff.mp hacts
  obtain ⟨before, after, hlog, hbefore, hc, -⟩ := List.filter_eq_cons_iff.mp hfilter
  obtain rfl : c' = c := of_decide_eq_true hc
  refine ⟨hhook, before, after, hlog, ?_, fun act' hmem ↦ ?_⟩
  · exact (Chronicle.claimed_iff_due (hlog ▸ h.chronicle)).mp rfl
  · exact hbefore _ hmem (decide_eq_true rfl)

/-- **A hook whose claim is refused** answers so, and changes nothing. -/
theorem Sound.step_of_not_accepted [Loader σ φ] (h : Sound call host m) {claim : Claim}
    (hhook : (call c).hook? = some claim) (hs : m.step call c = some m')
    (hn : (c, .claimed claim true) ∉ m'.log) :
    m'.host = m.host ∧ m'.events = m.events ∧ m'.progress c = .returned claim.refusal := by
  obtain ⟨x, hx, rfl⟩ := Option.map_eq_some_iff.mp hs
  have hold : .claimed claim true ∉ m.acts c := fun hmem ↦
    hn (List.mem_append_left _ (mem_acts.mp hmem))
  rcases (h.course c).of_not_accepted hhook hold with hwaiting | hreturned
  · rw [hwaiting, turn_of_claim? (Operation.claim?_of_hook? hhook)] at hx
    obtain rfl := Option.some.inj hx
    have hrefused : (claim.exchange m.host.phase).1 = false := by
      rw [← Bool.not_eq_true]
      intro haccepted
      refine hn (List.mem_append_right _ ?_)
      simp [haccepted]
    refine ⟨?_, List.append_nil _, ?_⟩
    · rw [apply, Claim.exchange_of_refused hrefused]
    · rw [progress_apply_self, hrefused, afterClaim_of_refused hhook]
  · rw [hreturned] at hx
    cases hx

theorem Sound.answer_of_not_accepted (h : Sound call host m) {claim : Claim}
    (hhook : (call c).hook? = some claim) {answer : Answer φ}
    (hp : m.progress c = .returned answer) (hn : (c, .claimed claim true) ∉ m.log) :
    answer = claim.refusal := by
  have hcourse := h.course c
  rw [hp] at hcourse
  rcases hcourse.of_not_accepted hhook (mem_acts.not.mpr hn) with hwaiting | hreturned
  · cases hwaiting
  · exact Progress.returned.inj hreturned

/-- The load hook on a registry that is not valid changes the phase at most. -/
theorem Sound.step_of_invalid [Loader σ φ] (h : Sound call host m) {e : RegistryError}
    (hv : host.registry.validate = .error e) (hhook : (call c).hook? = some .load)
    (hs : m.step call c = some m') :
    m'.host = { m.host with phase := m'.host.phase } ∧ m'.events = m.events := by
  obtain ⟨x, hx, rfl⟩ := Option.map_eq_some_iff.mp hs
  have hcourse := h.course c
  rw [hv] at hcourse
  obtain ⟨hhost, hevents⟩ := hcourse.turn_of_invalid hhook hx
  exact ⟨hhost, by rw [apply, hevents, List.append_nil]⟩

/-- The file is asked for at most once. -/
theorem Sound.countP_asked_le_one (h : Sound call host m) :
    m.log.countP (·.2 = .asked) ≤ 1 := by
  by_cases hasked : ∃ c, (c, Act.asked) ∈ m.log
  · obtain ⟨c, hc⟩ := hasked
    have hclaim {c' : ι} (hc' : (c', Act.asked) ∈ m.log) : (c', .claimed .load true) ∈ m.log := by
      obtain ⟨-, before, after, hlog, -⟩ := h.of_effect hc' rfl
      rw [hlog]
      exact List.mem_append_right _ (List.mem_cons_self ..)
    have hcount : m.log.countP (·.2 = .asked) = (m.acts c).count .asked := by
      rw [acts, List.count, List.countP_map, List.countP_filter]
      refine List.countP_congr fun note hnote ↦ ?_
      have hcaller (hasked : note.2 = .asked) : note.1 = c :=
        h.chronicle.claimed_unique (hclaim (hasked ▸ hnote)) (hclaim hc)
      simpa using hcaller
    rw [hcount]
    exact (h.course c).count_asked_le_one
  · have hnone : m.log.countP (·.2 = .asked) = 0 := by
      rw [List.countP_eq_zero]
      rintro ⟨c, act⟩ hmem hact
      obtain rfl : act = .asked := of_decide_eq_true hact
      exact hasked ⟨c, hmem⟩
    rw [hnone]
    exact Nat.zero_le 1

end Callers

/-- **Hooks take effect at most once**, whoever calls them, and in whatever order the steps of the
callers come, on every host.

A claim of the load is accepted just if it is the first one, on a host that was idle; a claim of the
unload just if the load was claimed before, and the unload was not since then. No claim is accepted
twice. Only a load hook asks for the file and applies lines, and only an unload hook closes modules,
after its claim was accepted; the file is asked for at most once. All other hooks answer that they
were refused, in one step that leaves the host and the events as they are.

If the registry is not valid a load hook changes nothing but the phase. The one whose claim was
accepted has no report, the load stays claimed, and the next claim of the unload is accepted. Every
caller can return, by steps of its own. -/
theorem hooks_take_effect_once {ι : Type} [DecidableEq ι] [Loader σ φ] (call : ι → Operation)
    (host : Host σ φ) {m : Callers ι σ φ} (hm : Callers.Reaches call { host } m) :
    (∀ before after c claim accepted, m.log = before ++ (c, .claimed claim accepted) :: after →
        (accepted = true ↔ claim.Due host.phase before)) ∧
      (∀ claim c c', (c, .claimed claim true) ∈ m.log → (c', .claimed claim true) ∈ m.log →
        c = c') ∧
      (∀ c act claim, (c, act) ∈ m.log → act.effect? = some claim →
        (call c).hook? = some claim ∧
          ∃ before after, m.log = before ++ (c, .claimed claim true) :: after ∧
            claim.Due host.phase before ∧ ∀ act', (c, act') ∉ before) ∧
      m.log.countP (·.2 = .asked) ≤ 1 ∧
      (∀ c claim, (call c).hook? = some claim →
        (∀ m', m.step call c = some m' → (c, .claimed claim true) ∉ m'.log →
          m'.host = m.host ∧ m'.events = m.events ∧ m'.progress c = .returned claim.refusal) ∧
        ∀ answer, m.progress c = .returned answer → (c, .claimed claim true) ∉ m.log →
          answer = claim.refusal) ∧
      (∀ e, host.registry.validate = .error e → ∀ c, (call c).hook? = some .load →
        (∀ m', m.step call c = some m' →
          m'.host = { m.host with phase := m'.host.phase } ∧ m'.events = m.events) ∧
        ((c, .claimed .load true) ∈ m.log →
          (∀ answer, m.progress c = .returned answer → answer = .hooked ⟨true, none⟩) ∧
          m.host.phase ≠ .idle ∧
          ((∀ c', (c', .claimed .unload true) ∉ m.log) →
            ∀ c', m.progress c' = .waiting → (call c').claim? = some .unload →
              ∃ m', m.step call c' = some m' ∧
                m'.log = m.log ++ [(c', .claimed .unload true)]))) ∧
      ∀ c, ∃ m' answer, m.Proceeds call c m' ∧ m'.progress c = .returned answer := by
  have hs : Callers.Sound call host m := .reaches hm
  refine ⟨?_, ?_, ?_, hs.countP_asked_le_one, ?_, ?_, fun c ↦ m.exists_proceeds_returned call c⟩
  · rintro before after c claim accepted hlog
    exact Chronicle.claimed_iff_due (hlog ▸ hs.chronicle)
  · exact fun claim c c' ↦ hs.chronicle.claimed_unique
  · exact fun c act claim hact he ↦ hs.of_effect hact he
  · exact fun c claim hhook ↦ ⟨fun m' ↦ hs.step_of_not_accepted hhook,
      fun answer ↦ hs.answer_of_not_accepted hhook⟩
  · intro e hv c hhook
    refine ⟨fun m' ↦ hs.step_of_invalid hv hhook, fun hc ↦ ⟨fun answer ↦ ?_, ?_, ?_⟩⟩
    · intro hp
      have hcourse := hs.course c
      rw [hv, hp] at hcourse
      exact hcourse.answer_of_invalid hhook (Callers.mem_acts.mpr hc)
    · intro hidle
      exact (hs.chronicle.idle_iff.mp hidle).2 c true hc
    · intro hn c' hwaiting hclaim
      have hphase : m.host.phase = .loaded := hs.chronicle.loaded_iff.mpr ⟨.inr ⟨c, hc⟩, hn⟩
      have hx := turn_of_claim? hclaim m.host
      rw [hphase, ← hwaiting] at hx
      exact ⟨_, Callers.step_of_turn hx, rfl⟩

/-- Two hooks that want to load, between two that want to unload, and someone who asks for the
function. -/
def racingCalls : Fin 5 → Operation
  | 0 | 4 => .unloadHook
  | 1 | 2 => .loadHook (some .single)
  | 3 => .get 0

/-- The second load hook comes when the first one has claimed and not yet asked for the file. -/
theorem hooks_take_effect_once_race :
    let start : Callers (Fin 5) (Catalog Nat) Nat := { host := .fresh ["sum"] .single .truncate }
    let m := start.follow racingCalls [0, 1, 2, 1, 1, 1, 1, 3, 4, 4, 4]
    let before : List (Fin 5 × Act) :=
      [(0, .claimed .unload false), (1, .claimed .load true), (2, .claimed .load false),
        (1, .asked), (1, .applied ⟨1, ⟨"sum", ⟨"libsum", "sum"⟩⟩⟩)]
    start.Reaches racingCalls m ∧
      m.log = before ++ [(4, .claimed .unload true), (4, .closed ⟨65537, by decide⟩)] ∧
      Claim.unload.Due .idle before ∧ m.log.countP (·.2 = .asked) ≤ 1 := by
  intro start m before
  have hreaches : start.Reaches racingCalls m := Callers.reaches_follow _ _ _
  have hlog : m.log = before ++ [(4, .claimed .unload true), (4, .closed ⟨65537, by decide⟩)] := by
    decide +kernel
  obtain ⟨hclaims, -, -, hasked, -⟩ := hooks_take_effect_once racingCalls _ hreaches
  exact ⟨hreaches, hlog, (hclaims _ _ _ _ _ hlog).mp rfl, hasked⟩

end Hooks

end Interpose
