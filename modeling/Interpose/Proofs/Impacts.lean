import Interpose.Proofs.Application
import Interpose.Proofs.Classification

/-!
# Impacts

What an operation does to one entry of a host. It gives the entry a target, settles it, releases it,
or leaves it alone (`Impact`), and which of these it does is decided by the operation, the keys, the
policy and the phase of the host (`Host.impact`). What becomes of the entry is then a matter of the
entry alone, up to the handle that it holds (`Host.map_face_perform`).

Operations that apply a table are taken together: each of them applies some lines (`Host.linesOf`),
be they in a table, in a file, or none at all, and does nothing else to the entries
(`Host.applied_perform`). Of these lines, an entry heeds the last one that is for it
(`Registry.getElem?_applyLines_lastLineFor?`).
-/

namespace Interpose

variable {σ φ : Type}

/-! ### Keys -/

theorem Moves.keys_eq [Loader σ φ] {x y : Holdings σ φ} (h : Moves x y) :
    y.entries.map (·.key) = x.entries.map (·.key) := by
  induction h with
  | refl => rfl
  | tail _ hm ih =>
    rw [← ih]
    cases hm with
    | configure => simp
    | @settle _ _ e loader _ => simp [(e.key_get loader).1]

namespace Host

variable [Loader σ φ]

/-- No operation changes a key. -/
theorem keys_perform (h : Host σ φ) (op : Operation) :
    (h.perform op).host.registry.keys = h.registry.keys := by
  by_cases hd : h.Disposes op
  · have hes := congrArg Holdings.entries (h.holdings_perform_of_disposes hd)
    rw [Registry.keys, show (h.perform op).host.registry.entries = _ from hes, holdings,
      entries_dispose, List.map_map]
    rfl
  · exact (h.moves_perform hd).keys_eq

/-- The keys of a host are fixed. -/
theorem keys_after (h : Host σ φ) (ops : List Operation) :
    (h.after ops).registry.keys = h.registry.keys := by
  induction ops generalizing h with
  | nil => rfl
  | cons op ops ih => exact (ih (h.perform op).host).trans (h.keys_perform op)

end Host

/-! ### Phases and policies -/

/-- The phase after an operation. -/
def HookPhase.after (p : HookPhase) : Operation → HookPhase
  | .enterLoaded | .loadHook _ => p.enterLoaded.2
  | .enterUnloaded | .unloadHook => p.enterUnloaded.2
  | _ => p

/-! ### Lines that an operation applies -/

/-- An operation is of a kind that applies tables. -/
def Operation.Applies : Operation → Prop
  | .applyTable _ | .loadConfig _ | .init _ | .loadHook _ => True
  | _ => False

/-- The lines of the table in a file. -/
def TableFile.lines (policy : NamePolicy) (file : TableFile) : List Table.Line :=
  match Table.load policy file with
  | .ok t => t.lines
  | .error _ => []

/-- The lines of the table that comes with an operation. -/
def Operation.lines (policy : NamePolicy) : Operation → List Table.Line
  | .applyTable t => t.lines
  | .loadConfig file => file.lines policy
  | .init file | .loadHook file => (file.map (·.lines policy)).getD []
  | _ => []

/-- A step from a host that applies lines to its entries and does nothing else to it. -/
structure Step.Applied {α : Type} (s : Step σ φ α) (h : Host σ φ) (lines : List Table.Line) :
    Prop where
  host : s.host = { h with registry := (h.registry.applyLines lines).1 }
  events : s.events = (h.registry.applyLines lines).2

namespace Host

/-- Whether a host goes as far as applying the table that comes with an operation. -/
def admits (h : Host σ φ) : Operation → Bool
  | .init _ => h.registry.validate.isOk
  | .loadHook _ => h.phase = .idle && h.registry.validate.isOk
  | _ => true

/-- The lines that an operation applies. -/
def linesOf (h : Host σ φ) (op : Operation) : List Table.Line :=
  if h.admits op then op.lines h.policy else []

theorem linesOf_of_not_applies {op : Operation} (hop : ¬op.Applies) (h : Host σ φ) :
    h.linesOf op = [] := by
  cases op <;> first | rfl | exact absurd trivial hop

variable (h : Host σ φ)

/-- Loading a table applies its lines, of which there are none if it cannot be read. -/
theorem applied_loadConfig (file : TableFile) :
    (h.loadConfig file).Applied h (file.lines h.policy) := by
  rw [loadConfig, TableFile.lines]
  cases Table.load h.policy file <;> exact ⟨rfl, rfl⟩

/-- Initializing applies lines only if the registry is valid. -/
theorem applied_init (file : Option TableFile) :
    (h.init file).Applied h (h.linesOf (.init file)) := by
  unfold init linesOf admits
  cases h.registry.validate with
  | error e => exact ⟨rfl, rfl⟩
  | ok =>
    cases file with
    | none => exact ⟨rfl, rfl⟩
    | some file =>
      obtain ⟨hhost, hevents⟩ := h.applied_loadConfig file
      exact ⟨hhost, hevents⟩

/-- The load hook applies lines once the phase has moved, and only if it has. -/
theorem applied_loadHook (file : Option TableFile) :
    (h.loadHook file).Applied h.enterLoaded.host (h.linesOf (.loadHook file)) := by
  rw [loadHook, linesOf, admits]
  by_cases hp : h.phase = .idle
  · have hr : h.enterLoaded.result = true := HookPhase.enterLoaded_accepted_iff.mpr hp
    obtain ⟨hhost, hevents⟩ := h.enterLoaded.host.applied_init file
    rw [if_pos hr, decide_eq_true hp, Bool.true_and]
    exact ⟨hhost, hevents⟩
  · have hr : ¬h.enterLoaded.result = true := fun hr ↦ hp (HookPhase.enterLoaded_accepted_iff.mp hr)
    rw [if_neg hr, decide_eq_false hp, Bool.false_and]
    exact ⟨rfl, rfl⟩

/-- **Operations that apply a table** do so to the entries and move the phase, and nothing else. -/
theorem applied_perform [Loader σ φ] {op : Operation} (hop : op.Applies) :
    (h.perform op).Applied { h with phase := h.phase.after op } (h.linesOf op) := by
  cases op with
  | applyTable t => exact ⟨rfl, rfl⟩
  | loadConfig file =>
    obtain ⟨hhost, hevents⟩ := h.applied_loadConfig file
    exact ⟨hhost, hevents⟩
  | init file =>
    obtain ⟨hhost, hevents⟩ := h.applied_init file
    exact ⟨hhost, hevents⟩
  | loadHook file =>
    obtain ⟨hhost, hevents⟩ := h.applied_loadHook file
    exact ⟨hhost, hevents⟩
  | _ => exact hop.elim

variable [Loader σ φ]

/-- Requests leave phase and policy alone. -/
theorem phase_get (i : Nat) :
    (h.get i).host.phase = h.phase ∧ (h.get i).host.policy = h.policy := by
  rw [get]
  cases h.registry.entries[i]? <;> exact ⟨rfl, rfl⟩

/-- The phase of a host moves by itself, and the policy is fixed. -/
theorem phase_perform (op : Operation) :
    (h.perform op).host.phase = h.phase.after op ∧ (h.perform op).host.policy = h.policy := by
  by_cases happlies : op.Applies
  · rw [(h.applied_perform happlies).host]
    exact ⟨rfl, rfl⟩
  cases op with
  | configure i target =>
    show (h.configure i target).host.phase = h.phase ∧ (h.configure i target).host.policy = h.policy
    rw [configure]
    cases h.registry.entries[i]? <;> exact ⟨rfl, rfl⟩
  | get i => exact h.phase_get i
  | isOverridden i => exact h.phase_get i
  | dispatch policy i => exact h.phase_get i
  | dispatchOrDefault i => exact h.phase_get i
  | unloadHook =>
    show h.unloadHook.host.phase = _ ∧ h.unloadHook.host.policy = _
    rw [unloadHook]
    cases h.enterUnloaded.result <;> exact ⟨rfl, rfl⟩
  | resolveAll | snapshot | info | dispose | enterLoaded | enterUnloaded => exact ⟨rfl, rfl⟩
  | _ => exact absurd trivial happlies

end Host

/-! ### Lines for an entry -/

/-- A line is for the entry at an index of a registry with some keys: the first one with its key. -/
def Table.Line.IsFor (keys : List String) (i : Nat) (line : Table.Line) : Prop :=
  keys.findIdx? (· = line.assignment.key) = some i

instance (keys : List String) (i : Nat) (line : Table.Line) : Decidable (line.IsFor keys i) :=
  inferInstanceAs (Decidable (_ = _))

/-- The last of some lines that is for an entry. -/
def lastLineFor? (keys : List String) (i : Nat) (lines : List Table.Line) : Option Table.Line :=
  lines.reverse.find? (·.IsFor keys i)

/-- A line is the last one for an entry if no later line is. -/
theorem lastLineFor?_cons (keys : List String) (i : Nat) (line : Table.Line)
    (lines : List Table.Line) :
    lastLineFor? keys i (line :: lines) =
      (lastLineFor? keys i lines).or (if line.IsFor keys i then some line else none) := by
  rw [lastLineFor?, List.reverse_cons, List.find?_append]
  by_cases h : line.IsFor keys i <;> simp [lastLineFor?, h]

/-- An entry takes a target as long as it is unresolved. -/
theorem Entry.configure_eq (target : Target) (e : Entry φ) :
    (e.configure target).2 = if e.state = .unresolved then { e with target } else e := by
  rw [configure]
  cases e.state <;> rfl

/-- Of two targets, an entry keeps the later one, and a settled entry keeps its own. -/
theorem Entry.configure_configure (first second : Target) (e : Entry φ) :
    ((e.configure first).2.configure second).2 = (e.configure second).2 := by
  unfold configure
  cases h : e.state.isTerminal <;> simp [h]

namespace Registry

/-- Lines for an entry are those whose key is found at its index. -/
theorem isFor_iff {r : Registry φ} {line : Table.Line} {i : Nat} :
    line.IsFor r.keys i ↔ r.find? line.assignment.key = some i := by
  rw [Table.Line.IsFor, find?, keys, List.findIdx?_map]
  rfl

/-- **Of the lines that are applied, an entry heeds the last one that is for it.** -/
theorem getElem?_applyLines_lastLineFor? (r : Registry φ) (lines : List Table.Line) (i : Nat) :
    (r.applyLines lines).1.entries[i]? = r.entries[i]?.map fun e ↦
      match lastLineFor? r.keys i lines with
      | some line => (e.configure line.assignment.target).2
      | none => e := by
  cases he : r.entries[i]? with
  | none =>
    rw [List.getElem?_eq_none_iff] at he
    rw [Option.map_none, List.getElem?_eq_none_iff, length_applyLines]
    exact he
  | some e =>
    rw [Option.map_some]
    induction lines generalizing r e with
    | nil => exact he
    | cons line lines ih =>
      have hkeys : (r.applyLine line).1.keys = r.keys := by
        simpa [roster, keys, Function.comp_def] using
          congrArg (List.map Prod.fst) (r.roster_applyLine line)
      have hstep : (r.applyLine line).1.entries[i]? =
          some (if line.IsFor r.keys i then (e.configure line.assignment.target).2 else e) := by
        rw [getElem?_applyLine he, Entry.configure_eq]
        by_cases hfor : line.IsFor r.keys i <;> simp [hfor, ← isFor_iff]
      rw [registry_applyLines_cons, ih _ _ hstep, hkeys, lastLineFor?_cons]
      by_cases hfor : line.IsFor r.keys i
      · rw [if_pos hfor, if_pos hfor]
        -- The entry takes both targets or neither, so a later line replaces what this one assigns.
        cases lastLineFor? r.keys i lines with
        | none => rfl
        | some later => exact congrArg some (e.configure_configure _ _)
      · rw [if_neg hfor, if_neg hfor, Option.or_none]

end Registry

/-! ### Impacts on an entry -/

namespace Entry

/-- The entry without its handle, the one cell that depends on what the loader did before. -/
def face (e : Entry φ) : Entry φ := { e with handle := none }

@[simp] theorem state_face (e : Entry φ) : e.face.state = e.state := rfl

@[simp] theorem target_face (e : Entry φ) : e.face.target = e.target := rfl

/-- The entry once it was asked for its function, up to its handle. -/
def settle (modules : List (Catalog.Module φ)) (e : Entry φ) : Entry φ :=
  if e.state.isTerminal then e
  else
    match Catalog.verdict modules e.target with
    | .ok function => { e with state := .bound, function := some function }
    | .error reason => e.fail reason

/-- What an entry answers when it is asked for its function. -/
def answer (modules : List (Catalog.Module φ)) (e : Entry φ) : Option φ :=
  if e.state.isTerminal then e.function else (Catalog.verdict modules e.target).toOption

theorem answer_face (modules : List (Catalog.Module φ)) (e : Entry φ) :
    e.face.answer modules = e.answer modules := rfl

/-- **Asking an entry settles it**, and what it answers is up to the modules of the catalog. The
loader's history shows in the handle alone. -/
theorem get_eq_settle (e : Entry φ) {c : Catalog φ} (hroom : c.modules.length < Catalog.slots) :
    (e.get c).entry.face = (e.settle c.modules).face ∧ (e.get c).function = e.answer c.modules := by
  rw [settle, answer]
  cases ht : e.state.isTerminal with
  | true =>
    rw [get_of_isTerminal ht]
    exact ⟨rfl, rfl⟩
  | false =>
    have hu := State.isTerminal_eq_false_iff.mp ht
    obtain ⟨hbound, -⟩ := Catalog.bind_eq_verdict e.target hroom
    rcases hb : e.target.bind c with ⟨reason | b, c'⟩
    · rw [hb] at hbound
      rw [get_of_bind_error hu hb, ← hbound]
      exact ⟨rfl, rfl⟩
    · rw [hb] at hbound
      rw [get_of_bind_ok hu hb, ← hbound]
      exact ⟨rfl, rfl⟩

end Entry

/-- What an operation can do to an entry. -/
inductive Impact
  | keep
  | assign (target : Target)
  | settle
  | release

namespace Impact

/-- The entry after an impact, up to its handle. -/
def apply (modules : List (Catalog.Module φ)) : Impact → Entry φ → Entry φ
  | keep, e => e
  | assign target, e => (e.configure target).2
  | settle, e => e.settle modules
  | release, e => e.release.2

/-- No impact depends on the handle. -/
theorem face_apply (modules : List (Catalog.Module φ)) (impact : Impact) (e : Entry φ) :
    (impact.apply modules e.face).face = (impact.apply modules e).face := by
  cases impact with
  | keep | release => rfl
  | assign target =>
    rw [apply, apply, Entry.configure_eq, Entry.configure_eq, Entry.state_face]
    split <;> rfl
  | settle =>
    rw [apply, apply, Entry.settle, Entry.settle, Entry.state_face, Entry.target_face]
    cases e.state.isTerminal with
    | true => rfl
    | false => cases Catalog.verdict modules e.target <;> rfl

end Impact

theorem Entry.state_settle_face (modules : List (Catalog.Module φ)) (e : Entry φ) :
    (e.face.settle modules).state = (e.settle modules).state := by
  have hstate := congrArg Entry.state (Impact.settle.face_apply modules e)
  rwa [state_face, state_face] at hstate

namespace Host

/-- What an operation does to the entry at an index. -/
def impact (h : Host σ φ) (i : Nat) : Operation → Impact
  | .configure j target => if j = i then .assign target else .keep
  | .get j | .isOverridden j | .dispatch _ j | .dispatchOrDefault j =>
    if j = i then .settle else .keep
  | .resolveAll | .info => .settle
  | .snapshot | .enterLoaded | .enterUnloaded => .keep
  | .dispose => .release
  | .unloadHook => if h.phase = .loaded then .release else .keep
  | .applyTable t => ofLines (h.linesOf (.applyTable t))
  | .loadConfig file => ofLines (h.linesOf (.loadConfig file))
  | .init file => ofLines (h.linesOf (.init file))
  | .loadHook file => ofLines (h.linesOf (.loadHook file))
where
  ofLines (lines : List Table.Line) : Impact :=
    match lastLineFor? h.registry.keys i lines with
    | some line => .assign line.assignment.target
    | none => .keep

/-- An operation that applies a table has the impact of its lines. -/
theorem impact_of_applies {op : Operation} (hop : op.Applies) (h : Host σ φ) (i : Nat) :
    h.impact i op = impact.ofLines h i (h.linesOf op) := by
  cases op <;> first | rfl | exact hop.elim

/-- A target is given to one entry, and the others stay as they are. -/
theorem entryAt_configure {h : Host σ φ} {i : Nat} {e : Entry φ} (he : h.entryAt i = some e)
    (j : Nat) (target : Target) :
    (h.configure j target).host.entryAt i =
      some (if j = i then (e.configure target).2 else e) := by
  have he' : h.registry.entries[i]? = some e := he
  obtain ⟨hi, -⟩ := List.getElem?_eq_some_iff.mp he'
  by_cases hji : j = i
  · subst hji
    simp only [configure, he', entryAt, List.getElem?_set_self hi, if_true]
  · rw [configure, if_neg hji]
    cases h.registry.entries[j]? with
    | none => exact he
    | some d => simp only [entryAt, List.getElem?_set_ne hji, he']

variable {h : Host (Catalog φ) φ} {i : Nat} {e : Entry φ}

/-- A resolution settles the entries that it asks, and keeps the others. -/
theorem face_entryAt_of_resolves (op : Operation) (hop : op.Resolves)
    (hroom : h.loader.modules.length < Catalog.slots) (he : h.entryAt i = some e) :
    (op.Asks i → ((h.perform op).host.entryAt i).map Entry.face =
        some (e.settle h.loader.modules).face) ∧
      (¬op.Asks i → ((h.perform op).host.entryAt i).map Entry.face = some e.face) := by
  obtain ⟨hasked, hkept⟩ := exists_asked hop hroom he
  refine ⟨fun hask ↦ ?_, fun hask ↦ by rw [hkept hask, Option.map_some]⟩
  obtain ⟨c, hc, he'⟩ := hasked hask
  rw [he', Option.map_some, (e.get_eq_settle (hc ▸ hroom)).1, hc]

/-- A request settles one entry, and the others stay as they are. -/
theorem face_entryAt_get (hroom : h.loader.modules.length < Catalog.slots)
    (he : h.entryAt i = some e) (j : Nat) :
    ((h.get j).host.entryAt i).map Entry.face =
      some ((h.impact i (.get j)).apply h.loader.modules e).face := by
  obtain ⟨hasked, hkept⟩ := face_entryAt_of_resolves (.get j) trivial hroom he
  rw [impact]
  by_cases hji : j = i
  · rw [if_pos hji]
    exact hasked hji
  · rw [if_neg hji]
    exact hkept hji

/-- What an operation does to an entry is its impact on the entry, up to the handle. -/
theorem face_entryAt_perform (hroom : h.loader.modules.length < Catalog.slots)
    (he : h.entryAt i = some e) (op : Operation) :
    ((h.perform op).host.entryAt i).map Entry.face =
      some ((h.impact i op).apply h.loader.modules e).face := by
  have he' : h.registry.entries[i]? = some e := he
  by_cases happlies : op.Applies
  · rw [entryAt, (h.applied_perform happlies).host, impact_of_applies happlies, impact.ofLines]
    dsimp only
    rw [Registry.getElem?_applyLines_lastLineFor?, he', Option.map_some, Option.map_some]
    cases lastLineFor? h.registry.keys i (h.linesOf op) <;> rfl
  by_cases hdisposes : h.Disposes op
  · rw [entryAt_perform_of_disposes hdisposes, he, Option.map_some, Option.map_some]
    cases op with
    | dispose => rfl
    | unloadHook =>
      rw [impact, if_pos (show h.phase = .loaded from hdisposes)]
      rfl
    | _ => exact hdisposes.elim
  cases op with
  | configure j target =>
    show ((h.configure j target).host.entryAt i).map Entry.face = _
    rw [entryAt_configure he, Option.map_some, impact]
    split <;> rfl
  | get j => exact face_entryAt_get hroom he j
  | isOverridden j => exact face_entryAt_get hroom he j
  | dispatch policy j => exact face_entryAt_get hroom he j
  | dispatchOrDefault j => exact face_entryAt_get hroom he j
  | resolveAll => exact (face_entryAt_of_resolves .resolveAll trivial hroom he).1 trivial
  | info => exact (face_entryAt_of_resolves .info trivial hroom he).1 trivial
  | snapshot | enterLoaded | enterUnloaded => exact congrArg (Option.map Entry.face) he
  | dispose => exact absurd trivial hdisposes
  | unloadHook =>
    have hr : ¬h.enterUnloaded.result = true :=
      fun hr ↦ hdisposes (result_enterUnloaded_iff.mp hr)
    show (h.unloadHook.host.entryAt i).map Entry.face = _
    rw [unloadHook, if_neg hr, impact, if_neg (show ¬h.phase = .loaded from hdisposes)]
    exact congrArg (Option.map Entry.face) he
  | _ => exact absurd trivial happlies

/-- **The faces of entries after an operation** are its impacts on the faces before it. -/
theorem map_face_perform (hroom : h.loader.modules.length < Catalog.slots) (op : Operation)
    (i : Nat) :
    ((h.perform op).host.entryAt i).map Entry.face =
      ((h.entryAt i).map Entry.face).map fun e ↦
        ((h.impact i op).apply h.loader.modules e).face := by
  cases he : h.entryAt i with
  | none =>
    have hnone : (h.perform op).host.entryAt i = none := by
      rw [entryAt, List.getElem?_eq_none_iff] at he ⊢
      rw [length_perform]
      exact he
    rw [hnone]
    rfl
  | some e =>
    rw [face_entryAt_perform hroom he, Option.map_some, Option.map_some, Impact.face_apply]

/-- What an entry answers, and its state thereafter. -/
theorem answer_get (hroom : h.loader.modules.length < Catalog.slots)
    (he : h.entryAt i = some e) :
    (h.get i).result = e.answer h.loader.modules ∧
      (h.get i).host.stateAt i = (e.settle h.loader.modules).state := by
  have he' : h.registry.entries[i]? = some e := he
  refine ⟨?_, ?_⟩
  · rw [← (e.get_eq_settle hroom).2]
    simp only [get, he']
  · have hface := (face_entryAt_of_resolves (.get i) trivial hroom he).1 rfl
    obtain ⟨d, hd, hsame⟩ := Option.map_eq_some_iff.mp hface
    have hd' : (h.get i).host.registry.entries[i]? = some d := hd
    have hstate := congrArg Entry.state hsame
    rw [Entry.state_face, Entry.state_face] at hstate
    rw [stateAt, hd', Option.map_some, Option.getD_some, hstate]

end Host

end Interpose
