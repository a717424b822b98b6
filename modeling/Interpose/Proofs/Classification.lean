import Interpose.Proofs.Conservation
import Interpose.Proofs.Lifecycle

/-!
# What targets resolve to

Over a catalog, what an entry is settled to is a function of its own target and of the listed
modules (`Catalog.verdict`). It does not depend on what was opened before, although every opening
gets a handle of its own and all openings are counted together: a handle leads back to its module
whatever its number is (`Catalog.moduleOf?_of_word`).

So a run of resolutions settles the entries that it asks, each to its verdict, and leaves the others
alone (`Host.exists_asked_after`), and what it adds to the counts can be read off the states before
and after it (`Tally`). Two such runs that ask the same entries therefore end alike, in any order
and with any repetitions. `resolution_classified` puts both together.
-/

namespace Interpose

variable {φ : Type}

/-! ### Verdicts -/

theorem moduleFileName_eq (library : String) :
    moduleFileName library =
      if 255 < (library ++ ".so").utf8ByteSize then .error .nameTooLong
      else .ok (library ++ ".so") := by
  have hsize : (library ++ ".so").utf8ByteSize =
      library.utf8ByteSize + moduleSuffix.utf8ByteSize := String.utf8ByteSize_append
  rw [hsize]
  split
  · next h => exact composeFileName_eq_error_iff.mpr ⟨h, rfl⟩
  · next h => exact composeFileName_eq_ok_iff.mpr ⟨Nat.le_of_not_lt h, rfl⟩

namespace Catalog

/-- What a target resolves to over listed modules: the reason for which it cannot be bound, or the
function that it is bound to. -/
def verdict (modules : List (Module φ)) (t : Target) : Except BindError φ :=
  if t.library = "" ∨ t.symbol = "" then .error .noConfig
  else if 255 < (t.library ++ ".so").utf8ByteSize then .error .nameTooLong
  else
    match modules.find? (·.file = t.library ++ ".so") with
    | none => .error .moduleNotFound
    | some m =>
      match m.exports.find? (·.1 = t.symbol) with
      | some (_, some function) => .ok function
      | _ => .error .symbolNotFound

/-- The catalog after an attempt to bind a target with a verdict. -/
def charge (c : Catalog φ) : Except BindError φ → Catalog φ
  | .error .noConfig | .error .nameTooLong => c
  | .error .moduleNotFound => { c with opens := c.opens + 1 }
  | .error .symbolNotFound =>
    { c with
      opens := c.opens + 1
      opened := c.opened + 1
      resolves := c.resolves + 1
      closes := c.closes + 1 }
  | .ok _ =>
    { c with opens := c.opens + 1, opened := c.opened + 1, resolves := c.resolves + 1 }

@[simp] theorem modules_charge (c : Catalog φ) (v : Except BindError φ) :
    (c.charge v).modules = c.modules := by
  cases v with
  | error reason => cases reason <;> rfl
  | ok => rfl

/-- Opening a file under which nothing is listed finds no module. -/
theorem openModule_of_find?_eq_none {c : Catalog φ} {file : String}
    (h : c.modules.find? (·.file = file) = none) :
    c.openModule file = (.error .moduleNotFound, { c with opens := c.opens + 1 }) := by
  have hnone : c.modules.findIdx? (·.file = file) = none := by simpa using h
  simp only [openModule, hnone]

/-- Opening a file gives a handle that leads to the first module that is listed under it. -/
theorem openModule_of_find?_eq_some {c : Catalog φ} (hroom : c.modules.length < slots)
    {file : String} {m : Module φ} (h : c.modules.find? (·.file = file) = some m) :
    ∃ handle,
      c.openModule file =
          (.ok handle, { c with opens := c.opens + 1, opened := c.opened + 1 }) ∧
        ∀ c' : Catalog φ, c'.modules = c.modules → c'.moduleOf? handle = some m := by
  rw [List.find?_eq_bind_findIdx?_getElem?] at h
  obtain ⟨i, hf, hm⟩ := Option.bind_eq_some_iff.mp h
  obtain ⟨hi, handle, hword, hopen⟩ := openModule_of_findIdx?_eq_some hroom hf
  refine ⟨handle, hopen, fun c' hc' ↦ ?_⟩
  rw [moduleOf?_of_word (Nat.lt_of_le_of_lt hi hroom) hword, hc', hm]

/-- **An attempt to bind a target** comes to its verdict, and is counted by it. -/
theorem bind_eq_verdict (t : Target) {c : Catalog φ} (hroom : c.modules.length < slots) :
    (t.bind c).1.map (·.function) = verdict c.modules t ∧
      (t.bind c).2 = c.charge (verdict c.modules t) := by
  rw [Target.bind, verdict]
  by_cases hnames : t.library = "" ∨ t.symbol = ""
  · have hn : t.isConfigured = false := by
      simpa [Target.isConfigured, imp_iff_not_or] using hnames
    rw [if_pos hnames, hn]
    exact ⟨rfl, rfl⟩
  have hn : t.isConfigured = true := by simpa [Target.isConfigured] using hnames
  rw [if_neg hnames, hn, moduleFileName_eq]
  by_cases hlong : 255 < (t.library ++ ".so").utf8ByteSize
  · rw [if_pos hlong, if_pos hlong]
    exact ⟨rfl, rfl⟩
  rw [if_neg hlong, if_neg hlong]
  cases hm : c.modules.find? (·.file = t.library ++ ".so") with
  | none =>
    have hopen : Loader.openModule (t.library ++ ".so") c = _ := openModule_of_find?_eq_none hm
    simp only [hopen]
    exact ⟨rfl, rfl⟩
  | some m =>
    obtain ⟨handle, hopen, hmodule⟩ := openModule_of_find?_eq_some hroom hm
    have hopen' : Loader.openModule (t.library ++ ".so") c = _ := hopen
    -- The symbol is looked up in the module that the handle leads back to.
    have hres (c' : Catalog φ) (hc' : c'.modules = c.modules) :
        Loader.resolve handle t.symbol c' =
          ((m.function? t.symbol).elim (.error .symbolNotFound) .ok,
            { c' with resolves := c'.resolves + 1 }) := by
      show c'.resolve handle t.symbol = _
      rw [resolve, hmodule c' hc', Option.bind_some]
      cases m.function? t.symbol <;> rfl
    simp only [hopen', hres { c with opens := c.opens + 1, opened := c.opened + 1 } rfl]
    rw [Module.function?]
    cases hf : m.exports.find? (·.1 = t.symbol) with
    | none => exact ⟨rfl, rfl⟩
    | some listing =>
      obtain ⟨-, - | function⟩ := listing
      · exact ⟨rfl, rfl⟩
      · exact ⟨rfl, rfl⟩

end Catalog

/-! ### Settling by a verdict -/

/-- The state of an entry that was settled with a verdict. -/
def State.ofVerdict : Except BindError φ → State
  | .ok _ => .bound
  | .error reason => .failed reason

/-- What an attempt is counted as shows in the state that it leads to. -/
theorem Catalog.counts_charge (c : Catalog φ) (v : Except BindError φ) :
    let s := State.ofVerdict v
    let found := (if s = .bound then 1 else 0) + if s = .failed .symbolNotFound then 1 else 0
    (c.charge v).opens = c.opens + (found + if s = .failed .moduleNotFound then 1 else 0) ∧
      (c.charge v).opened = c.opened + found ∧
      (c.charge v).resolves = c.resolves + found ∧
      (c.charge v).closes = c.closes + if s = .failed .symbolNotFound then 1 else 0 := by
  cases v with
  | error reason => cases reason <;> simp [State.ofVerdict, charge]
  | ok => simp [State.ofVerdict, charge]

namespace Entry

variable {e : Entry φ} {c : Catalog φ}

/-- **An unresolved entry is settled with the verdict on its target.** -/
theorem get_eq_verdict (hroom : c.modules.length < Catalog.slots) (hu : e.state = .unresolved)
    {v : Except BindError φ} (hv : Catalog.verdict c.modules e.target = v) :
    (e.get c).entry.state = .ofVerdict v ∧ (e.get c).function = v.toOption ∧
      (e.get c).loader = c.charge v := by
  obtain ⟨hbound, hc⟩ := Catalog.bind_eq_verdict e.target hroom
  rw [hv] at hbound hc
  rcases hb : e.target.bind c with ⟨reason | b, c'⟩
  · rw [hb] at hbound hc
    rw [get_of_bind_error hu hb, ← hbound]
    exact ⟨rfl, rfl, hc.trans (congrArg c.charge hbound.symm)⟩
  · rw [hb] at hbound hc
    rw [get_of_bind_ok hu hb, ← hbound]
    exact ⟨rfl, rfl, hc.trans (congrArg c.charge hbound.symm)⟩

theorem modules_get (e : Entry φ) (hroom : c.modules.length < Catalog.slots) :
    (e.get c).loader.modules = c.modules := by
  cases ht : e.state.isTerminal with
  | true => rw [get_of_isTerminal ht]
  | false =>
    obtain ⟨-, -, hc⟩ := get_eq_verdict hroom (State.isTerminal_eq_false_iff.mp ht) rfl
    rw [hc, Catalog.modules_charge]

/-- State and function of an entry. -/
def view (e : Entry φ) : State × Option φ := (e.state, e.function)

/-- State and function of an entry once it was asked for its function. -/
def outcome (modules : List (Catalog.Module φ)) (e : Entry φ) : State × Option φ :=
  if e.state.isTerminal then e.view
  else
    let v := Catalog.verdict modules e.target
    (.ofVerdict v, v.toOption)

/-- An entry without a function to begin with is settled to its outcome. -/
theorem get_eq_outcome (hroom : c.modules.length < Catalog.slots)
    (hn : e.state = .unresolved → e.function = none) :
    (e.get c).entry.view = e.outcome c.modules := by
  rw [outcome]
  cases ht : e.state.isTerminal with
  | true => simp [get_of_isTerminal ht]
  | false =>
    obtain ⟨hs, hf, -⟩ := get_eq_verdict hroom (State.isTerminal_eq_false_iff.mp ht) rfl
    rw [view, ← function_get hn, hs, hf]
    rfl

end Entry

/-! ### What resolutions are counted as -/

/-- How many entries found their module. -/
def located (es : List (Entry φ)) : Nat :=
  inState .bound es + inState (.failed .symbolNotFound) es

theorem inState_eq_countP_view (s : State) (es : List (Entry φ)) :
    inState s es = (es.map Entry.view).countP (·.1 = s) := by
  rw [List.countP_map]
  rfl

/-- What moves over a catalog add to its counts is what they add to the states of the entries. -/
structure Tally (x y : Holdings (Catalog φ) φ) : Prop where
  modules : y.loader.modules = x.loader.modules
  opens :
    y.loader.opens + (located x.entries + inState (.failed .moduleNotFound) x.entries) =
      x.loader.opens + (located y.entries + inState (.failed .moduleNotFound) y.entries)
  opened : y.loader.opened + located x.entries = x.loader.opened + located y.entries
  resolves : y.loader.resolves + located x.entries = x.loader.resolves + located y.entries
  closes : y.loader.closes + inState (.failed .symbolNotFound) x.entries =
    x.loader.closes + inState (.failed .symbolNotFound) y.entries

namespace Tally

variable {x y z : Holdings (Catalog φ) φ}

theorem refl (x : Holdings (Catalog φ) φ) : Tally x x := ⟨rfl, rfl, rfl, rfl, rfl⟩

theorem trans (h : Tally x y) (h' : Tally y z) : Tally x z where
  modules := h'.modules.trans h.modules
  opens := by
    have hxy := h.opens
    have hyz := h'.opens
    omega
  opened := by
    have hxy := h.opened
    have hyz := h'.opened
    omega
  resolves := by
    have hxy := h.resolves
    have hyz := h'.resolves
    omega
  closes := by
    have hxy := h.closes
    have hyz := h'.closes
    omega

theorem of_move (hroom : x.loader.modules.length < Catalog.slots) (h : Move x y) : Tally x y := by
  cases h with
  | configure before after target unresolved => constructor <;> simp [located]
  | @settle before after e c unresolved =>
    obtain ⟨hs, -, hc⟩ := Entry.get_eq_verdict hroom unresolved rfl
    obtain ⟨hopens, hopened, hresolves, hcloses⟩ :=
      c.counts_charge (Catalog.verdict c.modules e.target)
    rw [hc]
    -- An unresolved entry counts for nothing, so what is added is what its new state counts for.
    constructor
    · simp
    all_goals
      simp only [located, inState_append, inState_cons, hs, unresolved, reduceCtorEq, if_false]
      omega

theorem of_moves (hroom : x.loader.modules.length < Catalog.slots) (h : Moves x y) : Tally x y := by
  induction h with
  | refl => exact .refl _
  | tail _ hm ih => exact ih.trans (of_move (by rwa [ih.modules]) hm)

/-- The states that entries are left in decide the counts. -/
theorem loader_eq (h : Tally x y) (h' : Tally x z)
    (hviews : y.entries.map Entry.view = z.entries.map Entry.view) : y.loader = z.loader := by
  have hstates (s : State) : inState s y.entries = inState s z.entries := by
    rw [inState_eq_countP_view, inState_eq_countP_view, hviews]
  have hmodules := h.modules.trans h'.modules.symm
  have hcounts : y.loader.opens = z.loader.opens ∧ y.loader.opened = z.loader.opened ∧
      y.loader.resolves = z.loader.resolves ∧ y.loader.closes = z.loader.closes := by
    have hy := And.intro h.opens (And.intro h.opened (And.intro h.resolves h.closes))
    have hz := And.intro h'.opens (And.intro h'.opened (And.intro h'.resolves h'.closes))
    simp only [located, hstates] at hy
    simp only [located] at hz
    omega
  obtain ⟨hopens, hopened, hresolves, hcloses⟩ := hcounts
  rcases hy : y.loader with ⟨⟩
  rcases hz : z.loader with ⟨⟩
  simp only [hy, hz] at hmodules hopens hopened hresolves hcloses
  simp only [hmodules, hopens, hopened, hresolves, hcloses]

end Tally

/-! ### What becomes of each entry -/

/-- An entry without a function, asked later, is settled to its outcome; asked again, it stays. -/
theorem Entry.outcome_get {e : Entry φ} {c : Catalog φ} (hroom : c.modules.length < Catalog.slots)
    (hn : e.state = .unresolved → e.function = none) :
    (e.get c).entry.outcome c.modules = e.outcome c.modules := by
  rw [outcome, if_pos (e.isTerminal_get c), get_eq_outcome hroom hn]

/-- However an unresolved entry is moved, once it is settled it is so by the verdict on its own
target. -/
theorem Moves.exists_classified {x y : Holdings (Catalog φ) φ} (h : Moves x y)
    (hroom : x.loader.modules.length < Catalog.slots) {i : Nat} {e : Entry φ}
    (he : x.entries[i]? = some e) (hu : e.state = .unresolved) (hn : e.function = none) :
    ∃ e', y.entries[i]? = some e' ∧
      (e'.state = .unresolved ∧ e'.function = none ∨
        e'.state = .ofVerdict (Catalog.verdict x.loader.modules e'.target) ∧
          e'.function = (Catalog.verdict x.loader.modules e'.target).toOption) := by
  induction h with
  | refl => exact ⟨e, he, .inl ⟨hu, hn⟩⟩
  | tail hmoves hm ih =>
    obtain ⟨d, hd, hcases⟩ := ih
    have hmodules := (Tally.of_moves hroom hmoves).modules
    -- The entry that moves is unresolved, which a settled one is not.
    have hnone (hdu : d.state = .unresolved) : d.function = none := by
      obtain ⟨-, hdn⟩ | ⟨hs, -⟩ := hcases
      · exact hdn
      · rw [hdu] at hs
        cases hv : Catalog.verdict x.loader.modules d.target <;> simp [hv, State.ofVerdict] at hs
    cases hm with
    | configure _ _ target unresolved =>
      rcases getElem?_replace rfl hd _ with hsame | ⟨rfl, hnew⟩
      · exact ⟨d, hsame, hcases⟩
      · exact ⟨_, hnew, .inl ⟨unresolved, hnone unresolved⟩⟩
    | @settle _ _ _ c unresolved =>
      rcases getElem?_replace rfl hd _ with hsame | ⟨rfl, hnew⟩
      · exact ⟨d, hsame, hcases⟩
      · have hc : c.modules = x.loader.modules := hmodules
        obtain ⟨hs, hf, -⟩ := Entry.get_eq_verdict (hc ▸ hroom) unresolved rfl
        rw [Entry.function_get hnone] at hf
        rw [hc] at hs hf
        rw [← (d.key_get c).2] at hs hf
        exact ⟨_, hnew, .inr ⟨hs, hf⟩⟩

/-! ### Runs of resolutions -/

/-- An operation does nothing but resolve. -/
def Operation.Resolves : Operation → Prop
  | .get _ | .isOverridden _ | .dispatch _ _ | .dispatchOrDefault _ | .resolveAll | .info => True
  | _ => False

/-- An operation asks the entry at an index for its function. -/
def Operation.Asks (i : Nat) : Operation → Prop
  | .get j | .isOverridden j | .dispatch _ j | .dispatchOrDefault j => j = i
  | .resolveAll | .info => True
  | _ => False

namespace Host

variable {h : Host (Catalog φ) φ} {i : Nat} {e : Entry φ}

theorem entryAt_get (he : h.entryAt i = some e) (j : Nat) :
    (h.get j).host.entryAt i = some (if j = i then (e.get h.loader).entry else e) := by
  have he' : h.registry.entries[i]? = some e := he
  obtain ⟨hi, -⟩ := List.getElem?_eq_some_iff.mp he'
  by_cases hji : j = i
  · subst hji
    simp only [Host.get, he', entryAt, List.getElem?_set_self hi, if_true]
  · rw [Host.get, if_neg hji]
    cases h.registry.entries[j]? with
    | none => exact he
    | some d => simp only [entryAt, List.getElem?_set_ne hji, he']

theorem not_disposes_of_resolves {op : Operation} (hop : op.Resolves) : ¬h.Disposes op := by
  cases op <;> first | exact id | exact hop.elim

theorem moves_after {ops : List Operation} (hops : ∀ op ∈ ops, op.Resolves) :
    Moves h.holdings (h.after ops).holdings := by
  induction ops generalizing h with
  | nil => exact .refl
  | cons op ops ih =>
    rw [List.forall_mem_cons] at hops
    exact (h.moves_perform (not_disposes_of_resolves hops.1)).trans (ih hops.2)

/-- **One resolution** settles the entries that it asks, over the modules that are listed, and keeps
the others. -/
theorem exists_asked {op : Operation} (hop : op.Resolves)
    (hroom : h.loader.modules.length < Catalog.slots) (he : h.entryAt i = some e) :
    (op.Asks i → ∃ c : Catalog φ, c.modules = h.loader.modules ∧
        (h.perform op).host.entryAt i = some (e.get c).entry) ∧
      (¬op.Asks i → (h.perform op).host.entryAt i = some e) := by
  have hone (j : Nat) :
      (j = i → ∃ c : Catalog φ, c.modules = h.loader.modules ∧
          (h.get j).host.entryAt i = some (e.get c).entry) ∧
        (¬j = i → (h.get j).host.entryAt i = some e) := by
    rw [entryAt_get he]
    exact ⟨fun hji ↦ ⟨h.loader, rfl, by rw [if_pos hji]⟩, fun hji ↦ by rw [if_neg hji]⟩
  have hall : ∃ c : Catalog φ, c.modules = h.loader.modules ∧
      h.resolveAll.host.entryAt i = some (e.get c).entry :=
    exists_getElem?_getAll (P := fun c : Catalog φ ↦ c.modules = h.loader.modules)
      (fun d c hc ↦ (d.modules_get (hc ▸ hroom)).trans hc) rfl he
  cases op with
  | get j => exact hone j
  | isOverridden j => exact hone j
  | dispatch policy j => exact hone j
  | dispatchOrDefault j => exact hone j
  | resolveAll => exact ⟨fun _ ↦ hall, fun hn ↦ absurd trivial hn⟩
  | info => exact ⟨fun _ ↦ hall, fun hn ↦ absurd trivial hn⟩
  | _ => exact hop.elim

/-- No operation changes what is listed. -/
theorem modules_perform (hroom : h.loader.modules.length < Catalog.slots) (op : Operation) :
    (h.perform op).host.loader.modules = h.loader.modules := by
  by_cases hd : h.Disposes op
  · have hloader := congrArg Holdings.loader (h.holdings_perform_of_disposes hd)
    rw [show (h.perform op).host.loader = _ from hloader, holdings, loader_dispose]
    exact List.foldlRecOn _ _ (motive := fun c : Catalog φ ↦ c.modules = h.loader.modules) rfl
      fun c hc handle _ ↦ hc
  · exact (Tally.of_moves hroom (h.moves_perform hd)).modules

theorem modules_after (hroom : h.loader.modules.length < Catalog.slots) (ops : List Operation) :
    (h.after ops).loader.modules = h.loader.modules := by
  induction ops generalizing h with
  | nil => rfl
  | cons op ops ih =>
    have hmodules := h.modules_perform hroom op
    exact (ih (by rwa [hmodules])).trans hmodules

/-- **A run of resolutions** settles the entries that it asks to their outcomes, and keeps the
others. -/
theorem exists_asked_after {ops : List Operation} (hops : ∀ op ∈ ops, op.Resolves)
    (hroom : h.loader.modules.length < Catalog.slots)
    (hn : e.state = .unresolved → e.function = none) (he : h.entryAt i = some e) :
    ((∃ op ∈ ops, op.Asks i) → ∃ e', (h.after ops).entryAt i = some e' ∧
        e'.view = e.outcome h.loader.modules) ∧
      (¬(∃ op ∈ ops, op.Asks i) → (h.after ops).entryAt i = some e) := by
  induction ops generalizing h e with
  | nil => exact ⟨fun ⟨op, hop, _⟩ ↦ absurd hop (by simp), fun _ ↦ he⟩
  | cons op ops ih =>
    rw [List.forall_mem_cons] at hops
    have hmodules := h.modules_perform hroom op
    obtain ⟨hasked, hkept⟩ := exists_asked hops.1 hroom he
    rw [after_cons, List.exists_mem_cons_iff, ← hmodules]
    by_cases hask : op.Asks i
    · obtain ⟨c, hc, he'⟩ := hasked hask
      have hroom' : c.modules.length < Catalog.slots := hc ▸ hroom
      have hn' : (e.get c).entry.state = .unresolved → (e.get c).entry.function = none := by
        intro hu
        have ht := e.isTerminal_get c
        simp [hu, State.isTerminal] at ht
      obtain ⟨hagain, hnever⟩ := ih hops.2 (by rwa [hmodules]) hn' he'
      rw [hmodules, ← hc, Entry.outcome_get hroom' hn] at hagain
      refine ⟨fun _ ↦ ?_, fun h ↦ absurd (.inl hask) h⟩
      rw [hmodules, ← hc]
      by_cases hlater : ∃ op ∈ ops, op.Asks i
      · exact hagain hlater
      · exact ⟨_, hnever hlater, Entry.get_eq_outcome hroom' hn⟩
    · obtain ⟨hagain, hnever⟩ := ih hops.2 (by rwa [hmodules]) hn (hkept hask)
      exact ⟨fun h ↦ hagain (h.resolve_left hask), fun h ↦ hnever fun hl ↦ h (.inr hl)⟩

/-- An operation that settles an entry does so by the verdict on its target. -/
theorem classified_perform (hroom : h.loader.modules.length < Catalog.slots)
    (he : h.entryAt i = some e) (hu : e.state = .unresolved) (hn : e.function = none)
    {op : Operation} {e' : Entry φ} (he' : (h.perform op).host.entryAt i = some e')
    (ht : e'.state.isTerminal = true) :
    e'.state = .ofVerdict (Catalog.verdict h.loader.modules e'.target) ∧
      e'.function = (Catalog.verdict h.loader.modules e'.target).toOption := by
  by_cases hd : h.Disposes op
  · rw [entryAt_perform_of_disposes hd, he] at he'
    obtain rfl := Option.some.inj he'
    simp [hu, State.isTerminal] at ht
  · obtain ⟨d, hget, ⟨hdu, -⟩ | hclassified⟩ :=
      (h.moves_perform hd).exists_classified hroom he hu hn
    · obtain rfl := Option.some.inj (hget.symm.trans he')
      simp [hdu, State.isTerminal] at ht
    · obtain rfl := Option.some.inj (hget.symm.trans he')
      exact hclassified

/-- A run of resolutions has entries where the host had some, each of them as the run found it or
settled to its outcome. -/
theorem views_after {ops : List Operation} (hops : ∀ op ∈ ops, op.Resolves)
    (hroom : h.loader.modules.length < Catalog.slots)
    (hn : ∀ i e, h.entryAt i = some e → e.state = .unresolved → e.function = none) (i : Nat)
    [Decidable (∃ op ∈ ops, op.Asks i)] :
    ((h.after ops).entryAt i).map Entry.view =
      (h.entryAt i).map fun e ↦
        if ∃ op ∈ ops, op.Asks i then e.outcome h.loader.modules else e.view := by
  cases he : h.entryAt i with
  | none =>
    have hlength := (moves_after (h := h) hops).length_eq
    have hnone : (h.after ops).entryAt i = none := by
      rw [entryAt, List.getElem?_eq_none_iff] at he ⊢
      exact hlength ▸ he
    rw [hnone]
    rfl
  | some e =>
    obtain ⟨hasked, hkept⟩ := exists_asked_after hops hroom (hn i e he) he
    by_cases hask : ∃ op ∈ ops, op.Asks i
    · obtain ⟨e', he', hview⟩ := hasked hask
      rw [he', Option.map_some, Option.map_some, if_pos hask]
      exact congrArg some hview
    · rw [hkept hask, Option.map_some, Option.map_some, if_neg hask]

/-- **Two runs of resolutions that ask the same entries end alike.** -/
theorem runs_agree (hroom : h.loader.modules.length < Catalog.slots)
    (hn : ∀ i e, h.entryAt i = some e → e.state = .unresolved → e.function = none)
    {ops ops' : List Operation} (hops : ∀ op ∈ ops, op.Resolves) (hops' : ∀ op ∈ ops', op.Resolves)
    (hasked : ∀ i < h.registry.entries.length,
      (∃ op ∈ ops, op.Asks i) ↔ ∃ op ∈ ops', op.Asks i) :
    (h.after ops).registry.entries.map Entry.view =
        (h.after ops').registry.entries.map Entry.view ∧
      (h.after ops).loader = (h.after ops').loader := by
  classical
  have hviews : (h.after ops).registry.entries.map Entry.view =
      (h.after ops').registry.entries.map Entry.view := by
    refine List.ext_getElem? fun i ↦ ?_
    rw [List.getElem?_map, List.getElem?_map]
    have hrun := views_after hops hroom hn i
    have hrun' := views_after hops' hroom hn i
    refine hrun.trans (Eq.trans ?_ hrun'.symm)
    cases he : h.entryAt i with
    | none => rfl
    | some e =>
      obtain ⟨hi, -⟩ := List.getElem?_eq_some_iff.mp he
      simp only [hasked i hi]
  exact ⟨hviews, (Tally.of_moves hroom (moves_after hops)).loader_eq
    (Tally.of_moves hroom (moves_after hops')) hviews⟩

end Host

/-- **Resolution computes a fixed classification, in any order.**

In every run over a catalog, asking an unresolved entry for its function settles it with the verdict
on its target, and so does every other operation that settles it. Where the names alone decide, the
catalog is not asked. And two continuations of a run that do nothing but resolve, and ask the same
entries, leave all entries with the same states and functions and the catalog with the same
counts. -/
theorem resolution_classified (c : Catalog φ) (hroom : c.modules.length < Catalog.slots)
    (keys : List String) (policy : NamePolicy) (ops : List Operation) :
    let now : Host (Catalog φ) φ := (Host.fresh keys c policy).after ops
    (∀ i e, now.entryAt i = some e → e.state = .unresolved →
        let v := Catalog.verdict c.modules e.target
        (∃ e', (now.get i).host.entryAt i = some e' ∧ e'.target = e.target ∧
          e'.state = .ofVerdict v ∧ e'.function = v.toOption) ∧
        (now.get i).result = v.toOption ∧
        (v = .error .noConfig ∨ v = .error .nameTooLong →
          (now.get i).host.loader = now.loader) ∧
        ∀ op e', (now.perform op).host.entryAt i = some e' → e'.state.isTerminal = true →
          e'.state = .ofVerdict (Catalog.verdict c.modules e'.target) ∧
            e'.function = (Catalog.verdict c.modules e'.target).toOption) ∧
      ∀ ops₁ ops₂ : List Operation, (∀ op ∈ ops₁, op.Resolves) → (∀ op ∈ ops₂, op.Resolves) →
        (∀ i < now.registry.entries.length, (∃ op ∈ ops₁, op.Asks i) ↔ ∃ op ∈ ops₂, op.Asks i) →
        (now.after ops₁).registry.entries.map Entry.view =
            (now.after ops₂).registry.entries.map Entry.view ∧
          (now.after ops₁).loader = (now.after ops₂).loader := by
  intro now
  have hmodules : now.loader.modules = c.modules := Host.modules_after hroom ops
  have hroom' : now.loader.modules.length < Catalog.slots := hmodules ▸ hroom
  have hn (i : Nat) (e : Entry φ) (he : now.entryAt i = some e) (hu : e.state = .unresolved) :
      e.function = none :=
    ((Host.consistent_after_fresh ops he).1.empty (by simp [hu])).2
  refine ⟨fun i e he hu ↦ ?_, fun ops₁ ops₂ h₁ h₂ hasked ↦ Host.runs_agree hroom' hn h₁ h₂ hasked⟩
  have hget : (now.get i).result = (e.get now.loader).function ∧
      (now.get i).host.loader = (e.get now.loader).loader := by
    have he' : now.registry.entries[i]? = some e := he
    simp only [Host.get, he', and_self]
  obtain ⟨hstate, hfunction, hloader⟩ :=
    Entry.get_eq_verdict hroom' hu (congrArg (Catalog.verdict · e.target) hmodules)
  have hentry := Host.entryAt_get he i
  rw [if_pos rfl] at hentry
  refine ⟨⟨_, hentry, (e.key_get _).2, hstate, ?_⟩, hget.1.trans hfunction, ?_, ?_⟩
  · exact (Entry.function_get (hn i e he) now.loader).symm.trans hfunction
  · rintro (hv | hv) <;> rw [hget.2, hloader, hv] <;> rfl
  · intro op e' he' ht
    exact hmodules ▸ Host.classified_perform hroom' he hu (hn i e he hu) he' ht

/-- One of two functions is exported. Asked for in either order, and one of them twice, both end
alike. -/
theorem resolution_classified_orders :
    let ops : List Operation := [.configure 0 ⟨"libsum", "sum"⟩, .configure 1 ⟨"libsum", "product"⟩]
    let now : Host (Catalog Nat) Nat :=
      (Host.fresh ["sum", "product"] Catalog.single .truncate).after ops
    let ops₁ : List Operation := [.get 1, .get 0, .isOverridden 1]
    let ops₂ : List Operation := [.dispatch .failOpen 0, .get 1]
    Catalog.single.modules.length < Catalog.slots ∧
      now.entryAt 1 = some { key := "product", target := ⟨"libsum", "product"⟩ } ∧
      (now.get 0).result = some 7 ∧ (now.get 1).result = none ∧
      (∀ i < 2, (∃ op ∈ ops₁, op.Asks i) ↔ ∃ op ∈ ops₂, op.Asks i) ∧
      (now.after ops₁).registry.entries.map Entry.view =
        (now.after ops₂).registry.entries.map Entry.view ∧
      (now.after ops₁).loader = (now.after ops₂).loader := by
  intro ops now ops₁ ops₂
  have hroom : Catalog.single.modules.length < Catalog.slots := by decide
  obtain ⟨hverdict, hagree⟩ :=
    resolution_classified Catalog.single hroom ["sum", "product"] .truncate ops
  have hsum : now.entryAt 0 = some { key := "sum", target := ⟨"libsum", "sum"⟩ } := rfl
  have hproduct : now.entryAt 1 = some { key := "product", target := ⟨"libsum", "product"⟩ } := rfl
  have hasked : ∀ i < 2, (∃ op ∈ ops₁, op.Asks i) ↔ ∃ op ∈ ops₂, op.Asks i := by
    simp only [ops₁, ops₂, List.mem_cons, List.not_mem_nil, exists_eq_or_imp, Operation.Asks]
    omega
  obtain ⟨hviews, hloader⟩ := hagree ops₁ ops₂ (by simp [ops₁, Operation.Resolves])
    (by simp [ops₂, Operation.Resolves]) hasked
  exact ⟨hroom, hproduct, (hverdict 0 _ hsum rfl).2.1.trans (by decide),
    (hverdict 1 _ hproduct rfl).2.1.trans (by decide), hasked, hviews, hloader⟩

end Interpose
