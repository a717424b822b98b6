import Interpose.Proofs.Handles
import Interpose.Proofs.Ledger
import Interpose.Proofs.Moves

/-!
# The conservation of handles

A host over a catalog keeps its accounts in order: a handle that was given out is held by one entry,
or was given back once, and what the catalog counts is what the states of the entries add up to.
`handles_conserved` states this for every run of a host whose entries were just created.

The catalog itself only counts, so the argument is made over a ledger, which writes down every
handle, and is carried over by `Ledger.run_base`. The invariant is `Balanced`. It is kept by each of
the two moves (`Balanced.move`) and by a release of all handles (`Balanced.dispose`), and therefore
by runs (`Balanced.after`). How an attempt to bind a target ends is said once, in `Attempt`.
-/

namespace Interpose

variable {φ : Type}

/-! ### Entries by state -/

/-- How many entries are in a state. -/
def inState (s : State) (es : List (Entry φ)) : Nat := es.countP (·.state = s)

@[simp] theorem inState_append (s : State) (es ds : List (Entry φ)) :
    inState s (es ++ ds) = inState s es + inState s ds := List.countP_append

@[simp] theorem inState_cons (s : State) (e : Entry φ) (es : List (Entry φ)) :
    inState s (e :: es) = inState s es + if e.state = s then 1 else 0 := by
  simp [inState, List.countP_cons]

@[simp] theorem inState_release (s : State) (es : List (Entry φ)) :
    inState s (es.map fun e ↦ e.release.2) = inState s es := by
  rw [inState, List.countP_map]
  rfl

@[simp] theorem handlesOf_append (es ds : List (Entry φ)) :
    handlesOf (es ++ ds) = handlesOf es ++ handlesOf ds := List.filterMap_append

@[simp] theorem handlesOf_cons (e : Entry φ) (es : List (Entry φ)) :
    handlesOf (e :: es) = e.handle.toList ++ handlesOf es := by
  cases h : e.handle <;> simp [handlesOf, h]

@[simp] theorem handlesOf_release (es : List (Entry φ)) :
    handlesOf (es.map fun e ↦ e.release.2) = [] := by
  simp [handlesOf, List.filterMap_map, Entry.release]

theorem length_handlesOf (es : List (Entry φ)) :
    (handlesOf es).length = es.countP (·.isBound) := List.length_filterMap_eq_countP

theorem count_handlesOf (handle : Handle) (es : List (Entry φ)) :
    (handlesOf es).count handle = es.countP (·.handle = some handle) := by
  rw [handlesOf, List.count_filterMap]
  exact List.countP_congr fun e _ ↦ by simp

/-! ### Attempts to bind -/

/-- How an attempt to bind a target ends, and what it leaves in the books. -/
inductive Attempt (l : Ledger (Catalog φ)) :
    Except BindError (Binding φ) → Ledger (Catalog φ) → Prop
  /-- The names are unusable, and the loader is not asked. -/
  | refused {reason : BindError} (hn : reason = .noConfig ∨ reason = .nameTooLong) :
      Attempt l (.error reason) l
  /-- There is no such module. -/
  | missing : Attempt l (.error .moduleNotFound) { l with base.opens := l.base.opens + 1 }
  /-- There is no such symbol, and the handle is given back at once. -/
  | returned {i : Nat} {handle : Handle} (hi : i < l.base.modules.length)
      (hword : handle.word = Catalog.wordOf (l.base.opened + 1) i) :
      Attempt l (.error .symbolNotFound)
        { base :=
            { l.base with
              opens := l.base.opens + 1
              opened := l.base.opened + 1
              resolves := l.base.resolves + 1
              closes := l.base.closes + 1 }
          given := l.given ++ [handle]
          returned := l.returned ++ [handle] }
  /-- The target is bound, and the handle is kept. -/
  | bound {i : Nat} {b : Binding φ} (hi : i < l.base.modules.length)
      (hword : b.handle.word = Catalog.wordOf (l.base.opened + 1) i) :
      Attempt l (.ok b)
        { base :=
            { l.base with
              opens := l.base.opens + 1
              opened := l.base.opened + 1
              resolves := l.base.resolves + 1 }
          given := l.given ++ [b.handle]
          returned := l.returned }

/-- Binding is an attempt. -/
theorem attempt_bind (t : Target) {l : Ledger (Catalog φ)}
    (hroom : l.base.modules.length < Catalog.slots) :
    Attempt l (t.bind l).1 (t.bind l).2 := by
  rw [Target.bind]
  split
  · exact .refused (.inl rfl)
  rcases hfile : moduleFileName t.library with reason | file
  · obtain ⟨-, rfl⟩ := composeFileName_eq_error_iff.mp hfile
    exact .refused (.inr rfl)
  dsimp only
  rcases Catalog.openModule_cases hroom file with hopen | ⟨i, handle, hi, hword, hopen⟩
  · have hopen' : Loader.openModule file l =
        (.error .moduleNotFound, { l with base.opens := l.base.opens + 1 }) :=
      Ledger.openModule_of_error hopen
    rw [hopen']
    exact .missing
  · have hopen' : Loader.openModule file l =
        (.ok handle,
          { l with
            base := { l.base with opens := l.base.opens + 1, opened := l.base.opened + 1 }
            given := l.given ++ [handle] }) :=
      Ledger.openModule_of_ok hopen
    rw [hopen']
    dsimp only
    generalize hl' : ({ l with
      base := { l.base with opens := l.base.opens + 1, opened := l.base.opened + 1 }
      given := l.given ++ [handle] } : Ledger (Catalog φ)) = l'
    have hres : Loader.resolve handle t.symbol l' =
        ((l'.base.resolve handle t.symbol).1,
          { l' with base := (l'.base.resolve handle t.symbol).2 }) := rfl
    rcases Catalog.resolve_cases l'.base handle t.symbol with hr | ⟨function, hr⟩
    · rw [hres, hr, ← hl']
      exact .returned hi hword
    · rw [hres, hr, ← hl']
      exact .bound (b := ⟨handle, function, file⟩) hi hword

/-! ### Balance -/

/-- The books are in order, after so many handles were released. -/
structure Balanced (x : Holdings (Ledger (Catalog φ)) φ) (released : Nat) : Prop where
  room : x.loader.base.modules.length < Catalog.slots
  unheld : ∀ e ∈ x.entries, e.state = .unresolved → e.handle = none
  given : x.loader.given.Perm (handlesOf x.entries ++ x.loader.returned)
  numbered : Catalog.Numbered x.loader.given
  length_given : x.loader.given.length = x.loader.base.opened
  length_returned : x.loader.returned.length = x.loader.base.closes
  opened : x.loader.base.opened =
    inState .bound x.entries + inState (.failed .symbolNotFound) x.entries
  resolves : x.loader.base.resolves = x.loader.base.opened
  opens : x.loader.base.opens =
    x.loader.base.opened + inState (.failed .moduleNotFound) x.entries
  closes : x.loader.base.closes = inState (.failed .symbolNotFound) x.entries + released

namespace Balanced

/-- Entries that were just created are balanced with an unused catalog. -/
theorem fresh {modules : List (Catalog.Module φ)} (hm : modules.length < Catalog.slots)
    (keys : List String) :
    Balanced ⟨(Registry.ofKeys keys).entries, { base := { modules } }⟩ 0 where
  room := hm
  unheld e he _ := by
    obtain ⟨key, -, rfl⟩ := List.mem_map.mp he
    rfl
  given := by simp [Registry.ofKeys, handlesOf, List.filterMap_map]
  numbered := .nil
  length_given := rfl
  length_returned := rfl
  opened := by simp [Registry.ofKeys, inState, List.countP_map, Function.comp_def]
  resolves := rfl
  opens := by simp [Registry.ofKeys, inState, List.countP_map, Function.comp_def]
  closes := by simp [Registry.ofKeys, inState, List.countP_map, Function.comp_def]

variable {x y : Holdings (Ledger (Catalog φ)) φ} {released : Nat}

/-- The handle of the next opening leaves the given ones numbered. -/
theorem numbered_concat (h : Balanced x released) {i : Nat} {handle : Handle}
    (hi : i < x.loader.base.modules.length)
    (hword : handle.word = Catalog.wordOf (x.loader.base.opened + 1) i) :
    Catalog.Numbered (x.loader.given ++ [handle]) :=
  h.numbered.concat (Nat.lt_of_le_of_lt hi h.room) (by rw [hword, h.length_given])

/-- The other entries stay unheld when one is replaced. -/
theorem unheld_replace {before after : List (Entry φ)} {e e' : Entry φ}
    {l : Ledger (Catalog φ)} (h : Balanced ⟨before ++ e :: after, l⟩ released)
    (he' : e'.state = .unresolved → e'.handle = none) :
    ∀ d ∈ before ++ e' :: after, d.state = .unresolved → d.handle = none := by
  intro d hd
  have hmem : d ∈ before ++ e :: after ∨ d = e' := by
    simp only [List.mem_append, List.mem_cons] at hd ⊢
    tauto
  rcases hmem with hmem | rfl
  · exact h.unheld d hmem
  · exact he'

/-- **Settling keeps the balance**, however the attempt ends. -/
theorem settle {before after : List (Entry φ)} {e : Entry φ} {l : Ledger (Catalog φ)}
    (h : Balanced ⟨before ++ e :: after, l⟩ released) (hu : e.state = .unresolved) :
    Balanced ⟨before ++ (e.get l).entry :: after, (e.get l).loader⟩ released := by
  have hnone : e.handle = none := h.unheld e (by simp) hu
  have hattempt := attempt_bind e.target h.room
  rcases hb : e.target.bind l with ⟨outcome, l'⟩
  rw [hb] at hattempt
  have hheld := h.given
  have hopened := h.opened
  have hopens := h.opens
  have hcloses := h.closes
  -- An unresolved entry holds nothing and counts for nothing.
  simp only [handlesOf_append, handlesOf_cons, hnone, inState_append, inState_cons, hu,
    reduceCtorEq, if_false, Nat.add_zero, Option.toList_none, List.nil_append]
    at hheld hopened hopens hcloses
  cases hattempt with
  | @refused reason hn =>
    rw [Entry.get_of_bind_error hu hb]
    have hs : reason ≠ .symbolNotFound ∧ reason ≠ .moduleNotFound := by
      rcases hn with rfl | rfl <;> decide
    refine ⟨h.room, h.unheld_replace nofun, ?_, h.numbered, h.length_given, h.length_returned, ?_,
      h.resolves, ?_, ?_⟩
    · simpa [Entry.fail, hnone] using hheld
    · simpa [Entry.fail, hs] using hopened
    · simpa [Entry.fail, hs] using hopens
    · simpa [Entry.fail, hs] using hcloses
  | missing =>
    rw [Entry.get_of_bind_error hu hb]
    refine ⟨h.room, h.unheld_replace nofun, ?_, h.numbered, h.length_given, h.length_returned, ?_,
      h.resolves, ?_, ?_⟩
    · simpa [Entry.fail, hnone] using hheld
    · simpa [Entry.fail] using hopened
    · simp [Entry.fail, hopens]
      omega
    · simpa [Entry.fail] using hcloses
  | @returned i handle hi hword =>
    rw [Entry.get_of_bind_error hu hb]
    refine ⟨h.room, h.unheld_replace nofun, ?_, h.numbered_concat hi hword, ?_, ?_, ?_, ?_, ?_, ?_⟩
    · simpa [Entry.fail, hnone] using hheld.append_right [handle]
    · rw [List.length_append]
      exact congrArg (· + 1) h.length_given
    · rw [List.length_append]
      exact congrArg (· + 1) h.length_returned
    · simp [Entry.fail, hopened]
      omega
    · exact congrArg (· + 1) h.resolves
    · simp [Entry.fail, hopens]
      omega
    · simp [Entry.fail, hcloses]
      omega
  | @bound i b hi hword =>
    rw [Entry.get_of_bind_ok hu hb]
    refine ⟨h.room, h.unheld_replace nofun, ?_, h.numbered_concat hi hword, ?_, h.length_returned,
      ?_, ?_, ?_, ?_⟩
    · -- The new handle stands last among the given ones, and in its place among the held ones.
      have hnew : (b.handle :: l.given).Perm
          (handlesOf before ++ b.handle :: (handlesOf after ++ l.returned)) := by
        rw [List.append_assoc] at hheld
        exact (hheld.cons b.handle).trans List.perm_middle.symm
      simpa [Entry.bindTo] using (List.perm_append_singleton ..).trans hnew
    · rw [List.length_append]
      exact congrArg (· + 1) h.length_given
    · simp [Entry.bindTo, hopened]
      omega
    · exact congrArg (· + 1) h.resolves
    · simp [Entry.bindTo, hopens]
      omega
    · simpa [Entry.bindTo] using hcloses

/-- **A move keeps the balance.** -/
theorem move (h : Balanced x released) (hm : Move x y) : Balanced y released := by
  cases hm with
  | @configure before after e l target unresolved =>
    refine ⟨h.room, h.unheld_replace fun _ ↦ h.unheld e (by simp) unresolved, ?_, h.numbered,
      h.length_given, h.length_returned, ?_, h.resolves, ?_, ?_⟩
    · simpa using h.given
    · simpa using h.opened
    · simpa using h.opens
    · simpa using h.closes
  | settle before after unresolved => exact h.settle unresolved

theorem moves (h : Balanced x released) (hm : Moves x y) : Balanced y released := by
  induction hm with
  | refl => exact h
  | tail _ hmove ih => exact ih.move hmove

end Balanced

/-- Closing handles in order writes them down in order. -/
theorem Ledger.foldl_close (handles : List Handle) (l : Ledger (Catalog φ)) :
    handles.foldl (fun l handle ↦ Loader.close handle l) l =
      { l with
        base.closes := l.base.closes + handles.length
        returned := l.returned ++ handles } := by
  induction handles generalizing l with
  | nil => simp
  | cons handle handles ih =>
    rw [List.foldl_cons, ih]
    simp only [Loader.close, Ledger.close, Catalog.close, List.length_cons, List.append_assoc,
      List.singleton_append, Ledger.mk.injEq, Catalog.mk.injEq, true_and, and_true]
    omega

/-- What a release of all handles leaves. -/
theorem Host.holdings_dispose (h : Host (Ledger (Catalog φ)) φ) :
    h.dispose.host.holdings =
      ⟨h.registry.entries.map fun e ↦ e.release.2,
        { h.loader with
          base.closes := h.loader.base.closes + (handlesOf h.registry.entries).length
          returned := h.loader.returned ++ handlesOf h.registry.entries }⟩ := by
  rw [holdings, entries_dispose, loader_dispose, Ledger.foldl_close]

namespace Balanced

/-- **A release of all handles keeps the balance**, and is accounted for. -/
theorem release {es : List (Entry φ)} {l : Ledger (Catalog φ)} {released : Nat}
    (h : Balanced ⟨es, l⟩ released) :
    Balanced
      ⟨es.map fun e ↦ e.release.2,
        { l with
          base.closes := l.base.closes + (handlesOf es).length
          returned := l.returned ++ handlesOf es }⟩
      (released + (handlesOf es).length) := by
  have hcloses := h.closes
  refine ⟨h.room, ?_, ?_, h.numbered, h.length_given, ?_, ?_, h.resolves, ?_, ?_⟩
  · intro e he _
    obtain ⟨d, -, rfl⟩ := List.mem_map.mp he
    rfl
  · simpa using h.given.trans List.perm_append_comm
  · rw [List.length_append]
    exact congrArg (· + _) h.length_returned
  · simpa using h.opened
  · simpa using h.opens
  · simp only [inState_release] at hcloses ⊢
    omega

theorem dispose {h : Host (Ledger (Catalog φ)) φ} {released : Nat}
    (hbal : Balanced h.holdings released) :
    Balanced h.dispose.host.holdings (released + h.dispose.result) := by
  rw [Host.holdings_dispose, Host.result_dispose]
  exact hbal.release

end Balanced

/-! ### Runs -/

/-- How many handles an operation released, as its answer tells. -/
def Operation.released : Operation → Answer φ → Nat
  | .dispose, .count n => n
  | .unloadHook, .unhooked (some n) => n
  | _, _ => 0

/-- How many handles operations released, as their answers tell. -/
def releasedTotal (ops : List Operation) (answers : List (Answer φ)) : Nat :=
  (List.zipWith Operation.released ops answers).sum

namespace Host

variable {σ : Type} [Loader σ φ] (h : Host σ φ) {op : Operation}

/-- What an operation that releases all handles tells is what a release tells. -/
theorem released_of_disposes (hd : h.Disposes op) :
    op.released (h.perform op).result = h.dispose.result := by
  cases op with
  | dispose => rfl
  | unloadHook =>
    have hr : h.unloadHook = h.enterUnloaded.host.dispose.map some := by
      rw [unloadHook, if_pos (result_enterUnloaded_iff.mpr hd)]
    show Operation.released .unloadHook (Answer.unhooked h.unloadHook.result) = _
    rw [hr]
    rfl
  | _ => exact absurd hd id

/-- The other operations tell of no release. -/
theorem released_of_not_disposes (hd : ¬h.Disposes op) :
    op.released (h.perform op).result = 0 := by
  cases op with
  | dispose => exact absurd trivial hd
  | unloadHook =>
    have hr : h.unloadHook.result = none := by
      rw [unloadHook, if_neg (mt result_enterUnloaded_iff.mp hd)]
    show Operation.released .unloadHook (Answer.unhooked h.unloadHook.result) = 0
    rw [hr]
    rfl
  | _ => rfl

end Host

namespace Balanced

variable {h : Host (Ledger (Catalog φ)) φ} {released : Nat}

/-- **One step.** -/
theorem perform (hbal : Balanced h.holdings released) (op : Operation) :
    Balanced (h.perform op).host.holdings (released + op.released (h.perform op).result) := by
  by_cases hd : h.Disposes op
  · rw [h.released_of_disposes hd, h.holdings_perform_of_disposes hd]
    exact hbal.dispose
  · rw [h.released_of_not_disposes hd]
    exact hbal.moves (h.moves_perform hd)

/-- **A run.** -/
theorem after (hbal : Balanced h.holdings released) (ops : List Operation) :
    Balanced (h.after ops).holdings (released + releasedTotal ops (h.run ops).result) := by
  induction ops generalizing h released with
  | nil => exact hbal
  | cons op ops ih =>
    have hrest := ih (hbal.perform op)
    rw [Nat.add_assoc] at hrest
    exact hrest

end Balanced

namespace Balanced

variable {x : Holdings (Ledger (Catalog φ)) φ} {released : Nat}

/-- Each given handle is held once or was returned once, and not both. -/
theorem held_or_returned (h : Balanced x released) (hfit : x.loader.base.opened < 2 ^ 48)
    {handle : Handle} (hgiven : handle ∈ x.loader.given) :
    x.entries.countP (·.handle = some handle) = 1 ∧ x.loader.returned.count handle = 0 ∨
      x.entries.countP (·.handle = some handle) = 0 ∧ x.loader.returned.count handle = 1 := by
  have hnodup : x.loader.given.Nodup := h.numbered.nodup (by rw [h.length_given]; exact hfit)
  -- The given handles are the held and the returned ones, so the two counts add up to one.
  have hone : x.loader.given.count handle = 1 := List.count_eq_one_of_mem hnodup hgiven
  rw [h.given.count_eq, List.count_append, count_handlesOf] at hone
  omega

/-- What is live is what is held. -/
theorem live_eq (h : Balanced x released) :
    x.loader.base.live = x.entries.countP (·.isBound) := by
  have hlength := h.given.length_eq
  rw [List.length_append, h.length_given, h.length_returned, length_handlesOf] at hlength
  rw [Catalog.live]
  omega

end Balanced

/-- **Handles are conserved**, in every run of a host whose entries were just created, over a
catalog with room for its modules in a handle, as long as the numbers of the openings fit. Runs may
end anywhere, so this is about the moments after each operation.

Every handle that was given out is held by one entry and was not given back, or is held by none and
was given back once. The live handles are those that are held, and the other counts are counts of
entries by state together with what releases told. A release gives back what is held just before it,
tells how many these are, and leaves nothing to hold. -/
theorem handles_conserved (modules : List (Catalog.Module φ))
    (hroom : modules.length < Catalog.slots) (keys : List String) (policy : NamePolicy)
    (ops : List Operation)
    (hfit : ((Host.fresh keys { modules } policy : Host (Catalog φ) φ).after ops).loader.opened <
      2 ^ 48) :
    let start : Host (Catalog φ) φ := .fresh keys { modules } policy
    let kept : Host (Ledger (Catalog φ)) φ := .fresh keys { base := { modules } } policy
    let now := start.after ops
    let books := (kept.after ops).loader
    let es := now.registry.entries
    ((kept.after ops).mapLoader Ledger.base = now ∧
        (kept.run ops).result = (start.run ops).result) ∧
      (books.given.length = now.loader.opened ∧ books.returned.length = now.loader.closes) ∧
      (∀ handle ∈ books.given,
        es.countP (·.handle = some handle) = 1 ∧ books.returned.count handle = 0 ∨
          es.countP (·.handle = some handle) = 0 ∧ books.returned.count handle = 1) ∧
      now.loader.live = es.countP (·.isBound) ∧
      now.loader.resolves = now.loader.opened ∧
      now.loader.opened = inState .bound es + inState (.failed .symbolNotFound) es ∧
      now.loader.opens = now.loader.opened + inState (.failed .moduleNotFound) es ∧
      now.loader.closes =
        inState (.failed .symbolNotFound) es + releasedTotal ops (start.run ops).result ∧
      ((kept.after ops).dispose.host.loader.returned = books.returned ++ handlesOf es ∧
        now.dispose.result = (handlesOf es).length ∧
        now.dispose.host.loader.live = 0 ∧
        (∀ e ∈ now.dispose.host.registry.entries, e.isBound = false ∧ e.function = none) ∧
        now.dispose.host.dispose.result = 0) := by
  intro start kept now books es
  -- The run is the same with the ledger and without it.
  have hrun : start.run ops = (kept.run ops).mapLoader Ledger.base := Ledger.run_base kept ops
  have hnow : (kept.after ops).mapLoader Ledger.base = now := congrArg Step.host hrun.symm
  have hresult : (kept.run ops).result = (start.run ops).result := congrArg Step.result hrun.symm
  have hes : (kept.after ops).registry.entries = es := congrArg (·.registry.entries) hnow
  have hbase : books.base = now.loader := congrArg (·.loader) hnow
  have hbal : Balanced (kept.after ops).holdings (releasedTotal ops (start.run ops).result) := by
    have hafter := Balanced.after (h := kept) (.fresh hroom keys) ops
    rwa [hresult, Nat.zero_add] at hafter
  have hdispose : (kept.after ops).dispose.host.mapLoader Ledger.base = now.dispose.host := by
    rw [← hnow, Host.dispose_mapLoader Ledger.loaderMap_base]
    rfl
  have hlive : now.dispose.host.loader.live = 0 := by
    have hheld := hbal.dispose.live_eq
    rw [← length_handlesOf, Host.holdings, Host.entries_dispose, handlesOf_release] at hheld
    rw [← hdispose]
    exact hheld
  rw [← hbase, ← hes]
  refine ⟨⟨hnow, hresult⟩, ⟨hbal.length_given, hbal.length_returned⟩, ?_, hbal.live_eq,
    hbal.resolves, hbal.opened, hbal.opens, hbal.closes, ?_, ?_, hlive, ?_, ?_⟩
  · exact fun handle hgiven ↦ hbal.held_or_returned (hbase ▸ hfit) hgiven
  · exact congrArg (·.loader.returned) (kept.after ops).holdings_dispose
  · rw [hes]
    exact now.result_dispose
  · intro e he
    rw [Host.entries_dispose] at he
    obtain ⟨d, -, rfl⟩ := List.mem_map.mp he
    exact ⟨rfl, rfl⟩
  · rw [Host.result_dispose, Host.entries_dispose, handlesOf_release]
    rfl

set_option maxRecDepth 4000 in
/-- Of two openings of one module, one was in vain: its handle was given back, the other one is
live, and a release gives that one back too. -/
theorem handles_conserved_lost_symbol :
    let modules : List (Catalog.Module Nat) := [⟨"libsum.so", [("sum", some 7)]⟩]
    let start : Host (Catalog Nat) Nat := .fresh ["sum", "product"] { modules } .truncate
    let ops : List Operation :=
      [.configure 0 ⟨"libsum", "sum"⟩, .configure 1 ⟨"libsum", "product"⟩, .resolveAll]
    let now := start.after ops
    modules.length < Catalog.slots ∧ now.loader.opened < 2 ^ 48 ∧ now.loader.live = 1 ∧
      now.loader.closes = inState (.failed .symbolNotFound) now.registry.entries +
        releasedTotal ops (start.run ops).result ∧
      now.dispose.host.loader.live = 0 := by
  intro modules start ops now
  have hroom : modules.length < Catalog.slots := by decide
  have hfit : now.loader.opened < 2 ^ 48 := by
    have hopened : now.loader.opened = 2 := by
      simp only [now, ops, start, modules]
      rfl
    rw [hopened]
    decide
  have hheld : now.registry.entries.countP (·.isBound) = 1 := by
    simp only [now, ops, start, modules]
    rfl
  obtain ⟨-, -, -, hlive, -, -, -, hcloses, -, -, hdisposed, -⟩ :=
    handles_conserved modules hroom ["sum", "product"] .truncate ops
      (by simpa only [now, start] using hfit)
  refine ⟨hroom, hfit, hlive.trans hheld, ?_, ?_⟩
  · simpa only [now, start] using hcloses
  · simpa only [now, start] using hdisposed

end Interpose
