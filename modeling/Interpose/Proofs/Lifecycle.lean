import Interpose.Loader.Catalog
import Interpose.Proofs.Moves
import Mathlib.Data.List.Induction

/-!
# The life of an entry

An entry starts unresolved and empty. It leaves that state at most once, and from then on its state
and its target are fixed; its handle and its function stay together, until a release takes both away
for good. `entry_lifecycle` states this for every run of a host whose entries were just created.

The invariant is `Entry.WellBound`: handle and function are there exactly in the bound state. Moves
keep it, but a release breaks it, since it empties a bound entry without changing its state. What
survives a release is `Entry.Consistent`, and the case of the bound entry that is empty is accounted
for by the run (`Host.ReleasedBound`).

Publishing an outcome is guarded by an assertion that the entry was not settled before
(`Entry.publish?`). Asking an entry for its function never fails that assertion.
-/

namespace Interpose

variable {σ φ : Type}

/-! ### Cells -/

namespace Entry

/-- The entry holds neither a handle nor a function. -/
def Empty (e : Entry φ) : Prop := e.handle = none ∧ e.function = none

/-- The entry holds a handle and a function. -/
def Full (e : Entry φ) : Prop := e.handle.isSome ∧ e.function.isSome

/-- Handle and function are there exactly in the bound state. -/
structure WellBound (e : Entry φ) : Prop where
  full : e.state = .bound → e.Full
  empty : e.state ≠ .bound → e.Empty

/-- Handle and function are there together, and in no state but the bound one. -/
structure Consistent (e : Entry φ) : Prop where
  full_or_empty : e.Full ∨ e.Empty
  empty : e.state ≠ .bound → e.Empty

theorem empty_release (e : Entry φ) : e.release.2.Empty := ⟨rfl, rfl⟩

theorem Empty.not_full {e : Entry φ} (h : e.Empty) : ¬e.Full := by
  intro hf
  rw [Full, h.1] at hf
  exact absurd hf.1 (by simp)

theorem WellBound.consistent {e : Entry φ} (h : e.WellBound) : e.Consistent := by
  refine ⟨?_, h.empty⟩
  by_cases hb : e.state = .bound
  · exact .inl (h.full hb)
  · exact .inr (h.empty hb)

theorem Empty.wellBound {e : Entry φ} (h : e.Empty) (hu : e.state = .unresolved) : e.WellBound :=
  ⟨fun hb ↦ by simp [hu] at hb, fun _ ↦ h⟩

/-- Settling leaves handle and function exactly with a bound entry. -/
theorem Empty.wellBound_get [Loader σ φ] {e : Entry φ} (h : e.Empty) (hu : e.state = .unresolved)
    (loader : σ) : (e.get loader).entry.WellBound := by
  rcases hb : e.target.bind loader with ⟨reason | b, loader'⟩
  · rw [get_of_bind_error hu hb]
    exact ⟨nofun, fun _ ↦ h⟩
  · rw [get_of_bind_ok hu hb]
    exact ⟨fun _ ↦ ⟨rfl, rfl⟩, fun hs ↦ absurd rfl hs⟩

/-! ### Evolution -/

/-- What can become of an entry without a release: a settled one stays as it is, and an unresolved
one that is empty ends up well bound. -/
structure Evolves (e e' : Entry φ) : Prop where
  eq_of_isTerminal : e.state.isTerminal = true → e' = e
  wellBound : e.state = .unresolved → e.Empty → e'.WellBound

theorem Evolves.refl (e : Entry φ) : e.Evolves e :=
  ⟨fun _ ↦ rfl, fun hu he ↦ he.wellBound hu⟩

theorem Evolves.trans {a b c : Entry φ} (hab : a.Evolves b) (hbc : b.Evolves c) : a.Evolves c := by
  refine ⟨fun ht ↦ ?_, fun hu he ↦ ?_⟩
  · obtain rfl := hab.eq_of_isTerminal ht
    exact hbc.eq_of_isTerminal ht
  · have hb := hab.wellBound hu he
    cases ht : b.state.isTerminal with
    | true =>
      rw [hbc.eq_of_isTerminal ht]
      exact hb
    | false =>
      have hbu := State.isTerminal_eq_false_iff.mp ht
      exact hbc.wellBound hbu (hb.empty (by simp [hbu]))

/-- An unresolved entry may become anything that is well-bound, if it was empty. -/
theorem Evolves.of_unresolved {e e' : Entry φ} (hu : e.state = .unresolved)
    (h : e.Empty → e'.WellBound) : e.Evolves e' := by
  refine ⟨fun ht ↦ ?_, fun _ ↦ h⟩
  rw [hu] at ht
  exact absurd ht (by decide)

/-- What evolves from a consistent entry is the entry or is well-bound. -/
theorem Evolves.eq_or_wellBound {e e' : Entry φ} (h : e.Evolves e') (he : e.Consistent) :
    e' = e ∨ e'.WellBound := by
  cases ht : e.state.isTerminal with
  | true => exact .inl (h.eq_of_isTerminal ht)
  | false =>
    have hu : e.state = .unresolved := State.isTerminal_eq_false_iff.mp ht
    have hempty : e.Empty := he.empty (by simp [hu])
    exact .inr (h.wellBound hu hempty)

theorem Evolves.consistent {e e' : Entry φ} (h : e.Evolves e') (he : e.Consistent) :
    e'.Consistent := by
  obtain rfl | hw := h.eq_or_wellBound he
  · exact he
  · exact hw.consistent

/-- An entry that is empty although it is bound was so before. -/
theorem Evolves.eq_of_empty {e e' : Entry φ} (h : e.Evolves e') (he : e.Consistent)
    (hb : e'.state = .bound) (hempty : e'.Empty) : e' = e := by
  obtain heq | hw := h.eq_or_wellBound he
  · exact heq
  · exact absurd (hw.full hb) hempty.not_full

end Entry

/-- Moves let each entry evolve. -/
theorem Moves.exists_evolves [Loader σ φ] {x y : Holdings σ φ} (h : Moves x y) {i : Nat}
    {e : Entry φ} (he : x.entries[i]? = some e) :
    ∃ e', y.entries[i]? = some e' ∧ e.Evolves e' := by
  refine h.exists_entry Entry.Evolves.refl Entry.Evolves.trans ?_ ?_ he
  · intro e target hu
    exact .of_unresolved hu fun hempty ↦ Entry.Empty.wellBound hempty hu
  · intro e loader hu
    exact .of_unresolved hu fun hempty ↦ hempty.wellBound_get hu loader

/-! ### Publishing -/

namespace Entry

/-- The entry with an outcome published; nothing, if it was settled before. -/
def publish? (outcome : Except BindError (Binding φ)) (e : Entry φ) : Option (Entry φ) :=
  if e.state.isTerminal then none
  else
    match outcome with
    | .ok b => some (e.bindTo b.handle b.function)
    | .error reason => some (e.fail reason)

/-- `Entry.get` with the assertion that an outcome is published once; nothing, if that fails. -/
def getAsserting [Loader σ φ] (e : Entry φ) (loader : σ) : Option (Resolved σ φ) :=
  match e.settled? with
  | some function => some { function, entry := e, loader }
  | none =>
    let (outcome, loader) := e.target.bind loader
    -- The assertion stands between binding and everything that others can see.
    (e.publish? outcome).map fun entry ↦
      match outcome with
      | .ok b =>
        { function := some b.function
          entry
          loader
          event := some (.bound e.key b.file e.target.symbol) }
      | .error reason =>
        { function := none
          entry
          loader
          event := some (.bindFailed e.key e.target reason) }

/-- The assertion never fails. -/
theorem getAsserting_eq [Loader σ φ] (e : Entry φ) (loader : σ) :
    e.getAsserting loader = some (e.get loader) := by
  rw [getAsserting]
  cases ht : e.state.isTerminal with
  | true => simp [settled?, ht, get_of_isTerminal]
  | false =>
    have hu := State.isTerminal_eq_false_iff.mp ht
    rcases hb : e.target.bind loader with ⟨reason | b, loader'⟩
    · rw [get_of_bind_error hu hb]
      simp [settled?, publish?, ht]
    · rw [get_of_bind_ok hu hb]
      simp [settled?, publish?, ht]

end Entry

/-! ### Runs -/

namespace Host

/-- Some operation in a run releases all handles. -/
def DisposedBy [Loader σ φ] (h : Host σ φ) : List Operation → Prop
  | [] => False
  | op :: ops => h.Disposes op ∨ (h.perform op).host.DisposedBy ops

/-- Some operation in a run releases all handles while the entry at an index is bound. -/
def ReleasedBound [Loader σ φ] (h : Host σ φ) (i : Nat) (ops : List Operation) : Prop :=
  ∃ early op late, ops = early ++ op :: late ∧ (h.after early).Disposes op ∧
    ∃ e, (h.after early).entryAt i = some e ∧ e.state = .bound

/-- Every entry is at some index. -/
theorem exists_entryAt_of_mem {h : Host σ φ} {e : Entry φ} (he : e ∈ h.registry.entries) :
    ∃ i, h.entryAt i = some e := List.mem_iff_getElem?.mp he

section

variable [Loader σ φ] {h : Host σ φ} {i : Nat} {e : Entry φ}

theorem ReleasedBound.append {ops : List Operation} (hr : h.ReleasedBound i ops)
    (more : List Operation) : h.ReleasedBound i (ops ++ more) := by
  obtain ⟨early, op, late, rfl, hd, hb⟩ := hr
  exact ⟨early, op, late ++ more, by simp, hd, hb⟩

/-- No operation adds an entry or takes one away. -/
theorem length_perform (op : Operation) :
    (h.perform op).host.registry.entries.length = h.registry.entries.length := by
  by_cases hd : h.Disposes op
  · have hes := congrArg Holdings.entries (h.holdings_perform_of_disposes hd)
    rw [show (h.perform op).host.registry.entries = _ from hes, holdings, entries_dispose,
      List.length_map]
  · exact (h.moves_perform hd).length_eq

theorem length_after (h : Host σ φ) (ops : List Operation) :
    (h.after ops).registry.entries.length = h.registry.entries.length := by
  induction ops generalizing h with
  | nil => rfl
  | cons op ops ih => exact (ih (h.perform op).host).trans (length_perform op)

/-- An index without an entry stays so. -/
theorem entryAt_after_of_eq_none (he : h.entryAt i = none) (ops : List Operation) :
    (h.after ops).entryAt i = none := by
  rw [entryAt, List.getElem?_eq_none_iff] at he ⊢
  rwa [length_after]

theorem get_of_entryAt_eq_none (he : h.entryAt i = none) :
    h.get i = { result := none, host := h } := by
  have he' : h.registry.entries[i]? = none := he
  simp only [get, he']

/-- **One step**, from the entry before to the entry after it. -/
theorem exists_entryAt_perform (he : h.entryAt i = some e) (op : Operation) :
    ∃ e', (h.perform op).host.entryAt i = some e' ∧
      (h.Disposes op ∧ e' = e.release.2 ∨ ¬h.Disposes op ∧ e.Evolves e') := by
  by_cases hd : h.Disposes op
  · exact ⟨_, by rw [entryAt_perform_of_disposes hd, he]; rfl, .inl ⟨hd, rfl⟩⟩
  · obtain ⟨e', he', hev⟩ := (h.moves_perform hd).exists_evolves he
    exact ⟨e', he', .inr ⟨hd, hev⟩⟩

/-- **One step**, from the entry after to the entry before it. -/
theorem exists_entryAt_of_perform {op : Operation} {e' : Entry φ}
    (he' : (h.perform op).host.entryAt i = some e') :
    ∃ e, h.entryAt i = some e ∧
      (h.Disposes op ∧ e' = e.release.2 ∨ ¬h.Disposes op ∧ e.Evolves e') := by
  obtain ⟨hi, -⟩ := List.getElem?_eq_some_iff.mp he'
  rw [length_perform] at hi
  obtain ⟨d, hd, hturn⟩ := exists_entryAt_perform (List.getElem?_eq_getElem hi) op
  obtain rfl := Option.some.inj (hd.symm.trans he')
  exact ⟨_, List.getElem?_eq_getElem hi, hturn⟩

/-- No operation makes a consistent entry inconsistent. -/
theorem consistent_perform (hcons : ∀ e, h.entryAt i = some e → e.Consistent) (op : Operation) :
    ∀ e, (h.perform op).host.entryAt i = some e → e.Consistent := by
  intro e' he'
  obtain ⟨e, he, ⟨-, rfl⟩ | ⟨-, hev⟩⟩ := exists_entryAt_of_perform he'
  · exact ⟨.inr e.empty_release, fun _ ↦ e.empty_release⟩
  · exact hev.consistent (hcons e he)

/-- **The invariant of a run.** By induction on the run from its end: what empties a bound entry is
a release, and a bound entry that was empty before the last operation is covered by the earlier
ones. -/
theorem consistent_after_fresh {keys : List String} {loader : σ} {policy : NamePolicy}
    (ops : List Operation) (he : ((fresh keys loader policy).after ops).entryAt i = some e) :
    e.Consistent ∧ (e.state = .bound → e.Empty →
      (fresh keys loader policy : Host σ φ).ReleasedBound i ops) := by
  induction ops using List.reverseRecOn generalizing e with
  | nil =>
    have hmem : e ∈ (Registry.ofKeys keys : Registry φ).entries := List.mem_of_getElem? he
    obtain ⟨key, -, rfl⟩ := List.mem_map.mp hmem
    exact ⟨⟨.inr ⟨rfl, rfl⟩, fun _ ↦ ⟨rfl, rfl⟩⟩, nofun⟩
  | append_singleton ops op ih =>
    rw [after_append] at he
    obtain ⟨d, hd, hturn⟩ := exists_entryAt_of_perform he
    obtain ⟨hcons, hreleased⟩ := ih hd
    -- Only a release makes a bound entry empty; a move leaves the question to the run so far.
    rcases hturn with ⟨hdisposes, rfl⟩ | ⟨-, hev⟩
    · refine ⟨⟨.inr d.empty_release, fun _ ↦ d.empty_release⟩, fun hb _ ↦ ?_⟩
      exact ⟨ops, op, [], rfl, hdisposes, d, hd, hb⟩
    · refine ⟨hev.consistent hcons, fun hb hempty ↦ ?_⟩
      obtain rfl := hev.eq_of_empty hcons hb hempty
      exact (hreleased hb hempty).append [op]

/-- **A settled entry** is there unchanged until a release, and released ever after. -/
theorem entryAt_after_of_isTerminal (ht : e.state.isTerminal = true)
    (he : h.entryAt i = some e) (ops : List Operation) :
    (¬h.DisposedBy ops → (h.after ops).entryAt i = some e) ∧
      (h.DisposedBy ops → (h.after ops).entryAt i = some e.release.2) := by
  induction ops generalizing h e with
  | nil => exact ⟨fun _ ↦ he, False.elim⟩
  | cons op ops ih =>
    obtain ⟨d, hd, ⟨hdisposes, rfl⟩ | ⟨hkeeps, hev⟩⟩ := exists_entryAt_perform he op
    · -- A release keeps the state, so that what comes later finds a settled entry again.
      obtain ⟨hsame, hreleased⟩ := ih (e := e.release.2) ht hd
      refine ⟨fun hn ↦ absurd (.inl hdisposes) hn, fun _ ↦ ?_⟩
      by_cases hlater : (h.perform op).host.DisposedBy ops
      · exact hreleased hlater
      · exact hsame hlater
    · obtain rfl := hev.eq_of_isTerminal ht
      obtain ⟨hsame, hreleased⟩ := ih ht hd
      exact ⟨fun hn ↦ hsame fun hlater ↦ hn (.inr hlater),
        fun hdis ↦ hreleased (hdis.resolve_left hkeeps)⟩

/-- Asking for a function settles the entry and answers with what the entry then holds. -/
theorem exists_entryAt_get (hcons : e.Consistent) (he : h.entryAt i = some e) :
    ∃ e', (h.get i).host.entryAt i = some e' ∧ e'.state.isTerminal = true ∧
      (h.get i).result = e'.function := by
  obtain ⟨hi, -⟩ := List.getElem?_eq_some_iff.mp he
  have he' : h.registry.entries[i]? = some e := he
  have hn : e.state = .unresolved → e.function = none :=
    fun hu ↦ (hcons.empty (by simp [hu])).2
  refine ⟨(e.get h.loader).entry, ?_, e.isTerminal_get h.loader, ?_⟩
  · simp only [Host.get, he', entryAt, List.getElem?_set_self hi]
  · simp only [Host.get, he']
    exact Entry.function_get hn h.loader

/-- A settled entry answers with the function that it holds. -/
theorem result_get_of_isTerminal (ht : e.state.isTerminal = true) (he : h.entryAt i = some e) :
    (h.get i).result = e.function := by
  have he' : h.registry.entries[i]? = some e := he
  simp only [Host.get, he', Entry.get_of_isTerminal ht]

end

end Host

/-- **The life of an entry**, in every run of a host whose entries were just created.

An entry that is not bound is empty. A bound one is full, or empty, and then all handles were
released after it was bound. Asking for a function settles the entry and answers with what it holds
then. A settled entry stays as it is until a release, which takes handle and function away for good;
what it answers until then is its function, and nothing after that. No outcome is ever published for
an entry that is settled. -/
theorem entry_lifecycle [Loader σ φ] (keys : List String) (loader : σ) (policy : NamePolicy)
    (ops : List Operation) {i : Nat} {e : Entry φ}
    (he : ((Host.fresh keys loader policy).after ops).entryAt i = some e) :
    let start : Host σ φ := .fresh keys loader policy
    let now := start.after ops
    (e.state ≠ .bound → e.handle = none ∧ e.function = none) ∧
      (e.state = .bound →
        e.handle.isSome ∧ e.function.isSome ∨
          (e.handle = none ∧ e.function = none) ∧ start.ReleasedBound i ops) ∧
      (∃ e', (now.get i).host.entryAt i = some e' ∧ e'.state.isTerminal = true ∧
        (now.get i).result = e'.function) ∧
      (e.state.isTerminal = true → ∀ later : List Operation,
        (¬now.DisposedBy later →
          (start.after (ops ++ later)).entryAt i = some e ∧
            ((start.after (ops ++ later)).get i).result = e.function) ∧
        (now.DisposedBy later →
          (start.after (ops ++ later)).entryAt i =
              some { e with handle := none, function := none } ∧
            ((start.after (ops ++ later)).get i).result = none)) ∧
      ∀ loader' : σ, e.getAsserting loader' = some (e.get loader') := by
  intro start now
  obtain ⟨hcons, hreleased⟩ := Host.consistent_after_fresh ops he
  refine ⟨hcons.empty, fun hb ↦ ?_, Host.exists_entryAt_get hcons he, fun ht later ↦ ?_,
    e.getAsserting_eq⟩
  · exact hcons.full_or_empty.imp id fun hempty ↦ ⟨hempty, hreleased hb hempty⟩
  · rw [Host.after_append]
    obtain ⟨hsame, hrel⟩ := Host.entryAt_after_of_isTerminal ht he later
    refine ⟨fun hn ↦ ⟨hsame hn, ?_⟩, fun hd ↦ ⟨hrel hd, ?_⟩⟩
    · exact Host.result_get_of_isTerminal ht (hsame hn)
    · exact Host.result_get_of_isTerminal (e := e.release.2) ht (hrel hd)

/-- A catalog with one module, which exports one function. -/
def Catalog.single : Catalog Nat := { modules := [⟨"libsum.so", [("sum", some 7)]⟩] }

/-- A table with one line, for that function. -/
def TableFile.single : TableFile := ⟨"table", .ok "sum libsum sum\n".toUTF8.toList⟩

set_option maxRecDepth 2000 in
/-- A function that was found is what an entry answers with, until its handle is released. -/
theorem entry_lifecycle_released :
    let start : Host (Catalog Nat) Nat := .fresh ["sum"] .single .truncate
    let ops : List Operation := [.configure 0 ⟨"libsum", "sum"⟩, .get 0]
    let e : Entry Nat :=
      { key := "sum"
        target := ⟨"libsum", "sum"⟩
        state := .bound
        handle := some ⟨65537, by decide⟩
        function := some 7 }
    (start.after ops).entryAt 0 = some e ∧ e.state.isTerminal = true ∧
      ¬(start.after ops).DisposedBy [.get 0] ∧
      ((start.after (ops ++ [.get 0])).get 0).result = some 7 ∧
      (start.after ops).DisposedBy [.get 0, .dispose] ∧
      ((start.after (ops ++ [.get 0, .dispose])).get 0).result = none := by
  intro start ops e
  have he : (start.after ops).entryAt 0 = some e := by
    simp only [start, ops, e]
    rfl
  have hn : ¬(start.after ops).DisposedBy [.get 0] := by
    rintro (h | h) <;> exact h
  have hd : (start.after ops).DisposedBy [.get 0, .dispose] := .inr (.inl trivial)
  obtain ⟨-, -, -, hlater, -⟩ := entry_lifecycle ["sum"] Catalog.single .truncate ops he
  exact ⟨he, rfl, hn, ((hlater rfl [.get 0]).1 hn).2, hd, ((hlater rfl [.get 0, .dispose]).2 hd).2⟩

end Interpose
