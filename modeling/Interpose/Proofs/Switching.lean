import Interpose.Proofs.Lifecycle
import Interpose.Sample
import Mathlib.Algebra.Group.Nat.Defs

/-!
# Successive calls of one function

A function that can be overridden does not change between its implementations at will. In every run,
the calls of one entry go to one and the same override for a while, and to the function that is
built in from then on; either part may be missing, and only a release of all handles ends the first
one. So no configuration that comes later brings an override back (`calls_switch_once`).

The argument is about the first call. It settles the entry, and a settled entry stays as it is until
a release takes its function away for good (`Host.entryAt_after_of_isTerminal`).

What the implementations do when they run is left open: they act on a world of any type, and a run
acts on it once for each call (`Host.runCalling_eq`). A call of the sample function is such a call
of the entry with index zero.
-/

namespace Interpose

variable {σ φ : Type}

/-! ### Calls in a run -/

/-- The entry that an operation calls. -/
def Operation.called? : Operation → Option Nat
  | .dispatchOrDefault i => some i
  | _ => none

theorem Operation.eq_dispatchOrDefault_of_called? {op : Operation} {i : Nat}
    (hop : op.called? = some i) : op = .dispatchOrDefault i := by
  cases op with
  | dispatchOrDefault j => rw [Option.some.inj hop]
  | _ => cases hop

/-- The choice that an answer tells, if there is one. -/
def Answer.choice? : Answer φ → Option (Choice φ)
  | .choice (.ok c) => some c
  | _ => none

/-- What a choice does to a world, in which an override and the function that is built in have their
effects: the effect of the one that was chosen, once. -/
def Choice.effect {ω : Type} (override : φ → ω → ω) (fallback : ω → ω) (w : ω) : Choice φ → ω
  | overriding function => override function w
  | builtIn => fallback w

theorem Choice.run_eq_effect {ω : Type} (override : φ → ω → ω) (fallback : ω → ω) (w : ω)
    (c : Choice φ) : c.run (override · w) (fun _ ↦ fallback w) = effect override fallback w c := by
  cases c <;> rfl

namespace Host

variable [Loader σ φ]

/-- The choices for the calls of the entry at an index, in a run. -/
def calls (h : Host σ φ) (i : Nat) (ops : List Operation) : List (Choice φ) :=
  (ops.zip (h.run ops).result).filterMap fun p ↦
    if p.1.called? = some i then p.2.choice? else none

variable {h : Host σ φ} {i : Nat} {e : Entry φ}

theorem calls_cons_call (h : Host σ φ) (i : Nat) (ops : List Operation) :
    h.calls i (.dispatchOrDefault i :: ops) =
      .ofFunction (h.get i).result :: (h.get i).host.calls i ops := by
  simp only [calls, run, List.zip_cons_cons, List.filterMap_cons, Operation.called?, if_true]
  rfl

theorem calls_cons_other {op : Operation} (hop : op.called? ≠ some i) (h : Host σ φ)
    (ops : List Operation) : h.calls i (op :: ops) = (h.perform op).host.calls i ops := by
  simp only [calls, run, List.zip_cons_cons, List.filterMap_cons, if_neg hop]

/-- Every call is answered by a choice. -/
theorem length_calls (h : Host σ φ) (i : Nat) (ops : List Operation) :
    (h.calls i ops).length = ops.countP (·.called? = some i) := by
  induction ops generalizing h with
  | nil => rfl
  | cons op ops ih =>
    by_cases hop : op.called? = some i
    · obtain rfl := Operation.eq_dispatchOrDefault_of_called? hop
      rw [calls_cons_call, List.length_cons, ih, List.countP_cons_of_pos (by simpa using hop)]
    · rw [calls_cons_other hop, ih, List.countP_cons_of_neg (by simpa using hop)]

/-- A run in a world. Each call of the entry at an index is dispatched and runs what is chosen, with
its effect on the world; the other operations leave the world alone. -/
def runCalling {ω : Type} (i : Nat) (override : φ → ω → ω) (fallback : ω → ω) :
    List Operation → Host σ φ → ω → Host σ φ × ω
  | [], h, w => (h, w)
  | op :: ops, h, w =>
    if op.called? = some i then
      let s := (h.dispatchOrDefault i).map (Choice.run (override · w) (fun _ ↦ fallback w))
      runCalling i override fallback ops s.host s.result
    else runCalling i override fallback ops (h.perform op).host w

/-- **A call runs one implementation, once**: whatever the implementations do to the world, a run
has the effects of the choices for its calls, in order, and no others. -/
theorem runCalling_eq {ω : Type} (h : Host σ φ) (i : Nat) (override : φ → ω → ω)
    (fallback : ω → ω) (ops : List Operation) (w : ω) :
    h.runCalling i override fallback ops w =
      (h.after ops, (h.calls i ops).foldl (Choice.effect override fallback) w) := by
  induction ops generalizing h w with
  | nil => rfl
  | cons op ops ih =>
    by_cases hop : op.called? = some i
    · obtain rfl := Operation.eq_dispatchOrDefault_of_called? hop
      have hw := Choice.run_eq_effect override fallback w (.ofFunction (h.get i).result)
      rw [calls_cons_call, List.foldl_cons, ← hw, runCalling, if_pos hop, ih]
      rfl
    · rw [calls_cons_other hop, runCalling, if_neg hop, ih]
      rfl

/-! ### The shape of the calls -/

/-- Calls without an entry go to the function that is built in. -/
theorem calls_of_entryAt_eq_none (he : h.entryAt i = none) (ops : List Operation) :
    ∃ n, h.calls i ops = List.replicate n .builtIn := by
  induction ops generalizing h with
  | nil => exact ⟨0, rfl⟩
  | cons op ops ih =>
    by_cases hop : op.called? = some i
    · obtain rfl := Operation.eq_dispatchOrDefault_of_called? hop
      obtain ⟨n, hn⟩ := ih he
      exact ⟨n + 1, by rw [calls_cons_call, get_of_entryAt_eq_none he, hn]; rfl⟩
    · obtain ⟨n, hn⟩ := ih (entryAt_after_of_eq_none he [op])
      exact ⟨n, (calls_cons_other hop h ops).trans hn⟩

/-- **Calls of a settled entry** go to the function that it holds, and to the one that is built in
from the first release on. -/
theorem calls_of_isTerminal (ht : e.state.isTerminal = true) (he : h.entryAt i = some e)
    (ops : List Operation) :
    ∃ n m, h.calls i ops =
      List.replicate n (.ofFunction e.function) ++ List.replicate m .builtIn := by
  induction ops generalizing h e with
  | nil => exact ⟨0, 0, rfl⟩
  | cons op ops ih =>
    obtain ⟨d, hd, ⟨hdisposes, rfl⟩ | ⟨-, hev⟩⟩ := exists_entryAt_perform he op
    · -- A release is no call, and there is nothing left for the calls that come after it.
      have hop : op.called? ≠ some i := fun hop ↦ by
        obtain rfl := Operation.eq_dispatchOrDefault_of_called? hop
        exact hdisposes
      obtain ⟨n, m, hrest⟩ := ih (e := e.release.2) ht hd
      refine ⟨0, n + m, ?_⟩
      rw [calls_cons_other hop, hrest, ← List.replicate_append_replicate]
      rfl
    · obtain rfl := hev.eq_of_isTerminal ht
      obtain ⟨n, m, hrest⟩ := ih ht hd
      by_cases hop : op.called? = some i
      · obtain rfl := Operation.eq_dispatchOrDefault_of_called? hop
        have hrest' : (h.get i).host.calls i ops = _ := hrest
        refine ⟨n + 1, m, ?_⟩
        rw [calls_cons_call, result_get_of_isTerminal ht he, hrest', List.replicate_succ,
          List.cons_append]
      · exact ⟨n, m, by rw [calls_cons_other hop, hrest]⟩

/-- **The first call decides**: calls go to one override, or to none, before they go to the function
that is built in. -/
theorem exists_calls_eq (hcons : ∀ e, h.entryAt i = some e → e.Consistent) (ops : List Operation) :
    ∃ first n m, h.calls i ops = List.replicate n first ++ List.replicate m .builtIn := by
  induction ops generalizing h with
  | nil => exact ⟨.builtIn, 0, 0, rfl⟩
  | cons op ops ih =>
    by_cases hop : op.called? = some i
    · obtain rfl := Operation.eq_dispatchOrDefault_of_called? hop
      cases he : h.entryAt i with
      | none =>
        obtain ⟨n, hn⟩ := calls_of_entryAt_eq_none he (.dispatchOrDefault i :: ops)
        exact ⟨.builtIn, 0, n, hn⟩
      | some e =>
        obtain ⟨e', he', ht, hresult⟩ := exists_entryAt_get (hcons e he) he
        obtain ⟨n, m, hrest⟩ := calls_of_isTerminal ht he' ops
        refine ⟨.ofFunction e'.function, n + 1, m, ?_⟩
        rw [calls_cons_call, hresult, hrest, List.replicate_succ, List.cons_append]
    · rw [calls_cons_other hop]
      exact ih (consistent_perform hcons op)

/-- **Between two calls**, only a release changes where they go. -/
theorem result_get_after_get (hcons : ∀ e, h.entryAt i = some e → e.Consistent)
    (mid : List Operation) :
    (¬(h.get i).host.DisposedBy mid →
        (((h.get i).host.after mid).get i).result = (h.get i).result) ∧
      ((h.get i).host.DisposedBy mid → (((h.get i).host.after mid).get i).result = none) := by
  cases he : h.entryAt i with
  | none =>
    have hlater : ((h.after mid).get i).result = none := by
      rw [get_of_entryAt_eq_none (entryAt_after_of_eq_none he mid)]
    rw [get_of_entryAt_eq_none he]
    exact ⟨fun _ ↦ hlater, fun _ ↦ hlater⟩
  | some e =>
    obtain ⟨e', he', ht, hresult⟩ := exists_entryAt_get (hcons e he) he
    obtain ⟨hsame, hreleased⟩ := entryAt_after_of_isTerminal ht he' mid
    refine ⟨fun hn ↦ ?_, fun hd ↦ ?_⟩
    · rw [result_get_of_isTerminal ht (hsame hn), hresult]
    · exact result_get_of_isTerminal (e := e'.release.2) ht (hreleased hd)

end Host

/-! ### Calls of the sample function -/

namespace Sample

/-- What is done with a library that exports the sample function: its host is asked for something,
or the function is called. -/
inductive Use
  | operation (op : Operation)
  | call (hasOutput : Bool) (a b : Int32)

namespace Use

/-- The operation that a use comes to. A call without a place for the result comes to none. -/
def operation? : Use → Option Operation
  | operation op => some op
  | call hasOutput _ _ => if hasOutput then some (.dispatchOrDefault 0) else none

variable [Loader σ φ]

/-- The host after a use. -/
def after (implementation : φ → Int32 → Int32 → Reply) (h : Host σ φ) : Use → Host σ φ
  | operation op => (h.perform op).host
  | call hasOutput a b => (Sample.call implementation hasOutput a b h).host

/-- **A run with calls of the sample function** is a run of operations. -/
theorem foldl_after (implementation : φ → Int32 → Int32 → Reply) (h : Host σ φ)
    (uses : List Use) :
    uses.foldl (after implementation) h = h.after (uses.filterMap operation?) := by
  induction uses generalizing h with
  | nil => rfl
  | cons use uses ih =>
    rw [List.foldl_cons, ih]
    cases use with
    | operation op => rfl
    | call hasOutput a b => cases hasOutput <;> rfl

end Use

/-- A call by default writes the sum, which wraps around. -/
theorem sum_eq (a b : Int32) :
    (sum a b).code = 0 ∧
      ∃ r, (sum a b).written = some r ∧ r.toInt = (a.toInt + b.toInt).bmod (2 ^ 32) :=
  ⟨rfl, a + b, rfl, Int32.toInt_add a b⟩

end Sample

/-- **A function never switches from its default to an override**, in every run over any loader.

The calls of an entry go to one choice, and then to the function that is built in: so they go to one
override and then to none, if the first one goes to an override, and to none at all otherwise. Each
call runs one implementation, once: whatever the implementations do to a world, a run changes it by
the effects of the choices for its calls, one after the other. Of two calls, the later one goes
where the earlier one went, unless all handles were released in between, and then to the function
that is built in.

A call of the sample function with a place for the result is such a call of the entry with index
zero. It replies what the override replies, or zero with the sum written, up to wrapping around at
32 bits. A call without a place for the result replies minus one, and nothing else happens. -/
theorem calls_switch_once [Loader σ φ] (keys : List String) (loader : σ) (policy : NamePolicy)
    (i : Nat) :
    let start : Host σ φ := .fresh keys loader policy
    (∀ ops, ∃ first n m,
      start.calls i ops = List.replicate n first ++ List.replicate m .builtIn) ∧
      (∀ ops, (start.calls i ops).length = ops.countP (·.called? = some i) ∧
        ∀ (ω : Type) (override : φ → ω → ω) (fallback : ω → ω) (w : ω),
          start.runCalling i override fallback ops w =
            (start.after ops, (start.calls i ops).foldl (Choice.effect override fallback) w)) ∧
      (∀ early mid,
        let once := (start.after early).dispatchOrDefault i
        let again := (once.host.after mid).dispatchOrDefault i
        (¬once.host.DisposedBy mid → again.result = once.result) ∧
          (once.host.DisposedBy mid → again.result = .builtIn)) ∧
      ∀ (implementation : φ → Int32 → Int32 → Reply) (uses : List Sample.Use),
        let now := uses.foldl (Sample.Use.after implementation) start
        now = start.after (uses.filterMap Sample.Use.operation?) ∧
          ∀ a b,
            let call := Sample.call implementation true a b now
            let chosen := now.dispatchOrDefault 0
            call.host = chosen.host ∧
              (∀ f, chosen.result = .overriding f → call.result = implementation f a b) ∧
              (chosen.result = .builtIn → call.result.code = 0 ∧
                ∃ r, call.result.written = some r ∧
                  r.toInt = (a.toInt + b.toInt).bmod (2 ^ 32)) ∧
              Sample.call implementation false a b now =
                { result := { code := -1, written := none }, host := now, events := [] } := by
  intro start
  have hcons (early : List Operation) :
      ∀ e, (start.after early).entryAt i = some e → e.Consistent :=
    fun e he ↦ (Host.consistent_after_fresh early he).1
  refine ⟨Host.exists_calls_eq (hcons []), ?_, ?_, ?_⟩
  · exact fun ops ↦ ⟨start.length_calls i ops,
      fun ω override fallback w ↦ start.runCalling_eq i override fallback ops w⟩
  · intro early mid once again
    obtain ⟨hsame, hreleased⟩ := Host.result_get_after_get (hcons early) mid
    exact ⟨fun hn ↦ congrArg Choice.ofFunction (hsame hn),
      fun hd ↦ congrArg Choice.ofFunction (hreleased hd)⟩
  · intro implementation uses now
    refine ⟨Sample.Use.foldl_after implementation start uses, ?_⟩
    intro a b call chosen
    have hresult : call.result = chosen.result.run (fun f ↦ implementation f a b)
        (fun _ ↦ Sample.sum a b) := rfl
    refine ⟨rfl, fun f hf ↦ ?_, fun hb ↦ ?_, rfl⟩
    · rw [hresult, hf]
      rfl
    · rw [hresult, hb]
      exact Sample.sum_eq a b

/-- Calls go to the override until its handle is released, and another configuration makes no
difference then. -/
theorem calls_switch_once_released :
    let start : Host (Catalog Nat) Nat := .fresh ["sum"] .single .truncate
    let early : List Operation := [.configure 0 ⟨"libsum", "sum"⟩]
    let mid : List Operation := [.dispatchOrDefault 0, .dispose, .configure 0 ⟨"libsum", "sum"⟩]
    let once := (start.after early).dispatchOrDefault 0
    let ops := early ++ [.dispatchOrDefault 0] ++ mid ++ [.dispatchOrDefault 0]
    start.calls 0 ops = [.overriding 7, .overriding 7, .builtIn] ∧ once.host.DisposedBy mid ∧
      once.result = .overriding 7 ∧
      ((once.host.after mid).dispatchOrDefault 0).result = .builtIn := by
  intro start early mid once ops
  have hd : once.host.DisposedBy mid := .inr (.inl trivial)
  obtain ⟨-, -, hbetween, -⟩ := calls_switch_once ["sum"] Catalog.single .truncate 0
  exact ⟨by decide +kernel, hd, by decide +kernel, (hbetween early mid).2 hd⟩

end Interpose
