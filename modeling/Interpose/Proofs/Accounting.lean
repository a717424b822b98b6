import Interpose.Proofs.Impacts
import Interpose.Proofs.Observation
import Interpose.Proofs.Lifecycle
import Interpose.Proofs.ProbeLog

/-!
# Accounting for events

Nothing that happens is told twice or not at all (`events_account`). What a host has told of bound
and failed overrides is, up to the order, what can be read off its entries: one event for each that
is settled. What an application tells can be read off the lines of the table. And an observer has
an account of everything: its counts are those of the events, and each event is a line in its sink
or is counted as refused.

The step law is `Host.events_perform`: an operation tells of the lines that it applies, and then of
the entries that are settled after it and were not before (`settlings`). The law of a run follows,
because settled entries stay as they are, as far as it is told of them.
-/

namespace Interpose

variable {σ φ : Type}

/-! ### What is told of an entry -/

/-- Whether an event tells that an override was bound or that it could not be. -/
def Event.isSettling : Event → Bool
  | .bound .. | .bindFailed .. => true
  | _ => false

/-- A module that was opened has the file name of its library. -/
theorem Target.file_of_bind_ok [Loader σ φ] {t : Target} {loader loader' : σ} {b : Binding φ}
    (hb : t.bind loader = (.ok b, loader')) : moduleFileName t.library = .ok b.file := by
  rw [bind] at hb
  split at hb
  · cases hb
  · split at hb
    · cases hb
    · rename_i file hfile
      split at hb
      · cases hb
      · split at hb
        · cases hb
        · cases hb
          exact hfile

namespace Entry

/-- The event that tells what became of an entry, if it is settled. -/
def settling? (e : Entry φ) : Option Event :=
  match e.state with
  | .unresolved => none
  | .bound => some (.bound e.key (e.target.library ++ moduleSuffix) e.target.symbol)
  | .failed reason => some (.bindFailed e.key e.target reason)

/-- There is nothing to tell of an unresolved entry, and of no other. -/
theorem settling?_eq_none_iff {e : Entry φ} : e.settling? = none ↔ e.state = .unresolved := by
  rw [settling?]
  cases e.state <;> simp

theorem key_of_settling? {e : Entry φ} {event : Event} (h : e.settling? = some event) :
    event.key = e.key ∧ event.isSettling = true := by
  rw [settling?] at h
  cases hs : e.state with
  | unresolved => simp [hs] at h
  | bound =>
    rw [hs] at h
    obtain rfl := Option.some.inj h
    exact ⟨rfl, rfl⟩
  | failed reason =>
    rw [hs] at h
    obtain rfl := Option.some.inj h
    exact ⟨rfl, rfl⟩

/-- **What an entry tells when it is asked for its function** is what became of it, unless it was
settled before. -/
theorem event_get [Loader σ φ] (e : Entry φ) (loader : σ) :
    (e.get loader).event =
      if e.state = .unresolved then (e.get loader).entry.settling? else none := by
  by_cases hu : e.state = .unresolved
  · rw [if_pos hu]
    rcases hb : e.target.bind loader with ⟨reason | b, loader'⟩
    · rw [get_of_bind_error hu hb]
      rfl
    · obtain ⟨-, hfile⟩ := composeFileName_eq_ok_iff.mp (Target.file_of_bind_ok hb)
      rw [get_of_bind_ok hu hb, ← hfile]
      rfl
  · rw [if_neg hu, get_of_isTerminal (State.isTerminal_of_ne hu)]

end Entry

/-! ### What is told of entries that become settled -/

/-- What is told of entries that were not settled before and are now, given all entries before and
after. -/
def settlings (es es' : List (Entry φ)) : List Event :=
  (es.zip es').flatMap fun p ↦ if p.1.state = .unresolved then p.2.settling?.toList else []

@[simp] theorem settlings_cons (e e' : Entry φ) (es es' : List (Entry φ)) :
    settlings (e :: es) (e' :: es') =
      (if e.state = .unresolved then e'.settling?.toList else []) ++ settlings es es' := by
  simp [settlings]

/-- What is told of entries is told in their order. -/
theorem settlings_append {es es' : List (Entry φ)} (h : es.length = es'.length)
    (ds ds' : List (Entry φ)) :
    settlings (es ++ ds) (es' ++ ds') = settlings es es' ++ settlings ds ds' := by
  rw [settlings, List.zip_append h, List.flatMap_append]
  rfl

/-- As long as all states stay the same, there is nothing to tell. -/
theorem settlings_of_states {es es' : List (Entry φ)}
    (h : es'.map (·.state) = es.map (·.state)) : settlings es es' = [] := by
  induction es generalizing es' with
  | nil => rfl
  | cons e es ih =>
    cases es' with
    | nil => rfl
    | cons e' es' =>
      rw [List.map_cons, List.map_cons, List.cons.injEq] at h
      rw [settlings_cons, ih h.2, List.append_nil]
      split
      · next hu => rw [Entry.settling?_eq_none_iff.mpr (h.1.trans hu), Option.toList_none]
      · rfl

/-- **Asking all entries tells of those that it settles**, by induction on the entries. -/
theorem settlings_getAll [Loader σ φ] (es : List (Entry φ)) (loader : σ) :
    settlings es (Registry.getAll es loader).registry.entries =
      (Registry.getAll es loader).events := by
  induction es generalizing loader with
  | nil => rfl
  | cons e es ih =>
    rw [Registry.getAll, settlings_cons, ih, Entry.event_get]
    split <;> rfl

/-- **What becomes settled is told once**: together with what was told before, what is told of the
entries after is told of all of them, if those that were settled before are told of alike. -/
theorem perm_settlings {es es' : List (Entry φ)} (hlength : es'.length = es.length)
    (hkeep : ∀ (i : Nat) (e e' : Entry φ), es[i]? = some e → es'[i]? = some e' →
      e.state ≠ .unresolved → e'.settling? = e.settling?) :
    (es.filterMap Entry.settling? ++ settlings es es').Perm (es'.filterMap Entry.settling?) := by
  induction es generalizing es' with
  | nil =>
    obtain rfl := List.eq_nil_of_length_eq_zero hlength
    exact .nil
  | cons e es ih =>
    obtain ⟨e', es', rfl⟩ := List.exists_cons_of_length_eq_add_one hlength
    have hrest := ih (by simpa using hlength) fun i d d' hd hd' ↦ hkeep (i + 1) d d' hd hd'
    rw [settlings_cons]
    by_cases hu : e.state = .unresolved
    · rw [if_pos hu, List.filterMap_cons_none (Entry.settling?_eq_none_iff.mpr hu)]
      cases he' : e'.settling? with
      | none => simpa [List.filterMap_cons_none he'] using hrest
      | some event =>
        -- What the entry tells now comes behind all that was told before, hence up to the order.
        rw [List.filterMap_cons_some he']
        exact List.perm_middle.trans (hrest.cons event)
    · have he' := hkeep 0 e e' rfl rfl hu
      rw [if_neg hu, List.nil_append]
      cases he : e.settling? with
      | none => exact absurd (Entry.settling?_eq_none_iff.mp he) hu
      | some event =>
        rw [List.filterMap_cons_some he, List.filterMap_cons_some (he'.trans he)]
        exact hrest.cons event

/-! ### What an operation tells -/

namespace Registry

/-- What a line tells is decided by the first entry with its key, and by whether that takes the
target. -/
theorem eventOf?_eq (r : Registry φ) (line : Table.Line) :
    r.eventOf? line =
      match r.entries.find? (·.key = line.assignment.key) with
      | none => some (.unknownKey line.assignment.key line.number)
      | some e =>
        if (e.configure line.assignment.target).1 then
          some (.configured line.assignment.key line.assignment.target)
        else none := by
  rw [List.find?_eq_bind_findIdx?_getElem?, ← find?, eventOf?]
  cases hi : r.find? line.assignment.key with
  | none => rfl
  | some i =>
    obtain ⟨⟨e, he, -⟩, -⟩ := find?_eq_some_iff.mp hi
    have hroster : r.roster[i]? = some (e.key, e.state) := getElem?_roster he
    simp only [hroster, Option.map_some, Option.some.injEq, Option.bind_some, he,
      Entry.configure_accepted_iff]

theorem states_applyLines (r : Registry φ) (lines : List Table.Line) :
    (r.applyLines lines).1.entries.map (·.state) = r.entries.map (·.state) := by
  simpa [roster, Function.comp_def] using congrArg (List.map Prod.snd) (r.roster_applyLines lines)

end Registry

namespace Host

variable [Loader σ φ] (h : Host σ φ)

theorem events_get (i : Nat) :
    (h.get i).events = settlings h.registry.entries (h.get i).host.registry.entries := by
  rw [get]
  cases he : h.registry.entries[i]? with
  | none => exact (settlings_of_states rfl).symm
  | some e =>
    obtain ⟨before, after, hes, hset⟩ := exists_append_of_entryAt he
    dsimp only
    rw [hset, hes, settlings_append rfl, settlings_of_states rfl, settlings_cons,
      settlings_of_states rfl, List.nil_append, List.append_nil, Entry.event_get]
    split <;> rfl

/-- A resolution tells of the entries that it settles, and of nothing else. -/
theorem events_perform_of_resolves {op : Operation} (hop : op.Resolves) :
    (h.perform op).events =
      settlings h.registry.entries (h.perform op).host.registry.entries := by
  cases op with
  | get i => exact h.events_get i
  | isOverridden i => exact h.events_get i
  | dispatch policy i => exact h.events_get i
  | dispatchOrDefault i => exact h.events_get i
  | resolveAll => exact (settlings_getAll h.registry.entries h.loader).symm
  | info => exact (settlings_getAll h.registry.entries h.loader).symm
  | _ => exact hop.elim

/-- A quiet operation settles nothing. -/
theorem states_perform_of_isQuiet {op : Operation} (hop : op.isQuiet = true) :
    (h.perform op).host.registry.entries.map (·.state) = h.registry.entries.map (·.state) := by
  by_cases hd : h.Disposes op
  · have hes := congrArg Holdings.entries (h.holdings_perform_of_disposes hd)
    rw [show (h.perform op).host.registry.entries = _ from hes, holdings, entries_dispose,
      List.map_map]
    rfl
  · cases op with
    | configure i target =>
      show (h.configure i target).host.registry.entries.map (·.state) = _
      rw [configure]
      cases he : h.registry.entries[i]? with
      | none => rfl
      | some e =>
        obtain ⟨before, after, hes, hset⟩ := exists_append_of_entryAt he
        dsimp only
        rw [hset, hes]
        simp
    | unloadHook =>
      have hr : ¬h.enterUnloaded.result = true := fun hr ↦ hd (result_enterUnloaded_iff.mp hr)
      show h.unloadHook.host.registry.entries.map (·.state) = _
      rw [unloadHook, if_neg hr]
      rfl
    | snapshot | enterLoaded | enterUnloaded => rfl
    | dispose => exact absurd trivial hd
    | _ => cases hop

/-- **What an operation tells**: what the lines that it applies come to, and then what became of the
entries that it settled. -/
theorem events_perform (op : Operation) :
    (h.perform op).events =
      (h.linesOf op).filterMap h.registry.eventOf? ++
        settlings h.registry.entries (h.perform op).host.registry.entries := by
  by_cases happlies : op.Applies
  · obtain ⟨hhost, hevents⟩ := h.applied_perform happlies
    rw [hevents, hhost, settlings_of_states (h.registry.states_applyLines _), List.append_nil,
      Registry.events_applyLines]
  rw [linesOf_of_not_applies happlies, List.filterMap_nil, List.nil_append]
  by_cases hquiet : op.isQuiet = true
  · rw [settlings_of_states (h.states_perform_of_isQuiet hquiet),
      h.events_perform_of_isQuiet hquiet]
  · refine h.events_perform_of_resolves ?_
    cases op <;> first | trivial | exact absurd trivial happlies

end Host

/-! ### What is told of a key -/

/-- Nothing is told of a key that no entry has. -/
theorem filter_key_eq_nil {es : List (Entry φ)} {key : String} (h : key ∉ es.map (·.key)) :
    (es.filterMap Entry.settling?).filter (·.key = key) = [] := by
  rw [List.filter_eq_nil_iff]
  intro event hevent hkey
  obtain ⟨e, he, htold⟩ := List.mem_filterMap.mp hevent
  rw [(Entry.key_of_settling? htold).1, decide_eq_true_eq] at hkey
  exact h (List.mem_map.mpr ⟨e, he, hkey⟩)

/-- If no two entries share a key, what is told of an entry is what is told of its key. -/
theorem filter_key_eq {es : List (Entry φ)} (hkeys : (es.map (·.key)).Nodup) {e : Entry φ}
    (he : e ∈ es) :
    (es.filterMap Entry.settling?).filter (·.key = e.key) = e.settling?.toList := by
  obtain ⟨before, after, rfl⟩ := List.append_of_mem he
  rw [List.map_append, List.map_cons, List.nodup_middle, List.nodup_cons, List.mem_append,
    not_or] at hkeys
  have hone : [e].filterMap Entry.settling? = e.settling?.toList := by
    rw [List.filterMap_cons]
    cases e.settling? <;> rfl
  rw [List.filterMap_append, List.filter_append, filter_key_eq_nil hkeys.1.1, List.nil_append,
    ← List.singleton_append, List.filterMap_append, List.filter_append,
    filter_key_eq_nil hkeys.1.2, List.append_nil, hone]
  refine List.filter_eq_self.mpr fun event hevent ↦ ?_
  simp [(Entry.key_of_settling? (Option.mem_toList.mp hevent)).1]

/-- What occurs in some order at most once occurs so in every order. -/
theorem eq_toList_of_perm {α : Type} {l : List α} {a : Option α} (h : l.Perm a.toList) :
    l = a.toList := by
  cases a with
  | none => exact h.eq_nil
  | some a => exact List.perm_singleton.mp h

/-! ### What a run tells -/

theorem isSettling_of_mem_settlings {es es' : List (Entry φ)} {event : Event}
    (h : event ∈ settlings es es') : event.isSettling = true := by
  obtain ⟨⟨e, e'⟩, -, hevent⟩ := List.mem_flatMap.mp h
  split at hevent
  · exact (Entry.key_of_settling? (Option.mem_toList.mp hevent)).2
  · cases hevent

theorem Registry.isSettling_of_eventOf? {r : Registry φ} {line : Table.Line} {event : Event}
    (h : r.eventOf? line = some event) : event.isSettling = false := by
  obtain ⟨-, htold⟩ | ⟨-, _, e, -, -, -, htold⟩ := r.eventOf?_cases line
  · rw [htold] at h
    obtain rfl := Option.some.inj h
    rfl
  · rw [htold] at h
    split at h
    · obtain rfl := Option.some.inj h
      rfl
    · cases h

namespace Host

section

variable [Loader σ φ]

/-- Of what an operation tells, the settling events are about the entries that it settles. -/
theorem filter_events_perform (h : Host σ φ) (op : Operation) :
    (h.perform op).events.filter Event.isSettling =
      settlings h.registry.entries (h.perform op).host.registry.entries := by
  rw [events_perform, List.filter_append,
    List.filter_eq_self.mpr fun _ ↦ isSettling_of_mem_settlings, List.filter_eq_nil_iff.mpr,
    List.nil_append]
  intro event hevent
  obtain ⟨line, -, htold⟩ := List.mem_filterMap.mp hevent
  simp [Registry.isSettling_of_eventOf? htold]

/-- What was told of an entry that is settled does not change any more. -/
theorem settling?_perform {h : Host σ φ} {op : Operation} {i : Nat} {e e' : Entry φ}
    (he : h.entryAt i = some e) (he' : (h.perform op).host.entryAt i = some e')
    (hs : e.state ≠ .unresolved) : e'.settling? = e.settling? := by
  obtain ⟨d, hd, ⟨-, rfl⟩ | ⟨-, hev⟩⟩ := exists_entryAt_perform he op
  · obtain rfl := Option.some.inj (hd.symm.trans he')
    rfl
  · obtain rfl := Option.some.inj (hd.symm.trans he')
    rw [hev.eq_of_isTerminal (State.isTerminal_of_ne hs)]

/-- **One step** of the account of settled entries. -/
theorem perm_settling?_perform (h : Host σ φ) (op : Operation) :
    (h.registry.entries.filterMap Entry.settling? ++
      (h.perform op).events.filter Event.isSettling).Perm
        ((h.perform op).host.registry.entries.filterMap Entry.settling?) := by
  rw [filter_events_perform]
  exact perm_settlings (h.length_perform op) fun _ _ _ he he' hs ↦ settling?_perform he he' hs

/-- **A run**: what was told of the entries before, and what the run tells of settled ones, is told
of the entries after it. -/
theorem perm_settling?_after (h : Host σ φ) (ops : List Operation) :
    (h.registry.entries.filterMap Entry.settling? ++
      (h.run ops).events.filter Event.isSettling).Perm
        ((h.after ops).registry.entries.filterMap Entry.settling?) := by
  induction ops generalizing h with
  | nil => simp [run]
  | cons op ops ih =>
    rw [run, List.filter_append, ← List.append_assoc, after_cons]
    exact ((h.perm_settling?_perform op).append_right _).trans (ih (h.perform op).host)

/-- Each settled entry of a fresh host was told of once, and no other. -/
theorem perm_settling?_after_fresh (keys : List String) (loader : σ) (policy : NamePolicy)
    (ops : List Operation) :
    let start : Host σ φ := .fresh keys loader policy
    ((start.run ops).events.filter Event.isSettling).Perm
      ((start.after ops).registry.entries.filterMap Entry.settling?) := by
  intro start
  have hnone : start.registry.entries.filterMap Entry.settling? = [] := by
    simp [start, fresh, Registry.ofKeys, Entry.settling?, List.filterMap_eq_nil_iff]
  simpa [hnone] using start.perm_settling?_after ops

/-- What moves and releases keep holds of all entries all along. -/
theorem forall_entryAt_after {P : Entry φ → Prop}
    (configure : ∀ (e : Entry φ) (target : Target), e.state = .unresolved → P e →
      P { e with target })
    (settle : ∀ (e : Entry φ) (loader : σ), e.state = .unresolved → P e → P (e.get loader).entry)
    (release : ∀ e : Entry φ, P e → P e.release.2) {h : Host σ φ}
    (hP : ∀ i e, h.entryAt i = some e → P e) (ops : List Operation) {i : Nat} {e : Entry φ}
    (he : (h.after ops).entryAt i = some e) : P e := by
  induction ops generalizing h with
  | nil => exact hP i e he
  | cons op ops ih =>
    refine ih (fun j d hd ↦ ?_) he
    by_cases hdisposes : h.Disposes op
    · rw [entryAt_perform_of_disposes hdisposes] at hd
      obtain ⟨c, hc, rfl⟩ := Option.map_eq_some_iff.mp hd
      exact release c (hP j c hc)
    · obtain ⟨c, hc, -⟩ := exists_entryAt_of_perform hd
      obtain ⟨d', hd', hkept⟩ := (h.moves_perform hdisposes).exists_entry (R := fun a b ↦ P a → P b)
        (fun _ ↦ id) (fun hab hbc ↦ hbc ∘ hab) configure settle hc
      obtain rfl := Option.some.inj (hd'.symm.trans hd)
      exact hkept (hP j c hc)

/-- What an entry is bound to is in a file whose name could be composed. -/
theorem moduleFileName_of_bound {keys : List String} {loader : σ} {policy : NamePolicy}
    (ops : List Operation) {i : Nat} {e : Entry φ}
    (he : ((fresh keys loader policy).after ops).entryAt i = some e) (hb : e.state = .bound) :
    moduleFileName e.target.library = .ok (e.target.library ++ moduleSuffix) := by
  refine forall_entryAt_after
    (P := fun e : Entry φ ↦ e.state = .bound →
      moduleFileName e.target.library = .ok (e.target.library ++ moduleSuffix))
    ?_ ?_ (fun _ ↦ id) ?_ ops he hb
  · intro e target hu _ hb
    cases hu.symm.trans hb
  · intro e loader hu _ hb
    rcases hbind : e.target.bind loader with ⟨reason | b, loader'⟩
    · rw [Entry.get_of_bind_error hu hbind] at hb
      cases hb
    · have hfile := Target.file_of_bind_ok hbind
      rw [Entry.get_of_bind_ok hu hbind]
      exact (composeFileName_eq_ok_iff.mp hfile).2 ▸ hfile
  · intro i e he hb
    obtain ⟨key, -, rfl⟩ := List.mem_map.mp (List.mem_of_getElem? he)
    cases hb

end

end Host

/-! ### Observers -/

/-- How many of some events are of each kind. -/
def Stats.ofEvents (events : List Event) : Stats where
  configured := events.countP (·.name = "configured")
  unknownKeys := events.countP (·.name = "unknown_key")
  bound := events.countP (·.name = "bound")
  failed := events.countP (·.name = "bind_failed")

theorem Stats.ofEvents_concat (events : List Event) (e : Event) :
    ofEvents (events ++ [e]) = (ofEvents events).count e := by
  cases e <;> simp [ofEvents, count, Event.name]

theorem Stats.total_ofEvents (events : List Event) : (ofEvents events).total = events.length := by
  induction events using List.reverseRecOn with
  | nil => rfl
  | append_singleton events e ih => rw [ofEvents_concat, total_count, ih, List.length_append]; rfl

namespace Observer

/-- An observer that was not told of anything, with a sink that takes lines as `admits` says. -/
def fresh (component run : String) (admits : (offered taken : Nat) → Bool)
    (clock : Nat → Instant) : Observer where
  journal := { component, run, sink := { admits } }
  clock

/-- What an observer knows of the events that it was told of: how many there were of each kind, and
for each of them there is a line in the sink, in their order and with the number of the event, or
one more refusal. -/
structure Accounts (o : Observer) (events : List Event) : Prop where
  stats : o.stats = .ofEvents events
  drawn : o.journal.drawn = events.length
  balance : events.length = o.journal.sink.lines.size + o.journal.refused
  lines : o.journal.sink.lines.toList.Sublist
    (events.zipIdx.map fun p ↦ (o.journal.recordOf (o.clock p.2) (p.2 + 1) p.1).text)

variable {o : Observer} {events : List Event}

theorem accounts_fresh (component run : String) (admits : (offered taken : Nat) → Bool)
    (clock : Nat → Instant) : (fresh component run admits clock).Accounts [] :=
  ⟨rfl, rfl, rfl, .slnil⟩

/-- **One event**: it is a line more or a refusal more. -/
theorem Accounts.tell (h : o.Accounts events) (e : Event) :
    (o.tell e).Accounts (events ++ [e]) := by
  have htotal : o.stats.total = events.length := by rw [h.stats, Stats.total_ofEvents]
  have hstats : (o.tell e).stats = .ofEvents (events ++ [e]) := by
    rw [Stats.ofEvents_concat, ← h.stats]
    rfl
  have hjournal : (o.tell e).journal = o.journal.notify (o.clock events.length) e := by
    rw [← htotal]
    rfl
  have hclock : (o.tell e).clock = o.clock := rfl
  by_cases hadmits : o.journal.sink.admits o.journal.sink.offered o.journal.sink.lines.size = true
  · rw [Journal.notify_of_admits hadmits, h.drawn] at hjournal
    refine ⟨hstats, ?_, ?_, ?_⟩ <;> rw [hjournal]
    · simp [Journal.written, h.drawn]
    · simp [Journal.written, h.balance]
      omega
    · rw [hclock, List.zipIdx_append, List.map_append]
      show (o.journal.sink.lines.push _).toList.Sublist (_ ++ [_])
      rw [Array.toList_push, Nat.zero_add]
      exact h.lines.append (.refl _)
  · rw [Journal.notify_of_refuses hadmits] at hjournal
    refine ⟨hstats, ?_, ?_, ?_⟩ <;> rw [hjournal]
    · simp [Journal.passedOver, h.drawn]
    · simp [Journal.passedOver, h.balance]
      omega
    · rw [hclock, List.zipIdx_append, List.map_append]
      exact h.lines.trans (List.sublist_append_left _ _)

theorem Accounts.foldl (h : o.Accounts events) (more : List Event) :
    (more.foldl Observer.tell o).Accounts (events ++ more) := by
  induction more generalizing o events with
  | nil => simpa using h
  | cons e more ih => simpa using ih (h.tell e)

end Observer

/-- **Events account for what happened**, in every run of a host whose entries were just created.

What the run tells of bound and failed overrides is, up to the order, what can be read off the
settled entries. So if no two entries share a key, a bound entry was told of once, with its names
and the file that is composed of them, a failed one was told of once, with its names and the reason,
and an unresolved one was not told of. An operation that applies a table tells, line by line, of
each line whose key is unknown and of each line whose target is taken. Configuring, taking a
snapshot, releasing, and the hooks that apply no table tell nothing.

An observer of the run has counts that are those of the events of each kind. Whenever its sink takes
and refuses lines, and whatever its clock shows, each event is a line in the sink, or counted as
refused. So it is for an observer that is told at once, and for the observer of a session. -/
theorem events_account [Loader σ φ] (keys : List String) (loader : σ) (policy : NamePolicy)
    (ops : List Operation) :
    let start : Host σ φ := .fresh keys loader policy
    let now := start.after ops
    let events := (start.run ops).events
    (events.filter Event.isSettling).Perm (now.registry.entries.filterMap Entry.settling?) ∧
      (keys.Nodup → ∀ i e, now.entryAt i = some e →
        (events.filter fun event ↦ event.key = e.key && event.isSettling) = e.settling?.toList ∧
          (e.state = .bound →
            moduleFileName e.target.library = .ok (e.target.library ++ moduleSuffix))) ∧
      (∀ op : Operation, op.Applies →
        (now.perform op).events = (now.linesOf op).filterMap fun line ↦
          match now.registry.entries.find? (·.key = line.assignment.key) with
          | none => some (.unknownKey line.assignment.key line.number)
          | some e =>
            if (e.configure line.assignment.target).1 then
              some (.configured line.assignment.key line.assignment.target)
            else none) ∧
      (∀ op : Operation, op.isQuiet = true → (now.perform op).events = []) ∧
      ∀ (component run : String) (admits : (offered taken : Nat) → Bool),
        (∀ clock : Nat → Instant, ∃ last,
          (start.runTelling Observer.tell? (some (.fresh component run admits clock))
              ops).observer = some last ∧ last.Accounts events) ∧
          ∀ clock : Instant,
            let s : Session σ φ :=
              { host := start, journal := { component, run, sink := { admits } }, clock }
            ∃ last, (s.run ops).2.observer? = some last ∧ last.Accounts events := by
  intro start now events
  have hperm := Host.perm_settling?_after_fresh keys loader policy ops
  have haccounts (component run : String) (admits : (offered taken : Nat) → Bool)
      (clock : Nat → Instant) :
      (events.foldl Observer.tell (.fresh component run admits clock)).Accounts events :=
    (Observer.accounts_fresh component run admits clock).foldl events
  refine ⟨hperm, fun hkeys i e he ↦ ⟨?_, Host.moduleFileName_of_bound ops he⟩, fun op hop ↦ ?_,
    fun op hop ↦ now.events_perform_of_isQuiet hop, fun component run admits ↦
      ⟨fun clock ↦ ⟨_, ?_, haccounts component run admits clock⟩,
        fun clock ↦ ⟨_, ?_, haccounts component run admits fun _ ↦ clock⟩⟩⟩
  · have hsame : now.registry.keys = keys :=
      (start.keys_after ops).trans (Registry.keys_ofKeys keys)
    have hnodup : now.registry.keys.Nodup := hsame ▸ hkeys
    have hmine := hperm.filter (fun event : Event ↦ event.key = e.key)
    rw [filter_key_eq hnodup (List.mem_of_getElem? he), List.filter_filter] at hmine
    exact eq_toList_of_perm hmine
  · rw [(now.applied_perform hop).events, Registry.events_applyLines]
    exact List.filterMap_congr fun line _ ↦ now.registry.eventOf?_eq line
  · rw [Host.runTelling_eq]
    exact Observer.foldl_tell?_some _ events
  · rw [(Session.run_eq _ ops).2.2]
    exact Observer.foldl_tell?_some _ events

/-- Two of the four events of a run are lines in a sink that takes two, and two are refused. -/
theorem events_account_full_sink :
    let t : Table :=
      { lines := [⟨1, "sum", "libsum", "sum"⟩, ⟨3, "mean", "libsum", "mean"⟩] }
    let ops : List Operation := [.applyTable t, .get 0, .get 1, .dispose]
    let start : Host (Catalog Nat) Nat := .fresh ["sum", "product"] .single .truncate
    let now := start.after ops
    let events := (start.run ops).events
    let watcher : Observer := .fresh "probe" "first" (fun _ taken ↦ taken < 2) fun _ ↦ ⟨0⟩
    ["sum", "product"].Nodup ∧
      now.entryAt 0 = some { key := "sum", target := ⟨"libsum", "sum"⟩, state := .bound } ∧
      (events.filter fun event ↦ event.key = "sum" && event.isSettling) =
        [.bound "sum" "libsum.so" "sum"] ∧
      (Operation.applyTable t).Applies ∧
      (now.perform (.applyTable t)).events = [.unknownKey "mean" 3] ∧
      Operation.dispose.isQuiet = true ∧ (now.perform .dispose).events = [] ∧
      ∃ last, (start.runTelling Observer.tell? (some watcher) ops).observer = some last ∧
        last.stats = ⟨1, 1, 1, 1⟩ ∧ 4 = last.journal.sink.lines.size + last.journal.refused := by
  intro t ops start now events watcher
  obtain ⟨-, hsettled, happlied, hquiet, hobserved⟩ :=
    events_account ["sum", "product"] Catalog.single .truncate ops
  have hnodup : ["sum", "product"].Nodup := by decide
  have hsum : now.entryAt 0 =
      some { key := "sum", target := ⟨"libsum", "sum"⟩, state := .bound } := by
    simp only [now, start, ops, t]
    rfl
  obtain ⟨last, hlast, haccounts⟩ :=
    (hobserved "probe" "first" fun _ taken ↦ taken < 2).1 fun _ ↦ ⟨0⟩
  have htold : events =
      [.configured "sum" ⟨"libsum", "sum"⟩, .unknownKey "mean" 3,
        .bound "sum" "libsum.so" "sum", .bindFailed "product" {} .noConfig] := by
    decide +kernel
  have hstats : last.stats = .ofEvents events := haccounts.stats
  have hbalance : events.length = _ := haccounts.balance
  rw [htold] at hstats hbalance
  exact ⟨hnodup, hsum, (hsettled hnodup 0 _ hsum).1, trivial,
    (happlied (.applyTable t) trivial).trans (by decide +kernel), rfl, hquiet .dispose rfl, last,
    hlast, hstats, hbalance⟩

end Interpose
