import Interpose.Loader.Catalog
import Interpose.Probe
import Interpose.Proofs.Application
import Interpose.Proofs.Encoding
import Interpose.Proofs.Framing
import Mathlib.Data.List.Infix

/-!
# The log of a probe

A probe that is recorded leaves a log that validates (`probe_log_validates`): it has a line for each
line of the table and for each key, and each line decodes to the record of its event. The one thing
that can be wrong with such a line is its trace, and that is wrong just if the run holds a double
colon.

Four arguments meet here, and each is about any log, any journal or any host: an application tells
one event for each line and a resolution one for each entry (`Host.length_events_probe`); a journal
whose sink takes everything writes a record for each event (`Journal.lines_notifyAll`); what a log
of records is found to violate is what its records violate (`validateLog_text`); and the parts of a
trace are those of its run and two more (`Journal.traceParts_traceOf`).
-/

namespace Interpose

variable {σ φ : Type}

/-! ### Traces -/

theorem not_infix_of_not_mem_colon {s : List Char} (h : ':' ∉ s) : ¬[':', ':'] <:+: s :=
  fun hs ↦ h (hs.subset (by simp))

/-- A text is one part just if there is no double colon in it. -/
theorem traceParts_eq_one_iff (s : List Char) : traceParts s = 1 ↔ ¬[':', ':'] <:+: s := by
  refine ⟨fun h ↦ ?_, traceParts_eq_one⟩
  obtain ⟨parts, hs⟩ := exists_splitsInto s
  rw [← hs.length_eq] at h
  cases hs with
  | last hone => exact hone
  | cons _ hs =>
    cases hs <;> simp at h

/-- A text without colons behind a double colon is one part more, even if colons come before. -/
theorem traceParts_append_colons {t : List Char} (ht : ':' ∉ t) (s : List Char) :
    traceParts (s ++ ':' :: ':' :: t) = traceParts s + 1 := by
  have hone := traceParts_eq_one (not_infix_of_not_mem_colon ht)
  induction s using traceParts.induct with
  | case1 => exact congrArg (· + 1) hone
  | case2 s ih => exact congrArg (· + 1) ih
  | case3 c s hc ih =>
    have hkeep : traceParts (c :: s) = traceParts s := traceParts_cons (by
      rintro ⟨u, hu⟩
      obtain ⟨rfl, rfl⟩ := List.cons.inj hu
      exact hc u rfl rfl)
    by_cases hcolon : c = ':' ∧ s = []
    · -- A single colon joins the separator, which leaves one for the last part.
      obtain ⟨rfl, rfl⟩ := hcolon
      have hlast : ¬[':', ':'] <:+: ':' :: t := by
        rw [List.infix_cons_iff, not_or]
        refine ⟨?_, not_infix_of_not_mem_colon ht⟩
        rintro ⟨u, hu⟩
        obtain ⟨-, rfl⟩ := List.cons.inj hu
        exact ht (by simp)
      exact congrArg (· + 1) (traceParts_eq_one hlast)
    · have hprefix : ¬[':', ':'] <+: c :: (s ++ ':' :: ':' :: t) := by
        rintro ⟨u, hu⟩
        obtain ⟨rfl, hrest⟩ := List.cons.inj hu
        cases s with
        | nil => exact hcolon ⟨rfl, rfl⟩
        | cons d s =>
          obtain ⟨hd, -⟩ := List.cons.inj hrest
          exact hc s rfl (congrArg (· :: s) hd.symm)
      rw [List.cons_append, traceParts_cons hprefix, ih, hkeep]

/-- Numbers have no colons in them. -/
theorem colon_not_mem_padded (width n : Nat) : ':' ∉ (padded width n).toList := by
  intro h
  have hdigit : ':'.isDigit = true := isDigit_of_mem_padded h
  exact absurd hdigit (by decide)

/-- The parts of a trace are the component, those of the run, and the number. -/
theorem Journal.traceParts_traceOf {j : Journal} (hc : ':' ∉ j.component.toList) (n : Nat) :
    traceParts (j.traceOf n).toList = traceParts j.run.toList + 2 := by
  have htrace : (j.traceOf n).toList =
      j.component.toList ++ ':' :: ':' :: (j.run.toList ++ ':' :: ':' :: (padded 3 n).toList) := by
    simp [traceOf]
  have hcomponent : ¬[':', ':'] <:+: j.component.toList ++ [':'] := by
    intro hinfix
    have hcount := hinfix.sublist.count_le ':'
    rw [List.count_append, List.count_eq_zero_of_not_mem hc] at hcount
    exact absurd hcount (by decide)
  rw [htrace, traceParts_append hcomponent, traceParts_append_colons (colon_not_mem_padded 3 n)]

/-! ### Journals -/

namespace Journal

/-- The record of an event, with the trace that has a number. -/
def recordOf (j : Journal) (now : Instant) (number : Nat) (e : Event) : Record :=
  { Record.ofEvent now e with trace := j.traceOf number }

/-- The journal after some events, each at the reading of the clock for its number. -/
def notifyAll (clock : Nat → Instant) (j : Journal) (events : List Event) : Journal :=
  events.foldl (fun j e ↦ j.notify (clock j.drawn) e) j

/-- The journal after a record was written with a trace that was drawn for it. -/
def written (j : Journal) (r : Record) : Journal :=
  { j with
    drawn := j.drawn + 1
    sink :=
      { j.sink with
        offered := j.sink.offered + 1
        lines := j.sink.lines.push r.text } }

/-- The journal after a record was refused for which a trace was drawn. -/
def passedOver (j : Journal) : Journal :=
  { j with
    drawn := j.drawn + 1
    sink := { j.sink with offered := j.sink.offered + 1 }
    refused := j.refused + 1 }

/-- An event is recorded with the next trace. -/
theorem emit_ofEvent (j : Journal) (now : Instant) (e : Event) :
    j.emit (.ofEvent now e) = j.draw.2.write (j.recordOf now (j.drawn + 1) e) := by
  have htrace : (Record.ofEvent now e).trace = "" := by cases e <;> rfl
  rw [emit, stamp, if_pos htrace]
  rfl

/-- An event that the sink takes is written. -/
theorem notify_of_admits {j : Journal} (h : j.sink.admits j.sink.offered j.sink.lines.size = true)
    (now : Instant) (e : Event) :
    j.notify now e = j.written (j.recordOf now (j.drawn + 1) e) := by
  rw [notify, emit_ofEvent, write, show j.draw.2.sink = j.sink from rfl, Sink.offer, if_pos h]
  rfl

/-- An event that the sink refuses uses up a trace all the same. -/
theorem notify_of_refuses {j : Journal}
    (h : ¬j.sink.admits j.sink.offered j.sink.lines.size = true) (now : Instant) (e : Event) :
    j.notify now e = j.passedOver := by
  rw [notify, emit_ofEvent, write, show j.draw.2.sink = j.sink from rfl, Sink.offer, if_neg h]
  rfl

/-- **A journal writes a record for each event**, in order, as long as its sink takes everything. -/
theorem lines_notifyAll {j : Journal} (h : ∀ offered taken, j.sink.admits offered taken = true)
    (clock : Nat → Instant) (events : List Event) :
    (j.notifyAll clock events).sink.lines.toList =
      j.sink.lines.toList ++
        (events.zipIdx j.drawn).map fun p ↦ (j.recordOf (clock p.2) (p.2 + 1) p.1).text := by
  induction events generalizing j with
  | nil => simp [notifyAll]
  | cons e events ih =>
    have hlater := ih (j := j.written (j.recordOf (clock j.drawn) (j.drawn + 1) e)) h
    rw [← notify_of_admits (h _ _)] at hlater
    refine hlater.trans ?_
    rw [notify_of_admits (h _ _), List.zipIdx_cons, List.map_cons, written, Array.toList_push,
      List.append_assoc, List.singleton_append]
    rfl

end Journal

/-! ### Validating records -/

/-- A record without details is accepted as it is, or refused for the rules that it breaks. -/
theorem Record.validateLine_eq {r : Record} (hd : r.details = none) (n : Nat) :
    validateLine n r.text.toList =
      if r.violations = [] then .ok r else .error (r.violations.map (⟨n, ·⟩)) := by
  have hnull : r.withoutNull = r := by rw [withoutNull, hd]
  have htext := r.validateText_text (by simp [hd])
  rw [hnull] at htext
  rw [validateLine, htext]
  by_cases h : r.violations = []
  · rw [if_pos h, if_pos (r.violations_eq_nil_iff.mp h)]
    rfl
  · rw [if_neg h, if_neg (mt r.violations_eq_nil_iff.mpr h)]
    rfl

/-- **What a log of records is found to violate** is what its records violate. -/
theorem validateLog_text {s : Sink} {rs : List Record} (h : s.lines.toList = rs.map Record.text)
    (hd : ∀ r ∈ rs, r.details = none) :
    validateLog s.text.toList =
      (rs.length, (rs.zipIdx 1).flatMap fun p ↦ p.1.violations.map (⟨p.2, ·⟩)) := by
  rw [validateLog, recordLines_text h, List.length_map, List.length_zipIdx, List.flatMap_map]
  refine congrArg _ (List.flatMap_congr fun p hp ↦ ?_)
  have hnull : p.1.details = none := hd p.1 (List.fst_mem_of_mem_zipIdx hp)
  rw [Record.validateLine_eq hnull]
  by_cases hok : p.1.violations = []
  · rw [if_pos hok, hok]
    rfl
  · rw [if_neg hok]

/-- A file that text was written to is validated as the text. -/
theorem validateFile_toUTF8 (s : String) :
    validateFile (.ok s.toUTF8.toList) = .ok (validateLog s.toList) := by
  dsimp only [validateFile, bind, Except.bind]
  rw [Text.Utf8.decode?_toUTF8]

namespace Journal

variable (j : Journal) (now : Instant) (n : Nat) (e : Event)

@[simp] theorem details_recordOf : (j.recordOf now n e).details = none := by cases e <;> rfl

@[simp] theorem trace_recordOf : (j.recordOf now n e).trace = j.traceOf n := rfl

/-- An event about a key has one. -/
theorem keyOk_recordOf : (j.recordOf now n e).KeyOk := by
  intro _
  cases e <;> rfl

/-- An event of a failure names its reason. -/
theorem reasonOk_recordOf : (j.recordOf now n e).ReasonOk := by
  intro hevent
  have hname : e.name = "bind_failed" := by cases e <;> exact hevent
  cases e with
  | bindFailed key target reason => exact ⟨reason, rfl⟩
  | _ => simp [Event.name] at hname

/-- The record of an event can violate one rule, and does so if the run holds a double colon. -/
theorem violations_recordOf (hc : ':' ∉ j.component.toList) :
    (j.recordOf now n e).violations =
      if [':', ':'] <:+: j.run.toList then [.badTrace (j.traceOf n)] else [] := by
  have htrace : (j.recordOf now n e).TraceOk ↔ ¬[':', ':'] <:+: j.run.toList := by
    rw [← traceParts_eq_one_iff, Record.TraceOk, ← traceParts_eq_three_iff, trace_recordOf,
      traceParts_traceOf hc]
    omega
  rw [Record.violations, if_pos (j.keyOk_recordOf now n e), if_pos (j.reasonOk_recordOf now n e),
    List.append_nil, List.append_nil, trace_recordOf]
  by_cases h : [':', ':'] <:+: j.run.toList
  · rw [if_pos h, if_neg fun hok ↦ htrace.mp hok h]
  · rw [if_neg h, if_pos (htrace.mpr h)]

end Journal

/-! ### Logs of events -/

namespace Journal

/-- The log that a fresh journal writes of some events. -/
def logOf (component run : String) (clock : Nat → Instant) (events : List Event) : String :=
  (notifyAll clock { component, run } events).sink.text

/-- The records in that log. -/
def recordsOf (component run : String) (clock : Nat → Instant) (events : List Event) :
    List Record :=
  events.zipIdx.map fun p ↦ recordOf { component, run } (clock p.2) (p.2 + 1) p.1

variable (component run : String) (clock : Nat → Instant) (events : List Event)

theorem lines_logOf :
    (notifyAll clock { component, run } events).sink.lines.toList =
      (recordsOf component run clock events).map Record.text := by
  rw [lines_notifyAll fun _ _ ↦ rfl, recordsOf, List.map_map]
  rfl

/-- There is a record for each event. -/
theorem length_recordsOf : (recordsOf component run clock events).length = events.length := by
  rw [recordsOf, List.length_map, List.length_zipIdx]

theorem details_of_mem_recordsOf :
    ∀ r ∈ recordsOf component run clock events, r.details = none := by
  intro r hr
  obtain ⟨p, -, rfl⟩ := List.mem_map.mp hr
  exact details_recordOf _ _ _ _

/-- Each line of the log decodes to the record of its event. -/
theorem exists_decoded {i : Nat} {e : Event} (he : events[i]? = some e) :
    ∃ line v, (recordLines (logOf component run clock events).toList)[i]? = some (i + 1, line) ∧
      Json.parse line = .ok v ∧
        Record.decode v = .ok (recordOf { component, run } (clock i) (i + 1) e) := by
  let r := recordOf { component, run } (clock i) (i + 1) e
  have hd : r.details = none := details_recordOf _ _ _ _
  have hnull : r.withoutNull = r := by rw [Record.withoutNull, hd]
  refine ⟨r.text.toList, r.parsed, ?_, r.parse_text (by simp [hd]),
    r.decode_parsed.trans (congrArg Except.ok hnull)⟩
  have hr : (recordsOf component run clock events)[i]? = some r := by
    rw [recordsOf, List.getElem?_map, List.getElem?_zipIdx, he]
    simp [r]
  rw [logOf, recordLines_text (lines_logOf component run clock events), List.getElem?_map,
    List.getElem?_zipIdx, hr, Option.map_some, Option.map_some, Nat.add_comm]

/-- **The log of any events has one possible fault**, which is in all its traces if it is in one. -/
theorem validateFile_logOf (hc : ':' ∉ component.toList) :
    validateFile (.ok (logOf component run clock events).toUTF8.toList) =
      .ok (events.length,
        if [':', ':'] <:+: run.toList then
          (List.range events.length).map fun i ↦
            ⟨i + 1, .badTrace (traceOf { component, run } (i + 1))⟩
        else []) := by
  have hviolations (p : Record × Nat) (hp : p ∈ (recordsOf component run clock events).zipIdx 1) :
      p.1.violations = if [':', ':'] <:+: run.toList then [.badTrace p.1.trace] else [] := by
    obtain ⟨q, -, hq⟩ := List.mem_map.mp (List.fst_mem_of_mem_zipIdx hp)
    rw [← hq, violations_recordOf _ _ _ _ hc, trace_recordOf]
  rw [logOf, validateFile_toUTF8, validateLog_text (lines_logOf component run clock events)
    (details_of_mem_recordsOf component run clock events), length_recordsOf]
  refine congrArg Except.ok (congrArg (Prod.mk _) ?_)
  by_cases hcolons : [':', ':'] <:+: run.toList
  · have hone (p : Record × Nat) (hp : p ∈ (recordsOf component run clock events).zipIdx 1) :
        p.1.violations.map (Finding.mk p.2) = [⟨p.2, .badTrace p.1.trace⟩] := by
      rw [hviolations p hp, if_pos hcolons]
      rfl
    rw [if_pos hcolons, List.flatMap_congr hone, ← List.map_eq_flatMap]
    refine List.ext_getElem (by simp [length_recordsOf]) fun i _ _ ↦ ?_
    simp [recordsOf, Nat.add_comm]
  · rw [if_neg hcolons, List.flatMap_eq_nil_iff]
    intro p hp
    rw [hviolations p hp, if_neg hcolons]
    rfl

end Journal

/-! ### Events of a probe -/

namespace Registry

/-- A table settles nothing, so that the entries of a fresh registry stay unresolved. -/
theorem state_of_mem_applyLines {keys : List String} (lines : List Table.Line) {e : Entry φ}
    (he : e ∈ ((ofKeys keys : Registry φ).applyLines lines).1.entries) :
    e.state = .unresolved := by
  have hmem : (e.key, e.state) ∈ (ofKeys keys : Registry φ).roster := by
    rw [← roster_applyLines _ lines]
    exact List.mem_map_of_mem he
  rw [roster, ofKeys, List.map_map] at hmem
  obtain ⟨key, -, hkey⟩ := List.mem_map.mp hmem
  exact (congrArg Prod.snd hkey).symm

/-- On a fresh registry, each line of a table is told. -/
theorem length_events_applyLines (keys : List String) (lines : List Table.Line) :
    ((ofKeys keys : Registry φ).applyLines lines).2.length = lines.length := by
  rw [events_applyLines, List.length_filterMap_eq_countP, List.countP_eq_length]
  intro line _
  obtain ⟨-, htold⟩ | ⟨-, _, e, he, -, -, htold⟩ := (ofKeys keys : Registry φ).eventOf?_cases line
  · rw [htold]
    rfl
  · have hu : e.state = .unresolved := state_of_mem_applyLines [] (List.mem_of_getElem? he)
    rw [htold, if_pos hu]
    rfl

/-- Each unresolved entry is told of once when it is settled. -/
theorem length_events_getAll [Loader σ φ] {es : List (Entry φ)}
    (hu : ∀ e ∈ es, e.state = .unresolved) (loader : σ) :
    (getAll es loader).events.length = es.length := by
  induction es generalizing loader with
  | nil => rfl
  | cons e es ih =>
    obtain ⟨he, hes⟩ := List.forall_mem_cons.mp hu
    have hone : (e.get loader).event.toList.length = 1 := by
      rcases hb : e.target.bind loader with ⟨reason | b, loader'⟩
      · rw [Entry.get_of_bind_error he hb]
        rfl
      · rw [Entry.get_of_bind_ok he hb]
        rfl
    rw [getAll, List.length_append, hone, ih hes, List.length_cons, Nat.add_comm]

end Registry

/-- A probe that is not refused tells one event for each line of the table and one for each key. -/
theorem Host.length_events_probe [Loader σ φ] (h : Host σ φ) {keys : List String} (hne : keys ≠ [])
    (hkeys : keys.Nodup) (path : String) (bytes : List UInt8) :
    let step := h.probe keys ⟨path, .ok bytes⟩
    (∃ report, step.result = .ok report) ∧
      step.events.length = (Table.ofBytes h.policy bytes).lines.length + keys.length := by
  let fresh : Host σ φ := { h with registry := .ofKeys keys }
  let t := Table.ofBytes h.policy bytes
  have hinit : fresh.init (some ⟨path, .ok bytes⟩) = (fresh.applyTable t).map .ok :=
    fresh.init_of_validate (Registry.validate_ofKeys hkeys) path bytes
  have hempty : ¬keys.isEmpty = true := by simpa using hne
  let applied := (Registry.ofKeys keys : Registry φ).applyLines t.lines
  have hevents : (h.probe keys ⟨path, .ok bytes⟩).events =
      applied.2 ++ (Registry.getAll applied.1.entries h.loader).events := by
    rw [probe, if_neg hempty]
    dsimp only
    rw [hinit]
    rfl
  refine ⟨?_, ?_⟩
  · rw [probe, if_neg hempty]
    dsimp only
    rw [hinit]
    exact ⟨_, rfl⟩
  · have hentries : applied.1.entries.length = keys.length :=
      (Registry.length_applyLines _ t.lines).trans (List.length_map _)
    have hunresolved (e : Entry φ) (he : e ∈ applied.1.entries) : e.state = .unresolved :=
      Registry.state_of_mem_applyLines t.lines he
    rw [hevents, List.length_append, Registry.length_events_applyLines,
      Registry.length_events_getAll hunresolved, hentries]

/-- The journal of a session records the events that are observed. -/
theorem Session.journal_foldl_observe (events : List Event) (s : Session σ φ) :
    (events.foldl observe s).journal = s.journal.notifyAll (fun _ ↦ s.clock) events := by
  induction events generalizing s with
  | nil => rfl
  | cons e events ih => exact ih (s.observe e)

/-- A session whose observer is attached records the events of a probe. -/
theorem Session.journal_probe [Loader σ φ] {s : Session σ φ} (hs : s.observed = true)
    (keys : List String) (file : TableFile) :
    (s.probe keys file).1 = (s.host.probe keys file).result ∧
      (s.probe keys file).2.journal =
        s.journal.notifyAll (fun _ ↦ s.clock) (s.host.probe keys file).events := by
  refine ⟨rfl, ?_⟩
  rw [probe, visible, if_pos hs]
  exact journal_foldl_observe _ _

/-- **The log of a probe validates.**

Let keys that are distinct be probed with the table in a file that can be read, and each event be
recorded at some reading of the clock. Then the log has a line for each line of the table and each
key, and every line decodes to the record of its event, with its place as the number of its trace.
If the run holds no double colon, nothing is found about the log. If it does, the trace of each line
is found not to have three parts, and nothing else. -/
theorem probe_log_validates [Loader σ φ] (h : Host σ φ) {keys : List String} (hne : keys ≠ [])
    (hkeys : keys.Nodup) (path : String) (bytes : List UInt8) {component : String}
    (hc : ':' ∉ component.toList) (run : String) (clock : Nat → Instant) :
    let step := h.probe keys ⟨path, .ok bytes⟩
    let count := (Table.ofBytes h.policy bytes).lines.length + keys.length
    let log := Journal.logOf component run clock step.events
    let trace (number : Nat) : String := component ++ "::" ++ run ++ "::" ++ padded 3 number
    (∃ report, step.result = .ok report) ∧ step.events.length = count ∧
      (∃ findings, validateFile (.ok log.toUTF8.toList) = .ok (count, findings) ∧
        (findings = [] ↔ ¬[':', ':'] <:+: run.toList) ∧
        ([':', ':'] <:+: run.toList →
          findings.map (fun f ↦ (f.line, f.violation.field)) =
            (List.range count).map fun i ↦ (i + 1, "trace_id"))) ∧
      (∀ i e, step.events[i]? = some e → ∃ line v,
        (recordLines log.toList)[i]? = some (i + 1, line) ∧ Json.parse line = .ok v ∧
          Record.decode v =
            .ok { Record.ofEvent (clock i) e with trace := trace (i + 1) }) ∧
      ∀ s : Session σ φ, s.host = h → s.observed = true → s.journal = { component, run } →
        clock = (fun _ ↦ s.clock) →
        (s.probe keys ⟨path, .ok bytes⟩).1 = step.result ∧
          (s.probe keys ⟨path, .ok bytes⟩).2.journal.sink.text = log := by
  intro step count log trace
  obtain ⟨hok, hlength⟩ := h.length_events_probe hne hkeys path bytes
  have hfile := Journal.validateFile_logOf component run clock step.events hc
  rw [show step.events.length = count from hlength] at hfile
  refine ⟨hok, hlength, ⟨_, hfile, ?_, fun hcolons ↦ ?_⟩,
    fun i e he ↦ Journal.exists_decoded component run clock step.events he, ?_⟩
  · -- There is at least one key, so that a fault shows.
    have hcount : count ≠ 0 := by
      have hpos := List.length_pos_iff.mpr hne
      omega
    by_cases hcolons : [':', ':'] <:+: run.toList
    · simp [hcolons, hcount]
    · simp [hcolons]
  · rw [if_pos hcolons, List.map_map]
    rfl
  · rintro s rfl hobserved hjournal rfl
    obtain ⟨hresult, hprobe⟩ := s.journal_probe hobserved keys ⟨path, .ok bytes⟩
    rw [hresult, hprobe, hjournal]
    exact ⟨rfl, rfl⟩

/-- Of two runs of one probe, the log of the first validates; the other has a fault on each line. -/
theorem probe_log_validates_two_runs :
    let bytes := "sum libsum sum\n".toUTF8.toList
    let start : Host (Catalog Nat) Nat := .fresh [] { modules := [] } .truncate
    let events := (start.probe ["sum"] ⟨"table", .ok bytes⟩).events
    let log (run : String) : List UInt8 :=
      (Journal.logOf "probe" run (fun _ ↦ ⟨0⟩) events).toUTF8.toList
    ["sum"] ≠ [] ∧ ["sum"].Nodup ∧ ':' ∉ "probe".toList ∧
      validateFile (.ok (log "first")) = .ok (2, []) ∧
      ∃ findings, validateFile (.ok (log "second::")) = .ok (2, findings) ∧
        findings.map (fun f ↦ (f.line, f.violation.field)) =
          [(1, "trace_id"), (2, "trace_id")] := by
  intro bytes start events log
  have hne : ["sum"] ≠ [] := by decide
  have hkeys : ["sum"].Nodup := by decide
  have hc : ':' ∉ "probe".toList := by decide
  have hcount : (Table.ofBytes start.policy bytes).lines.length + ["sum"].length = 2 := by
    decide +kernel
  obtain ⟨-, -, ⟨first, hfirst, hclean, -⟩, -⟩ :=
    probe_log_validates start hne hkeys "table" bytes hc "first" fun _ ↦ ⟨0⟩
  obtain ⟨-, -, ⟨second, hsecond, -, hfaults⟩, -⟩ :=
    probe_log_validates start hne hkeys "table" bytes hc "second::" fun _ ↦ ⟨0⟩
  rw [hclean.mpr (by decide +kernel)] at hfirst
  have hlines := hfaults (by decide +kernel)
  rw [hcount] at hfirst hsecond hlines
  exact ⟨hne, hkeys, hc, hfirst, second, hsecond, hlines⟩

end Interpose
