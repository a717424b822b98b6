import Interpose.Proofs.Framing
import Mathlib.Data.List.Nodup

/-!
# The traces of a run

A journal is asked for records in three ways (`Journal.Request`), and what comes of each request is
an **exchange**: the record that was offered to the sink, whether the sink took it, and the answer.
The exchanges of a run are determined by those before them. One in which a trace is asked for is
given the one whose number is one more than there were such exchanges so far, refused or not
(`Exchange.Follows`); any other keeps the trace it came with. This is kept by one request
(`Kept.serve`), since all that a request does is said by one equation (`serve_eq`), and so by a run
(`Kept.serveAll`).

From then on only the list of exchanges matters. A number determines its trace, also beyond three
digits (`traceOf_inj`), so that none is drawn twice. The numbers in the text increase, and the
missing ones are those of refused records (`mem_numbersWritten_iff`). All of it is put together in
`traces_drawn_once`.
-/

namespace Interpose

/-! ### What the text of a record begins with -/

namespace Json

theorem renderMembers_cons_of_ne_nil (m : String × Json) {ms : List (String × Json)}
    (h : ms ≠ []) : renderMembers (m :: ms) = renderMembers [m] ++ ',' :: renderMembers ms := by
  cases ms with
  | nil => contradiction
  | cons n ms => simp [renderMembers]

theorem renderMembers_append_of_ne_nil {ms ns : List (String × Json)} (hms : ms ≠ [])
    (hns : ns ≠ []) : renderMembers (ms ++ ns) = renderMembers ms ++ ',' :: renderMembers ns := by
  induction ms with
  | nil => contradiction
  | cons m ms ih =>
    rw [List.cons_append, renderMembers_cons_of_ne_nil m (by simp [hns])]
    by_cases h : ms = []
    · rw [h, List.nil_append]
    · rw [ih h, renderMembers_cons_of_ne_nil m h, List.append_assoc, List.cons_append]

end Json

/-- **The text of a record begins with its timestamp and its trace.** -/
theorem Record.exists_toList_text (r : Record) : ∃ rest, r.text.toList =
    '\x7b' :: Json.renderMembers
      [("timestamp", .string r.timestamp), ("trace_id", .string r.trace)] ++ ',' :: rest := by
  obtain ⟨ms, hms, hobject⟩ : ∃ ms, ms ≠ [] ∧ r.toJson =
      .object ([("timestamp", .string r.timestamp), ("trace_id", .string r.trace)] ++ ms) :=
    ⟨("level", .string r.level.name) :: _, List.cons_ne_nil _ _, rfl⟩
  rw [text, Json.compact, String.toList_ofList, hobject, Json.render,
    Json.renderMembers_append_of_ne_nil (List.cons_ne_nil _ _) hms]
  exact ⟨Json.renderMembers ms ++ ['\x7d'], by simp⟩

namespace Journal

/-! ### Requests -/

/-- What a journal is asked to write. -/
inductive Request
  /-- A record of the required fields. -/
  | bare (now : Instant) (level : Level) (name : String)
  /-- A record, with or without a trace. -/
  | record (r : Record)
  /-- The record of an event. -/
  | event (now : Instant) (e : Event)

namespace Request

/-- The record that is asked for, before it is stamped. -/
def draft : Request → Record
  | bare now level name => .bare now "" level name
  | record r => r
  | event now e => .ofEvent now e

/-- Whether a trace is asked for. -/
def isAutomatic (q : Request) : Bool := q.draft.trace = ""

/-- Whether a refusal is counted instead of being answered. -/
def isEvent : Request → Bool
  | event .. => true
  | _ => false

/-- The answer to a request whose record was taken by the sink or not. -/
def answer (q : Request) (r : Record) (taken : Bool) : Except FileError (Option Record) :=
  match q with
  | bare .. => if taken then .ok (some r) else .error .full
  | record _ => if taken then .ok none else .error .full
  | event .. => .ok none

end Request

/-- The answer to a request, with the record if it is returned, and the journal after it. -/
def serve (j : Journal) : Request → Except FileError (Option Record) × Journal
  | .bare now level name =>
    let (written, next) := j.emitBare now level name
    (written.map some, next)
  | .record r =>
    let (written, next) := j.emit r
    (written.map fun _ ↦ none, next)
  | .event now e => (.ok none, j.notify now e)

/-- The journal after requests in order. -/
def serveAll (j : Journal) (requests : List Request) : Journal :=
  requests.foldl (fun j q ↦ (j.serve q).2) j

/-- A request with what came of it. -/
structure Exchange where
  request : Request
  /-- The record that was offered to the sink. -/
  record : Record
  /-- Whether the sink took it. -/
  taken : Bool
  answer : Except FileError (Option Record)

/-- Whether the sink takes the next line. -/
def takes (j : Journal) : Bool := j.sink.admits j.sink.offered j.sink.lines.size

/-- What comes of a request. -/
def exchange (j : Journal) (q : Request) : Exchange where
  request := q
  record := (j.stamp q.draft).1
  taken := j.takes
  answer := (j.serve q).1

/-- What comes of requests in order. -/
def exchanges (j : Journal) : List Request → List Exchange
  | [] => []
  | q :: requests => j.exchange q :: (j.serve q).2.exchanges requests

/-! ### One request -/

theorem offer_eq (j : Journal) (line : String) :
    j.sink.offer line =
      (j.takes, { j.sink with
        offered := j.sink.offered + 1
        lines := if j.takes then j.sink.lines.push line else j.sink.lines }) := by
  rw [Sink.offer, takes]
  split <;> simp_all

/-- A record is written or refused, and is offered to the sink in either case. -/
theorem write_eq (j : Journal) (r : Record) :
    j.write r = (if j.takes then .ok () else .error .full,
      { j with sink := (j.sink.offer r.text).2 }) := by
  rw [write, offer_eq]

/-- A record without a trace draws the next one, also if the sink refuses the record. -/
theorem emit_eq (j : Journal) (r : Record) :
    j.emit r = (if j.takes then .ok () else .error .full,
      { j with
        drawn := if r.trace = "" then j.drawn + 1 else j.drawn
        sink := (j.sink.offer (j.stamp r).1.text).2 }) := by
  show (j.stamp r).2.write (j.stamp r).1 = _
  rw [write_eq, stamp]
  split <;> rfl

/-- A record of the required fields is emitted as one without a trace, and is returned with it. -/
theorem emitBare_eq (j : Journal) (now : Instant) (level : Level) (name : String) :
    j.emitBare now level name =
      ((j.emit (.bare now "" level name)).1.map fun _ ↦ (j.stamp (.bare now "" level name)).1,
        (j.emit (.bare now "" level name)).2) :=
  rfl

/-- **What a request does to a journal,** and how it is answered. -/
theorem serve_eq (j : Journal) (q : Request) :
    j.serve q =
      (q.answer (j.stamp q.draft).1 j.takes,
        { j with
          drawn := if q.isAutomatic then j.drawn + 1 else j.drawn
          sink := (j.sink.offer (j.stamp q.draft).1.text).2
          refused := if q.isEvent && !j.takes then j.refused + 1 else j.refused }) := by
  have hdrawn : (if q.isAutomatic then j.drawn + 1 else j.drawn) =
      if q.draft.trace = "" then j.drawn + 1 else j.drawn := by
    simp [Request.isAutomatic]
  rw [hdrawn]
  cases q with
  | bare now level name =>
    rw [serve, emitBare_eq, emit_eq, Request.answer]
    cases j.takes <;> rfl
  | record r =>
    rw [serve, emit_eq, Request.answer]
    cases j.takes <;> rfl
  | event now e =>
    rw [serve, notify, emit_eq, Request.answer]
    cases j.takes <;> rfl

/-- A trace that is there already is kept. -/
theorem fst_stamp (j : Journal) (r : Record) :
    (j.stamp r).1 = if r.trace = "" then { r with trace := j.traceOf (j.drawn + 1) } else r := by
  rw [stamp]
  split <;> rfl

/-! ### Numbers -/

/-- Traces differ in their numbers. -/
theorem traceOf_inj {j : Journal} {m n : ℕ} : j.traceOf m = j.traceOf n ↔ m = n := by
  rw [traceOf, traceOf, String.append_right_inj, padded_inj]

/-! ### Requests in order -/

/-- The exchanges in which a trace is asked for. -/
def automatic (es : List Exchange) : List Exchange := es.filter (·.request.isAutomatic)

theorem automatic_cons (e : Exchange) (es : List Exchange) :
    automatic (e :: es) = if e.request.isAutomatic then e :: automatic es else automatic es :=
  List.filter_cons

theorem automatic_append (es fs : List Exchange) :
    automatic (es ++ fs) = automatic es ++ automatic fs :=
  List.filter_append es fs

/-- The exchanges whose record was taken by the sink. -/
def admitted (es : List Exchange) : List Exchange := es.filter (·.taken)

/-- What comes of a request to a fresh journal after some exchanges: if it asks for a trace, it is
given the one whose number is one more than there were such requests before it. -/
structure Exchange.Follows (start : Journal) (before : List Exchange) (e : Exchange) : Prop where
  record : e.record =
    if e.request.isAutomatic then
      { e.request.draft with trace := start.traceOf ((automatic before).length + 1) }
    else e.request.draft
  taken : e.taken = start.sink.admits before.length (admitted before).length
  answer : e.answer = e.request.answer e.record e.taken

/-- What is known of a journal that began afresh, after some exchanges. -/
structure Kept (start : Journal) (es : List Exchange) (j : Journal) : Prop where
  traceOf : j.traceOf = start.traceOf
  admits : j.sink.admits = start.sink.admits
  drawn : j.drawn = (automatic es).length
  offered : j.sink.offered = es.length
  lines : j.sink.lines.toList = (admitted es).map (·.record.text)
  refused : j.refused = es.countP fun e ↦ e.request.isEvent && !e.taken
  follows : ∀ before e after, es = before ++ e :: after → e.Follows start before

variable {start j : Journal} {es : List Exchange}

/-- A fresh journal has drawn nothing. -/
theorem kept_fresh (component run : String) (admits : (offered taken : ℕ) → Bool) :
    let start : Journal := { component, run, sink := { admits } }
    Kept start [] start := by
  refine ⟨rfl, rfl, rfl, rfl, rfl, rfl, fun before e after h ↦ ?_⟩
  simp at h

/-- What comes of the next request is told by the exchanges before it. -/
theorem Kept.exchange_follows (h : Kept start es j) (q : Request) :
    (j.exchange q).Follows start es := by
  have hsize : j.sink.lines.size = (admitted es).length := by
    rw [← Array.length_toList, h.lines, List.length_map]
  refine ⟨?_, ?_, ?_⟩
  · show (j.stamp q.draft).1 = if q.isAutomatic then _ else _
    rw [fst_stamp, h.traceOf, h.drawn]
    simp [Request.isAutomatic, exchange]
  · show j.takes = _
    rw [takes, h.admits, h.offered, hsize]
  · show (j.serve q).1 = _
    rw [serve_eq]
    rfl

/-- **One request.** -/
theorem Kept.serve (h : Kept start es j) (q : Request) :
    Kept start (es ++ [j.exchange q]) (j.serve q).2 := by
  have hrequest : (j.exchange q).request = q := rfl
  have htaken : (j.exchange q).taken = j.takes := rfl
  rw [serve_eq, offer_eq]
  refine ⟨h.traceOf, h.admits, ?_, ?_, ?_, ?_, fun before e after heq ↦ ?_⟩
  · show (if q.isAutomatic then j.drawn + 1 else j.drawn) = _
    rw [automatic_append, automatic_cons, hrequest, h.drawn]
    cases q.isAutomatic <;> simp [automatic]
  · show j.sink.offered + 1 = _
    rw [List.length_append, h.offered, List.length_singleton]
  · show (if j.takes then j.sink.lines.push (j.exchange q).record.text else _).toList = _
    rw [admitted, List.filter_append, List.filter_singleton, htaken]
    cases j.takes <;> simp [h.lines, admitted]
  · show (if q.isEvent && !j.takes then j.refused + 1 else j.refused) = _
    rw [List.countP_append, List.countP_singleton, hrequest, htaken, h.refused]
    cases q.isEvent && !j.takes <;> rfl
  · obtain rfl | ⟨after, last, rfl⟩ := after.eq_nil_or_concat'
    · -- The last exchange is the one that was just made.
      obtain ⟨rfl, hlast⟩ := List.append_inj' heq rfl
      obtain rfl := List.singleton_inj.1 hlast
      exact h.exchange_follows q
    · rw [← List.cons_append, ← List.append_assoc] at heq
      exact h.follows before e after (List.append_inj' heq rfl).1

/-- **A run.** -/
theorem Kept.serveAll (h : Kept start es j) (requests : List Request) :
    Kept start (es ++ j.exchanges requests) (j.serveAll requests) := by
  induction requests generalizing es j with
  | nil => simpa [exchanges, Journal.serveAll] using h
  | cons q requests ih =>
    have hmore := ih (h.serve q)
    rwa [List.append_assoc, List.singleton_append] at hmore

/-! ### Numbers of exchanges -/

/-- The exchanges in which a trace is asked for, each with the number of its trace. -/
def numbered (es : List Exchange) : List (Exchange × ℕ) := (automatic es).zipIdx 1

/-- The number of an exchange is one more than there are before it, if the first number is one. -/
theorem mem_zipIdx_automatic {e : Exchange} {k n : ℕ} :
    (e, n) ∈ (automatic es).zipIdx k ↔ ∃ before after,
      es = before ++ e :: after ∧ e.request.isAutomatic ∧ n = (automatic before).length + k := by
  constructor
  · intro hmem
    induction es generalizing k with
    | nil => simp [automatic] at hmem
    | cons f es ih =>
      rw [automatic_cons] at hmem
      split at hmem
      next hf =>
        rw [List.zipIdx_cons, List.mem_cons] at hmem
        obtain heq | hmem := hmem
        · obtain ⟨rfl, rfl⟩ := Prod.mk.inj heq
          exact ⟨[], es, rfl, hf, (Nat.zero_add _).symm⟩
        · obtain ⟨before, after, rfl, he, rfl⟩ := ih hmem
          refine ⟨f :: before, after, rfl, he, ?_⟩
          rw [automatic_cons, if_pos hf, List.length_cons]
          omega
      next hf =>
        obtain ⟨before, after, rfl, he, rfl⟩ := ih hmem
        refine ⟨f :: before, after, rfl, he, ?_⟩
        rw [automatic_cons, if_neg hf]
  · rintro ⟨before, after, rfl, he, rfl⟩
    rw [automatic_append, automatic_cons, if_pos he, List.zipIdx_append, List.zipIdx_cons]
    simp [Nat.add_comm]

/-- No two exchanges share a number. -/
theorem numbered_unique {e f : Exchange} {n : ℕ} (he : (e, n) ∈ numbered es)
    (hf : (f, n) ∈ numbered es) : e = f := by
  rw [numbered, List.mk_mem_zipIdx_iff_le_and_getElem?_sub] at he hf
  exact Option.some.inj (he.2.symm.trans hf.2)

/-- The numbers are those from one up to how often a trace was asked for. -/
theorem exists_mem_numbered_iff {n : ℕ} :
    (∃ e, (e, n) ∈ numbered es) ↔ n ∈ List.range' 1 (automatic es).length := by
  rw [← List.zipIdx_map_snd 1 (automatic es), List.mem_map]
  exact ⟨fun ⟨e, he⟩ ↦ ⟨(e, n), he, rfl⟩, fun ⟨⟨e, _⟩, he, hn⟩ ↦ ⟨e, hn ▸ he⟩⟩

/-- A trace that was asked for is the one with its number. -/
theorem Kept.trace_of_mem_numbered (h : Kept start es j) {e : Exchange} {n : ℕ}
    (he : (e, n) ∈ numbered es) : e.record.trace = start.traceOf n := by
  obtain ⟨before, after, heq, hauto, rfl⟩ := mem_zipIdx_automatic.1 he
  rw [(h.follows before e after heq).record, if_pos hauto]

/-- **No trace is drawn twice.** -/
theorem Kept.nodup_trace (h : Kept start es j) :
    ((automatic es).map (·.record.trace)).Nodup := by
  have htraces : (automatic es).map (·.record.trace) =
      (List.range' 1 (automatic es).length).map start.traceOf :=
    calc (automatic es).map (·.record.trace)
      _ = (numbered es).map (·.1.record.trace) := by
        rw [← List.zipIdx_map_fst 1 (automatic es), List.map_map]
        rfl
      _ = (numbered es).map (start.traceOf ·.2) :=
        List.map_congr_left fun _ he ↦ h.trace_of_mem_numbered he
      _ = _ := by
        rw [← List.zipIdx_map_snd 1 (automatic es), List.map_map]
        rfl
  have hnumbers : (List.range' 1 (automatic es).length).Nodup := List.nodup_range'
  rw [htraces]
  exact hnumbers.map fun m n hmn ↦ traceOf_inj.1 hmn

/-- The numbers of the traces that were drawn and written. -/
def numbersWritten (es : List Exchange) : List ℕ :=
  ((numbered es).filter (·.1.taken)).map (·.2)

/-- Numbers that were written increase, because numbers that were drawn do. -/
theorem pairwise_numbersWritten (es : List Exchange) : (numbersWritten es).Pairwise (· < ·) := by
  have hsub : (numbersWritten es).Sublist (List.range' 1 (automatic es).length) := by
    rw [← List.zipIdx_map_snd 1 (automatic es)]
    exact List.filter_sublist.map _
  exact (List.pairwise_lt_range' ..).sublist hsub

theorem mem_numbersWritten {n : ℕ} :
    n ∈ numbersWritten es ↔ ∃ e, (e, n) ∈ numbered es ∧ e.taken := by
  simp [numbersWritten]

/-- The numbers that are missing are those of the exchanges whose record was refused. -/
theorem mem_numbersWritten_iff {n : ℕ} :
    n ∈ numbersWritten es ↔ n ∈ List.range' 1 (automatic es).length ∧
      ¬∃ before e after, es = before ++ e :: after ∧ e.request.isAutomatic ∧ e.taken = false ∧
        n = (automatic before).length + 1 := by
  rw [mem_numbersWritten, ← exists_mem_numbered_iff]
  constructor
  · rintro ⟨e, he, htaken⟩
    refine ⟨⟨e, he⟩, ?_⟩
    rintro ⟨before, f, after, heq, hauto, hrefused, hn⟩
    have hf : (f, n) ∈ numbered es := mem_zipIdx_automatic.2 ⟨before, after, heq, hauto, hn⟩
    rw [numbered_unique hf he, htaken] at hrefused
    contradiction
  · rintro ⟨⟨e, he⟩, hno⟩
    refine ⟨e, he, by_contra fun hrefused ↦ hno ?_⟩
    obtain ⟨before, after, heq, hauto, hn⟩ := mem_zipIdx_automatic.1 he
    exact ⟨before, e, after, heq, hauto, Bool.not_eq_true _ ▸ hrefused, hn⟩

/-- The traces that were asked for and written are those of the numbers. -/
theorem Kept.map_trace_written (h : Kept start es j) :
    (automatic (admitted es)).map (·.record.trace) = (numbersWritten es).map start.traceOf := by
  have hswap : automatic (admitted es) = ((numbered es).filter (·.1.taken)).map (·.1) := by
    rw [numbered, ← Function.comp_def (f := Exchange.taken), ← List.filter_map,
      List.zipIdx_map_fst, automatic, automatic, admitted, List.filter_comm]
  rw [hswap, numbersWritten, List.map_map, List.map_map]
  exact List.map_congr_left fun p hp ↦ h.trace_of_mem_numbered (List.mem_of_mem_filter hp)

/-- Every request comes to something, in order. -/
theorem map_request_exchanges (j : Journal) (requests : List Request) :
    (j.exchanges requests).map (·.request) = requests := by
  induction requests generalizing j with
  | nil => rfl
  | cons q requests ih => exact congrArg (q :: ·) (ih (j.serve q).2)

/-- **Traces are drawn once, whatever is refused.**

Let a fresh journal be asked for records, with or without a trace, and let its sink take or refuse
each of them as it likes. There is an exchange for each request, in order. The trace of the n-th one
that asks for a trace ends in the number n, whether its record is taken or not. A record that comes
with a trace is offered as it came, and draws no number. So no two of the drawn traces are equal.

The lines of the text are the records that were taken, numbered from one, and each begins with its
timestamp and its trace. Among them the drawn traces have increasing numbers, and of those from one
to the number of traces drawn, just those are missing whose record was refused. Refusals are
answered, or counted if the record is that of an event. -/
theorem traces_drawn_once (component run : String) (admits : (offered taken : ℕ) → Bool)
    (requests : List Request) :
    let start : Journal := { component, run, sink := { admits } }
    let trace (n : ℕ) : String := component ++ "::" ++ run ++ "::" ++ padded 3 n
    let es := start.exchanges requests
    let last := start.serveAll requests
    es.map (·.request) = requests ∧
      (∀ before e after, es = before ++ e :: after →
        e.record = (if e.request.isAutomatic then
            { e.request.draft with trace := trace ((automatic before).length + 1) }
          else e.request.draft) ∧
        e.taken = admits before.length (admitted before).length ∧
        e.answer = e.request.answer e.record e.taken) ∧
      ((automatic es).map (·.record.trace)).Nodup ∧
      (∃ numbers : List ℕ, numbers.Pairwise (· < ·) ∧
        (automatic (admitted es)).map (·.record.trace) = numbers.map trace ∧
        ∀ n, n ∈ numbers ↔ n ∈ List.range' 1 (automatic es).length ∧
          ¬∃ before e after, es = before ++ e :: after ∧ e.request.isAutomatic ∧
            e.taken = false ∧ n = (automatic before).length + 1) ∧
      recordLines last.sink.text.toList =
        ((admitted es).zipIdx 1).map (fun p ↦ (p.2, p.1.record.text.toList)) ∧
      (∀ e ∈ es, ∃ rest, e.record.text.toList = '\x7b' :: Json.renderMembers
        [("timestamp", .string e.record.timestamp), ("trace_id", .string e.record.trace)] ++
          ',' :: rest) ∧
      last.drawn = (automatic es).length ∧
      last.refused = es.countP fun e ↦ e.request.isEvent && !e.taken := by
  intro start trace es last
  have hkept : Kept start es last := (kept_fresh component run admits).serveAll requests
  refine ⟨start.map_request_exchanges requests, fun before e after heq ↦ ?_, hkept.nodup_trace,
    ⟨numbersWritten es, pairwise_numbersWritten es, hkept.map_trace_written,
      fun n ↦ mem_numbersWritten_iff⟩, ?_, fun e _ ↦ e.record.exists_toList_text, hkept.drawn,
    hkept.refused⟩
  · have hfollows := hkept.follows before e after heq
    exact ⟨hfollows.record, hfollows.taken, hfollows.answer⟩
  · have hlines : last.sink.lines.toList = ((admitted es).map (·.record)).map Record.text := by
      rw [hkept.lines, List.map_map]
      rfl
    rw [recordLines_text hlines, List.zipIdx_map, List.map_map]
    rfl

/-- Of four records the second is refused, and the third comes with a trace. -/
theorem traces_drawn_once_gap :
    let requests : List Request :=
      [.bare ⟨0⟩ .info "begin", .bare ⟨0⟩ .warn "lost", .record (.bare ⟨0⟩ "own" .info "kept"),
        .record (.bare ⟨0⟩ "" .info "end")]
    let start : Journal :=
      { component := "probe", run := "first", sink := { admits := fun offered _ ↦ offered ≠ 1 } }
    let es := start.exchanges requests
    (automatic es).map (·.record.trace) =
        ["probe::first::001", "probe::first::002", "probe::first::003"] ∧
      ((automatic es).map (·.record.trace)).Nodup ∧
      (∃ numbers : List ℕ, numbers.Pairwise (· < ·) ∧ 2 ∉ numbers ∧
        numbers.map start.traceOf = ["probe::first::001", "probe::first::003"]) ∧
      (admitted es).map (·.record.trace) = ["probe::first::001", "own", "probe::first::003"] ∧
      (start.serveAll requests).drawn = 3 := by
  intro requests start es
  obtain ⟨-, -, hnodup, ⟨numbers, hpairwise, htraces, hnumbers⟩, -, -, hdrawn, -⟩ :=
    traces_drawn_once "probe" "first" (fun offered _ ↦ offered ≠ 1) requests
  refine ⟨by decide +kernel, hnodup, ⟨numbers, hpairwise, fun h ↦ ?_, ?_⟩, by decide +kernel,
    hdrawn.trans (by decide +kernel)⟩
  · exact ((hnumbers 2).1 h).2 ⟨[_], _, [_, _], rfl, by decide +kernel, by decide +kernel,
      by decide +kernel⟩
  · exact htraces.symm.trans (by decide +kernel)

end Journal

end Interpose
