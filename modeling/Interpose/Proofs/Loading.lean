import Interpose.Proofs.Lines
import Interpose.Proofs.ParsedLines

/-!
# Loading is local to lines

What a line of a file comes to is up to the bytes of that line (`Table.load_line_by_line`). Bytes
that are no text, words that are too long and lines of too many words show on their own line, and
move no other. A file that is appended to one with whole lines is read as it is alone, with numbers
that go on from there.

All of this is read off the rows of a file (`Text.lines_decodeLossy`): the table of a file lists
what its rows say, each under its number (`Table.mem_lines_ofBytes`, `Table.mem_skipped_ofBytes`).
-/

namespace Interpose

namespace Text

theorem zipIdx_add {α : Type} (l : List α) (k n : Nat) :
    l.zipIdx (k + n) = (l.zipIdx k).map fun p ↦ (p.1, p.2 + n) := by
  induction l generalizing k with
  | nil => rfl
  | cons a l ih =>
    rw [List.zipIdx_cons, List.zipIdx_cons, List.map_cons, Nat.add_right_comm, ih]

/-- The lines of a second text are numbered on from those of the first. -/
theorem numberedLines_append {s t u : List Char} (h : lines u = lines s ++ lines t) :
    numberedLines u = numberedLines s ++
      (numberedLines t).map fun l ↦ (l.1 + (lines s).length, l.2) := by
  simp only [numberedLines, h, List.zipIdx_append, zipIdx_add, List.map_append, List.map_map]
  rfl

/-- What is made of the numbered lines of a file is made of its rows, each with its place. -/
theorem mem_filterMap_numberedLines {α : Type} {f : Nat × List Char → Option α} {bs : List UInt8}
    {x : α} : x ∈ (numberedLines (Utf8.decodeLossy bs)).filterMap f ↔
      ∃ i row, (rows bs)[i]? = some row ∧ f (i + 1, rowLine row) = some x := by
  simp only [numberedLines, lines_decodeLossy, List.mem_filterMap, List.mem_map]
  constructor
  · rintro ⟨_, ⟨⟨l, n⟩, hmem, rfl⟩, hx⟩
    obtain ⟨hle, hget⟩ := List.mk_mem_zipIdx_iff_le_and_getElem?_sub.1 hmem
    rw [List.getElem?_map] at hget
    obtain ⟨row, hrow, rfl⟩ := Option.map_eq_some_iff.1 hget
    exact ⟨n - 1, row, hrow, by rwa [Nat.sub_add_cancel hle]⟩
  · rintro ⟨i, row, hrow, hx⟩
    refine ⟨_, ⟨(rowLine row, i + 1), ?_, rfl⟩, hx⟩
    rw [List.mk_mem_zipIdx_iff_le_and_getElem?_sub, Nat.add_sub_cancel, List.getElem?_map, hrow]
    exact ⟨Nat.le_add_left 1 i, rfl⟩

end Text

namespace Table

variable {policy : NamePolicy}

/-- A line as it is numbered when others come before it. -/
def Line.down (n : Nat) (l : Line) : Line := { l with number := l.number + n }

/-- A skipped line as it is numbered when lines come before it. -/
def Skip.down (n : Nat) (s : Skip) : Skip := { s with number := s.number + n }

/-- What a line says does not depend on its number. -/
theorem Line.of?_down (n : Nat) (l : Nat × List Char) :
    Line.of? policy (l.1 + n, l.2) = (Line.of? policy l).map (Line.down n) := by
  simp only [Line.of?]
  cases parseLine policy l.2 <;> rfl

theorem Skip.of?_down (n : Nat) (l : Nat × List Char) :
    Skip.of? policy (l.1 + n, l.2) = (Skip.of? policy l).map (Skip.down n) := by
  simp only [Skip.of?]
  split <;> simp_all [Skip.down]

/-- **A file behind whole lines is read as it is alone**, with numbers that go on from theirs. -/
theorem ofBytes_append {a : List UInt8} (h : Text.Ended a) (b : List UInt8) :
    ofBytes policy (a ++ b) =
      { lines := (ofBytes policy a).lines ++
          (ofBytes policy b).lines.map (Line.down (a.count 0x0A))
        skipped := (ofBytes policy a).skipped ++
          (ofBytes policy b).skipped.map (Skip.down (a.count 0x0A)) } := by
  have hlines : Text.lines (Text.Utf8.decodeLossy (a ++ b)) =
      Text.lines (Text.Utf8.decodeLossy a) ++ Text.lines (Text.Utf8.decodeLossy b) := by
    rw [Text.lines_decodeLossy, Text.rows_append h, List.map_append, ← Text.lines_decodeLossy,
      ← Text.lines_decodeLossy]
  have hcount : (Text.lines (Text.Utf8.decodeLossy a)).length = a.count 0x0A := by
    rw [Text.lines_decodeLossy, List.length_map, Text.length_rows h]
  simp only [ofBytes, parse, Text.numberedLines_append hlines, hcount, List.filterMap_append,
    List.filterMap_map, List.map_filterMap, Function.comp_def, Line.of?_down, Skip.of?_down]

/-- What the bytes of a row say. -/
def readRow (policy : NamePolicy) (row : List UInt8) : Except SkipReason Assignment :=
  parseLine policy (Text.rowLine row)

/-- **The lines of a table** are the rows that say an assignment, each with its place. -/
theorem mem_lines_ofBytes {bs : List UInt8} {l : Line} :
    l ∈ (ofBytes policy bs).lines ↔ ∃ i row, (Text.rows bs)[i]? = some row ∧
      l.number = i + 1 ∧ readRow policy row = .ok l.assignment := by
  rw [ofBytes, parse, Text.mem_filterMap_numberedLines]
  simp only [Line.of?_eq_some_iff, readRow]

/-- **The lines that are skipped** are the rows that say none, apart from blank ones. -/
theorem mem_skipped_ofBytes {bs : List UInt8} {s : Skip} :
    s ∈ (ofBytes policy bs).skipped ↔ ∃ i row, (Text.rows bs)[i]? = some row ∧
      s.number = i + 1 ∧ readRow policy row = .error s.reason ∧ s.reason ≠ .blank := by
  rw [ofBytes, parse, Text.mem_filterMap_numberedLines]
  simp only [Skip.of?_eq_some_iff, readRow]

/-- What a table has under a number, given what the row of that number says. -/
inductive Shows (t : Table) (number : Nat) : Except SkipReason Assignment → Prop
  /-- An assignment is among the lines, and nothing was skipped. -/
  | parsed (a : Assignment) (line : ⟨number, a⟩ ∈ t.lines)
    (skipped : ∀ s ∈ t.skipped, s.number ≠ number) : Shows t number (.ok a)
  /-- The row was skipped for a reason, and there is no line. -/
  | skipped (reason : SkipReason) (hreason : reason ≠ .blank) (skip : ⟨number, reason⟩ ∈ t.skipped)
    (lines : ∀ l ∈ t.lines, l.number ≠ number) : Shows t number (.error reason)
  /-- There is nothing. -/
  | blank (lines : ∀ l ∈ t.lines, l.number ≠ number)
    (skipped : ∀ s ∈ t.skipped, s.number ≠ number) : Shows t number (.error .blank)

/-- **A line of a file is in one place**, and its own bytes decide in which. -/
theorem shows_ofBytes {bs row : List UInt8} {i : Nat} (hrow : (Text.rows bs)[i]? = some row) :
    (ofBytes policy bs).Shows (i + 1) (readRow policy row) := by
  have hline {l : Line} (hl : l ∈ (ofBytes policy bs).lines) (hn : l.number = i + 1) :
      readRow policy row = .ok l.assignment := by
    obtain ⟨j, row', hrow', hj, hread⟩ := mem_lines_ofBytes.1 hl
    obtain rfl : i = j := Nat.succ.inj (hn.symm.trans hj)
    obtain rfl := Option.some.inj (hrow.symm.trans hrow')
    exact hread
  have hskip {s : Skip} (hs : s ∈ (ofBytes policy bs).skipped) (hn : s.number = i + 1) :
      readRow policy row = .error s.reason ∧ s.reason ≠ .blank := by
    obtain ⟨j, row', hrow', hj, hread⟩ := mem_skipped_ofBytes.1 hs
    obtain rfl : i = j := Nat.succ.inj (hn.symm.trans hj)
    obtain rfl := Option.some.inj (hrow.symm.trans hrow')
    exact hread
  cases hread : readRow policy row with
  | ok a =>
    refine .parsed a (mem_lines_ofBytes.2 ⟨i, row, hrow, rfl, hread⟩) fun s hs hn ↦ ?_
    cases hread.symm.trans (hskip hs hn).1
  | error reason =>
    have hlines : ∀ l ∈ (ofBytes policy bs).lines, l.number ≠ i + 1 := fun l hl hn ↦ by
      cases hread.symm.trans (hline hl hn)
    by_cases hreason : reason = .blank
    · subst hreason
      refine .blank hlines fun s hs hn ↦ ?_
      obtain ⟨hs, hne⟩ := hskip hs hn
      exact hne (Except.error.inj (hs.symm.trans hread))
    · exact .skipped reason hreason
        (mem_skipped_ofBytes.2 ⟨i, row, hrow, rfl, hread, hreason⟩) hlines

/-- Another line in place of one changes nothing under the other numbers. -/
theorem ofBytes_replace {a r r' : List UInt8} (ha : Text.Ended a) (hr : 0x0A ∉ r)
    (hr' : 0x0A ∉ r') (b : List UInt8) :
    (∀ l : Line, l.number ≠ a.count 0x0A + 1 →
      (l ∈ (ofBytes policy (a ++ (r ++ 0x0A :: b))).lines ↔
        l ∈ (ofBytes policy (a ++ (r' ++ 0x0A :: b))).lines)) ∧
    ∀ s : Skip, s.number ≠ a.count 0x0A + 1 →
      (s ∈ (ofBytes policy (a ++ (r ++ 0x0A :: b))).skipped ↔
        s ∈ (ofBytes policy (a ++ (r' ++ 0x0A :: b))).skipped) := by
  have hrow {i n : Nat} (hn : n ≠ a.count 0x0A + 1) (hi : n = i + 1) :
      (Text.rows (a ++ (r ++ 0x0A :: b)))[i]? = (Text.rows (a ++ (r' ++ 0x0A :: b)))[i]? :=
    Text.getElem?_rows_replace ha hr hr' b (by omega)
  refine ⟨fun l hl ↦ ?_, fun s hs ↦ ?_⟩
  · simp only [mem_lines_ofBytes]
    refine exists_congr fun i ↦ exists_congr fun row ↦ and_congr_left fun ⟨hi, _⟩ ↦ ?_
    rw [hrow hl hi]
  · simp only [mem_skipped_ofBytes]
    refine exists_congr fun i ↦ exists_congr fun row ↦ and_congr_left fun ⟨hi, _⟩ ↦ ?_
    rw [hrow hs hi]

/-- **Loading is local to lines**, whatever bytes a file has and whatever the policy.

* A file behind one that is empty or ends with a line feed is read as it is alone. Only its numbers
  go on, from the number of line feeds before it.
* Where one line is replaced by another, nothing changes for the other numbers.
* A line of a file is in one place, which its own bytes decide: it is among the assignments, or it
  is skipped for a reason, or it is blank and in neither list. There is nothing else in the lists,
  and their numbers increase. -/
theorem load_line_by_line (policy : NamePolicy) (path : String) :
    (∀ a b : List UInt8, a = [] ∨ a.getLast? = some 0x0A → ∃ ta tb,
      load policy ⟨path, .ok a⟩ = .ok ta ∧ load policy ⟨path, .ok b⟩ = .ok tb ∧
        load policy ⟨path, .ok (a ++ b)⟩ = .ok
          { lines := ta.lines ++ tb.lines.map (Line.down (a.count 0x0A))
            skipped := ta.skipped ++ tb.skipped.map (Skip.down (a.count 0x0A)) }) ∧
    (∀ a r r' b : List UInt8, a = [] ∨ a.getLast? = some 0x0A → 0x0A ∉ r → 0x0A ∉ r' → ∃ t t',
      load policy ⟨path, .ok (a ++ (r ++ 0x0A :: b))⟩ = .ok t ∧
        load policy ⟨path, .ok (a ++ (r' ++ 0x0A :: b))⟩ = .ok t' ∧
        (∀ l, l.number ≠ a.count 0x0A + 1 → (l ∈ t.lines ↔ l ∈ t'.lines)) ∧
        ∀ s, s.number ≠ a.count 0x0A + 1 → (s ∈ t.skipped ↔ s ∈ t'.skipped)) ∧
    ∀ bytes : List UInt8, ∃ t, load policy ⟨path, .ok bytes⟩ = .ok t ∧
      (∀ i row, (Text.rows bytes)[i]? = some row → t.Shows (i + 1) (readRow policy row)) ∧
      (∀ l ∈ t.lines, 1 ≤ l.number ∧ l.number ≤ (Text.rows bytes).length) ∧
      (∀ s ∈ t.skipped, 1 ≤ s.number ∧ s.number ≤ (Text.rows bytes).length) ∧
      t.lines.Pairwise (·.number < ·.number) ∧ t.skipped.Pairwise (·.number < ·.number) := by
  refine ⟨fun a b ha ↦ ⟨_, _, rfl, rfl, congrArg Except.ok (ofBytes_append ha b)⟩,
    fun a r r' b ha hr hr' ↦ ⟨_, _, rfl, rfl, ofBytes_replace ha hr hr' b⟩,
    fun bytes ↦ ⟨_, rfl, fun i row ↦ shows_ofBytes, fun l hl ↦ ?_, fun s hs ↦ ?_,
      pairwise_lines_parse _, pairwise_skipped_parse _⟩⟩
  · obtain ⟨i, row, hrow, hn, -⟩ := mem_lines_ofBytes.1 hl
    obtain ⟨hlt, -⟩ := List.getElem?_eq_some_iff.1 hrow
    omega
  · obtain ⟨i, row, hrow, hn, -⟩ := mem_skipped_ofBytes.1 hs
    obtain ⟨hlt, -⟩ := List.getElem?_eq_some_iff.1 hrow
    omega

/-- A character that breaks off at the end of a row does no harm to the next row. -/
theorem load_line_by_line_corrupt :
    let a : List UInt8 := [0xE2, 0x82, 0x0A]
    let b : List UInt8 := "k l s".toUTF8.toList
    (a = [] ∨ a.getLast? = some 0x0A) ∧
      load .truncate ⟨"t", .ok (a ++ b)⟩ =
        .ok ⟨[⟨2, ⟨"k", "l", "s"⟩⟩], [⟨1, .wordCount 1⟩]⟩ := by
  intro a b
  have ha : a = [] ∨ a.getLast? = some 0x0A := .inr rfl
  obtain ⟨ta, tb, hta, htb, hload⟩ := (load_line_by_line .truncate "t").1 a b ha
  have hta' : ta = ⟨[], [⟨1, .wordCount 1⟩]⟩ := Except.ok.inj (hta.symm.trans (by decide +kernel))
  have htb' : tb = ⟨[⟨1, ⟨"k", "l", "s"⟩⟩], []⟩ :=
    Except.ok.inj (htb.symm.trans (by decide +kernel))
  rw [hta', htb'] at hload
  exact ⟨ha, hload⟩

end Table

end Interpose
