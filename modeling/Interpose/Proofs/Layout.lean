import Interpose.Proofs.Grammar
import Interpose.Proofs.Lines
import Mathlib.Logic.Relation

/-!
# The layout of a table

A table does not depend on how its text is laid out: on carriage returns in front of line feeds, on
comments, and on how many blanks there are where there are some, or at either end of a line. Edits
of this kind are `LayoutEdit`s, and they leave the table as it is, with the numbers of its lines
(`Table.parse_layout`).

A table is read off the words on the pieces between line feeds (`Table.parse_congr`). The lines of a
text are not quite its pieces: the separator takes a carriage return along, and the piece behind the
last line feed is no line if it is empty. Neither matters, since a carriage return is blank and so
is an empty piece. So an edit has to be looked at on its own piece only, and there it comes to two
laws of words: the words on the two sides of a blank are apart from each other
(`Text.words_append_cons`), and what is behind the mark of a comment is not looked at.
-/

namespace Interpose

/-! ### Words on the two sides of a blank -/

namespace Text

theorem consWord_append (w : List Char) (ws vs : List (List Char)) :
    consWord w (ws ++ vs) = consWord w ws ++ vs := by
  unfold consWord
  split <;> rfl

/-- A blank ends the word that it follows, and what is behind it is split by itself. -/
theorem splitWord_append_cons {c : Char} (hc : isBlank c = true) (s t : List Char) :
    splitWord (s ++ c :: t) = ((splitWord s).1, (splitWord s).2 ++ words t) := by
  induction s with
  | nil => exact splitWord_cons_of_isBlank hc t
  | cons d s ih =>
    rw [List.cons_append]
    cases hd : isBlank d with
    | true =>
      have hwords : words (s ++ c :: t) = words s ++ words t := by
        show consWord (splitWord (s ++ c :: t)).1 (splitWord (s ++ c :: t)).2 = _
        rw [ih]
        exact consWord_append _ _ _
      rw [splitWord_cons_of_isBlank hd, splitWord_cons_of_isBlank hd, hwords]
    | false => rw [splitWord_cons_of_not_isBlank hd, splitWord_cons_of_not_isBlank hd, ih]

/-- **A blank sets words apart.** -/
theorem words_append_cons {c : Char} (hc : isBlank c = true) (s t : List Char) :
    words (s ++ c :: t) = words s ++ words t := by
  show consWord (splitWord (s ++ c :: t)).1 (splitWord (s ++ c :: t)).2 = _
  rw [splitWord_append_cons hc]
  exact consWord_append _ _ _

/-- Blanks behind a text change none of its words. -/
theorem words_append_blanks {b : List Char} (hb : ∀ c ∈ b, isBlank c = true) (s : List Char) :
    words (s ++ b) = words s := by
  cases b with
  | nil => rw [List.append_nil]
  | cons c b =>
    obtain ⟨hc, hb⟩ := List.forall_mem_cons.mp hb
    have hnone : words b = [] := by simpa using words_append_of_isBlank hb []
    rw [words_append_cons hc, hnone, List.append_nil]

end Text

/-! ### The words on a line -/

/-- What follows a comment belongs to it. -/
theorem stripComment_append_of_mem {s : List Char} (h : '#' ∈ s) (t : List Char) :
    stripComment (s ++ t) = stripComment s := by
  obtain ⟨body, comment, rfl, hbody⟩ := List.eq_append_cons_of_mem h
  rw [List.append_assoc, List.cons_append, stripComment_append hbody (by simp),
    stripComment_append hbody (by simp)]

/-- A comment can only begin in what follows. -/
theorem stripComment_append_of_not_mem {s : List Char} (h : '#' ∉ s) (t : List Char) :
    stripComment (s ++ t) = s ++ stripComment t := by
  refine List.takeWhile_append_of_pos fun c hc ↦ ?_
  simpa using fun heq : c = '#' ↦ h (heq ▸ hc)

theorem stripComment_of_not_mem {s : List Char} (h : '#' ∉ s) : stripComment s = s := by
  simpa [stripComment] using stripComment_append_of_not_mem h []

/-- The words on a line. -/
def lineWords (line : List Char) : List (List Char) := Text.words (stripComment line)

/-- **A comment changes none of the words on a line**, wherever it begins and even if it stands in
another one. -/
theorem lineWords_comment (line comment : List Char) :
    lineWords (line ++ '#' :: comment) = lineWords line := by
  unfold lineWords
  by_cases h : '#' ∈ line
  · rw [stripComment_append_of_mem h]
  · rw [stripComment_append h (by simp), stripComment_of_not_mem h]

/-- Blanks do not begin a comment. -/
theorem mark_not_mem {b : List Char} (hb : ∀ c ∈ b, Text.isBlank c = true) : '#' ∉ b :=
  fun h ↦ absurd (hb _ h) (by decide)

/-- Nor do blanks in front of the line. -/
theorem lineWords_blanks_append {b : List Char} (hb : ∀ c ∈ b, Text.isBlank c = true)
    (line : List Char) : lineWords (b ++ line) = lineWords line := by
  rw [lineWords, stripComment_append_of_not_mem (mark_not_mem hb), Text.words_append_of_isBlank hb,
    lineWords]

/-- Nor do blanks at its end, where they may be part of a comment. -/
theorem lineWords_append_blanks {b : List Char} (hb : ∀ c ∈ b, Text.isBlank c = true)
    (line : List Char) : lineWords (line ++ b) = lineWords line := by
  unfold lineWords
  by_cases h : '#' ∈ line
  · rw [stripComment_append_of_mem h]
  · rw [stripComment_append_of_not_mem h, stripComment_of_not_mem (mark_not_mem hb),
      stripComment_of_not_mem h, Text.words_append_blanks hb]

/-- A carriage return at the end of a line is blank. -/
theorem lineWords_append_ending {ending : List Char} (h : ending = [] ∨ ending = ['\r'])
    (line : List Char) : lineWords (line ++ ending) = lineWords line := by
  obtain rfl | rfl := h
  · rw [List.append_nil]
  · exact lineWords_append_blanks (List.forall_mem_singleton.mpr rfl) line

/-- In front of its comment, a line is read on the two sides of a blank. -/
theorem lineWords_append_cons {before : List Char} (h : '#' ∉ before) {c : Char}
    (hc : Text.isBlank c = true) (after : List Char) :
    lineWords (before ++ c :: after) = Text.words before ++ lineWords after := by
  have hmark : '#' ∉ [c] := mark_not_mem (by simpa using hc)
  have hafter : stripComment (c :: after) = c :: stripComment after :=
    stripComment_append_of_not_mem hmark after
  rw [lineWords, stripComment_append_of_not_mem h, hafter, Text.words_append_cons hc, lineWords]

/-! ### The lines of a text -/

/-- The words on each of the pieces of a text between its line feeds. -/
def readings (text : List Char) : List (List (List Char)) := (text.splitOn '\n').map lineWords

theorem splitOn_append_lineFeed (s t : List Char) :
    (s ++ '\n' :: t).splitOn '\n' = s.splitOn '\n' ++ t.splitOn '\n' := by
  simp only [List.splitOn_eq_splitOnP]
  exact List.splitOnP_append_cons s t (beq_self_eq_true '\n')

/-- A line feed sets pieces apart, so that each text is read by itself. -/
theorem readings_append (s t : List Char) :
    readings (s ++ '\n' :: t) = readings s ++ readings t := by
  rw [readings, splitOn_append_lineFeed, List.map_append, readings, readings]

theorem readings_of_not_mem {s : List Char} (h : '\n' ∉ s) : readings s = [lineWords s] := by
  rw [readings, List.splitOn_eq_singleton h, List.map_singleton]

/-- What is made of a numbered line rests on its words, and nothing is made of a line without. -/
structure ReadsWords {α : Type} (f : Nat × List Char → Option α) : Prop where
  blank : ∀ n, f (n, []) = none
  congr : ∀ n {l l' : List Char}, lineWords l = lineWords l' → f (n, l) = f (n, l')

namespace ReadsWords

variable {α : Type} {f : Nat × List Char → Option α}

/-- What is made of the lines of a text is made of its pieces. -/
theorem filterMap_lines (hf : ReadsWords f) (s : List Char) (k : Nat) :
    ((Text.lines s).zipIdx k).filterMap (fun p ↦ f p.swap) =
      ((s.splitOn '\n').zipIdx k).filterMap fun p ↦ f p.swap := by
  induction s using Text.separated_induction '\n' generalizing k with
  | nil => simp [List.zipIdx_cons, hf.blank]
  | last r hr hne => rw [Text.lines_of_not_mem hr hne, List.splitOn_eq_singleton hr]
  | line r s hr ih =>
    obtain ⟨l, hl, hlines⟩ := Text.exists_lines_lineFeed hr
    have hwords : lineWords l = lineWords r := by
      obtain rfl | rfl := hl
      · rfl
      · exact (lineWords_append_ending (.inr rfl) l).symm
    have hsplit : (r ++ '\n' :: s).splitOn '\n' = r :: s.splitOn '\n' := by
      rw [splitOn_append_lineFeed, List.splitOn_eq_singleton hr, List.singleton_append]
    rw [hlines, hsplit, List.zipIdx_cons, List.zipIdx_cons, List.filterMap_cons,
      List.filterMap_cons, ih, Prod.swap_prod_mk, Prod.swap_prod_mk, hf.congr k hwords]

/-- What is made of numbered pieces rests on their words and on their numbers. -/
theorem filterMap_congr (hf : ReadsWords f) {ls ls' : List (List Char)}
    (h : ls.map lineWords = ls'.map lineWords) (k : Nat) :
    (ls.zipIdx k).filterMap (fun p ↦ f p.swap) = (ls'.zipIdx k).filterMap fun p ↦ f p.swap := by
  induction ls generalizing ls' k with
  | nil => rw [List.map_eq_nil_iff.mp h.symm]
  | cons l ls ih =>
    obtain ⟨l', ls', rfl, hl, hls⟩ := List.map_eq_cons_iff.mp h.symm
    rw [List.zipIdx_cons, List.zipIdx_cons, List.filterMap_cons, List.filterMap_cons,
      ih hls.symm, Prod.swap_prod_mk, Prod.swap_prod_mk, hf.congr k hl]

end ReadsWords

/-- A line is parsed by its words. -/
theorem parseLine_congr {policy : NamePolicy} {l l' : List Char}
    (h : lineWords l = lineWords l') : parseLine policy l = parseLine policy l' := by
  have hwords : Text.words (stripComment l) = Text.words (stripComment l') := h
  simp only [parseLine, hwords]

namespace Table

variable {policy : NamePolicy}

theorem readsWords_line : ReadsWords (Line.of? policy) :=
  ⟨fun _ ↦ rfl, fun n l l' h ↦ by simp only [Line.of?, parseLine_congr h]⟩

theorem readsWords_skip : ReadsWords (Skip.of? policy) :=
  ⟨fun _ ↦ rfl, fun n l l' h ↦ by simp only [Skip.of?, parseLine_congr h]⟩

/-- **A table is read off the words of its text**, piece by piece. -/
theorem parse_congr {t u : List Char} (h : readings t = readings u) :
    parse policy t = parse policy u := by
  have hmade {α : Type} {f : Nat × List Char → Option α} (hf : ReadsWords f) :
      (Text.numberedLines t).filterMap f = (Text.numberedLines u).filterMap f := by
    rw [Text.numberedLines, Text.numberedLines, List.filterMap_map, List.filterMap_map]
    calc ((Text.lines t).zipIdx 1).filterMap (fun p ↦ f p.swap)
        = ((t.splitOn '\n').zipIdx 1).filterMap (fun p ↦ f p.swap) := hf.filterMap_lines t 1
      _ = ((u.splitOn '\n').zipIdx 1).filterMap (fun p ↦ f p.swap) := hf.filterMap_congr h 1
      _ = ((Text.lines u).zipIdx 1).filterMap (fun p ↦ f p.swap) := (hf.filterMap_lines u 1).symm
  rw [parse, parse, hmade readsWords_line, hmade readsWords_skip]

end Table

/-! ### Edits -/

/-- Blanks that stay on one line. -/
def Blanks (b : List Char) : Prop := ∀ c ∈ b, Text.isBlank c = true ∧ c ≠ '\n'

/-- An edit of one line that leaves its words alone. A carriage return at its end may belong to the
line or to what separates it from the next, so what is added at the end can also stand before it. -/
inductive RowEdit : List Char → List Char → Prop
  /-- A comment at the end, perhaps behind another one. -/
  | comment (row : List Char) {comment ending : List Char} (hcomment : '\n' ∉ comment)
      (hending : ending = [] ∨ ending = ['\r']) :
      RowEdit (row ++ ending) (row ++ '#' :: comment ++ ending)
  /-- Blanks at the start. -/
  | front (row : List Char) {b : List Char} (hb : Blanks b) : RowEdit row (b ++ row)
  /-- Blanks at the end. -/
  | back (row : List Char) {b ending : List Char} (hb : Blanks b)
      (hending : ending = [] ∨ ending = ['\r']) : RowEdit (row ++ ending) (row ++ b ++ ending)
  /-- Blanks before a blank that is no part of a comment. -/
  | before {start : List Char} (hstart : '#' ∉ start) {c : Char} (hc : Text.isBlank c = true)
      (rest : List Char) {b : List Char} (hb : Blanks b) :
      RowEdit (start ++ c :: rest) (start ++ b ++ c :: rest)
  /-- Blanks behind a blank that is no part of a comment. -/
  | behind {start : List Char} (hstart : '#' ∉ start) {c : Char} (hc : Text.isBlank c = true)
      (rest : List Char) {b : List Char} (hb : Blanks b) :
      RowEdit (start ++ c :: rest) (start ++ c :: (b ++ rest))

/-- A text with a carriage return in front of each line feed. -/
def withReturns (text : List Char) : List Char :=
  text.flatMap fun c ↦ if c = '\n' then ['\r', '\n'] else [c]

/-- An edit of the layout of a text. -/
inductive LayoutEdit : List Char → List Char → Prop
  /-- Any one of the lines is edited. -/
  | row {above row row' below : List Char} (habove : above = [] ∨ above.getLast? = some '\n')
      (hbelow : below = [] ∨ below.head? = some '\n') (hrow : '\n' ∉ row) (h : RowEdit row row') :
      LayoutEdit (above ++ row ++ below) (above ++ row' ++ below)
  /-- All lines get another ending. -/
  | returns (text : List Char) : LayoutEdit text (withReturns text)

namespace Blanks

variable {b : List Char}

theorem isBlank (h : Blanks b) : ∀ c ∈ b, Text.isBlank c = true := fun c hc ↦ (h c hc).1

theorem lineFeed_not_mem (h : Blanks b) : '\n' ∉ b := fun hmem ↦ (h _ hmem).2 rfl

end Blanks

namespace RowEdit

variable {row row' : List Char}

theorem lineWords_eq (h : RowEdit row row') : lineWords row' = lineWords row := by
  cases h with
  | @comment row comment ending hcomment hending =>
    rw [List.append_assoc, List.cons_append, lineWords_comment, lineWords_append_ending hending]
  | front row hb => exact lineWords_blanks_append hb.isBlank row
  | back row hb hending =>
    rw [lineWords_append_ending hending, lineWords_append_ending hending,
      lineWords_append_blanks hb.isBlank]
  | @before start hstart c hc rest b hb =>
    have hmark : '#' ∉ start ++ b := by simp [hstart, mark_not_mem hb.isBlank]
    rw [lineWords_append_cons hmark hc, lineWords_append_cons hstart hc,
      Text.words_append_blanks hb.isBlank]
  | behind hstart hc rest hb =>
    rw [lineWords_append_cons hstart hc, lineWords_append_cons hstart hc,
      lineWords_blanks_append hb.isBlank]

/-- A line is edited to a line. -/
theorem lineFeed_not_mem (h : RowEdit row row') (hrow : '\n' ∉ row) : '\n' ∉ row' := by
  cases h with
  | comment row hcomment hending =>
    simp only [List.mem_append, not_or] at hrow
    simp [hrow, hcomment]
  | front row hb => simp [hrow, hb.lineFeed_not_mem]
  | back row hb hending =>
    simp only [List.mem_append, not_or] at hrow
    simp [hrow, hb.lineFeed_not_mem]
  | before hstart hc rest hb | behind hstart hc rest hb =>
    simp only [List.mem_append, List.mem_cons, not_or] at hrow
    simp [hrow, hb.lineFeed_not_mem]

end RowEdit

/-! ### What edits leave alone -/

/-- A line of a text is read between the lines above and below it. -/
theorem exists_readings {above below : List Char}
    (habove : above = [] ∨ above.getLast? = some '\n')
    (hbelow : below = [] ∨ below.head? = some '\n') :
    ∃ upper lower, ∀ row, '\n' ∉ row →
      readings (above ++ row ++ below) = upper ++ lineWords row :: lower := by
  have hlower : ∃ lower, ∀ row, '\n' ∉ row → readings (row ++ below) = lineWords row :: lower := by
    obtain rfl | hbelow := hbelow
    · exact ⟨[], fun row hrow ↦ by rw [List.append_nil, readings_of_not_mem hrow]⟩
    · obtain ⟨rest, rfl⟩ := List.head?_eq_some_iff.mp hbelow
      refine ⟨readings rest, fun row hrow ↦ ?_⟩
      rw [readings_append, readings_of_not_mem hrow, List.singleton_append]
  obtain ⟨lower, hlower⟩ := hlower
  obtain rfl | habove := habove
  · exact ⟨[], lower, fun row hrow ↦ hlower row hrow⟩
  · obtain ⟨start, rfl⟩ := List.getLast?_eq_some_iff.mp habove
    refine ⟨readings start, lower, fun row hrow ↦ ?_⟩
    rw [List.append_assoc, List.append_assoc, List.singleton_append, readings_append,
      hlower row hrow]

theorem withReturns_of_not_mem {s : List Char} (h : '\n' ∉ s) : withReturns s = s := by
  have hkeep : ∀ c ∈ s, (if c = '\n' then ['\r', '\n'] else [c]) = [c] := fun c hc ↦
    if_neg fun heq : c = '\n' ↦ h (heq ▸ hc)
  rw [withReturns, List.flatMap_congr hkeep, List.flatMap_singleton']

/-- **Lines may end in either way.** The carriage return in front of a line feed is a blank at the
end of its piece. -/
theorem readings_withReturns (text : List Char) : readings (withReturns text) = readings text := by
  induction text using Text.separated_induction '\n' with
  | nil => rfl
  | last r hr hne => rw [withReturns_of_not_mem hr]
  | line r s hr ih =>
    have hreturn : '\n' ∉ r ++ ['\r'] := by simp [hr]
    have hsplit : withReturns (r ++ '\n' :: s) = (r ++ ['\r']) ++ '\n' :: withReturns s := by
      rw [withReturns, List.flatMap_append, ← withReturns, withReturns_of_not_mem hr]
      simp [withReturns]
    rw [hsplit, readings_append, readings_append, ih, readings_of_not_mem hreturn,
      readings_of_not_mem hr, lineWords_append_ending (.inr rfl)]

/-- **An edit of the layout leaves the words alone**, piece by piece. -/
theorem LayoutEdit.readings_eq {t u : List Char} (h : LayoutEdit t u) :
    readings t = readings u := by
  cases h with
  | row habove hbelow hrow h =>
    obtain ⟨upper, lower, hread⟩ := exists_readings habove hbelow
    rw [hread _ hrow, hread _ (h.lineFeed_not_mem hrow), h.lineWords_eq]
  | returns => exact (readings_withReturns t).symm

/-- **The layout of a text does not matter to its table**, under either policy.

Two texts may be led to each other by any number of edits of their layout, made or undone, in any
order and on any of their lines: a comment at the end of a line, blanks at either end of it or
beside a blank in front of its comment, and carriage returns in front of all line feeds. Then the
same assignments are read from them, under the same numbers and in the same order, and the same
lines are skipped for the same reasons. -/
theorem Table.parse_layout {t u : List Char} (h : Relation.EqvGen LayoutEdit t u)
    (policy : NamePolicy) : parse policy t = parse policy u := by
  refine parse_congr ?_
  induction h with
  | rel t u h => exact h.readings_eq
  | refl t => rfl
  | symm t u _ ih => exact ih.symm
  | trans t u v _ _ htu huv => exact htu.trans huv

/-- Carriage returns, blanks at the start and behind a blank, and a comment. -/
theorem Table.parse_layout_edited :
    let plain := "k l s\nm n".toList
    let edited := " k \tl s\r\nm n#x".toList
    Relation.EqvGen LayoutEdit plain edited ∧
      parse .truncate edited =
        { lines := [⟨1, "k", "l", "s"⟩], skipped := [⟨2, .wordCount 2⟩] } := by
  intro plain edited
  have hspace : Blanks [' '] := List.forall_mem_singleton.mpr (by decide)
  have htab : Blanks ['\t'] := List.forall_mem_singleton.mpr (by decide)
  have hreturns : LayoutEdit plain "k l s\r\nm n".toList := .returns plain
  have hfront : LayoutEdit "k l s\r\nm n".toList " k l s\r\nm n".toList :=
    .row (.inl rfl) (.inr rfl) (by decide) (.front "k l s\r".toList hspace)
  have hbehind : LayoutEdit " k l s\r\nm n".toList " k \tl s\r\nm n".toList :=
    .row (.inl rfl) (.inr rfl) (by decide)
      (.behind (c := ' ') (show '#' ∉ " k".toList by decide) rfl "l s\r".toList htab)
  have hcomment : LayoutEdit " k \tl s\r\nm n".toList edited :=
    .row (show _ ∨ " k \tl s\r\n".toList.getLast? = some '\n' from .inr rfl) (.inl rfl) (by decide)
      (.comment "m n".toList (show '\n' ∉ ['x'] by decide) (.inl rfl))
  have hedits : Relation.EqvGen LayoutEdit plain edited :=
    ((Relation.EqvGen.rel _ _ hreturns).trans _ _ _ (.rel _ _ hfront)).trans _ _ _
      ((Relation.EqvGen.rel _ _ hbehind).trans _ _ _ (.rel _ _ hcomment))
  exact ⟨hedits, (parse_layout hedits .truncate).symm.trans (by decide +kernel)⟩

end Interpose
