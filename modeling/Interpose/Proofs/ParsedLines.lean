import Interpose.Table
import Mathlib.Data.List.Nodup

/-!
# What parsed lines look like

Words are never empty, and a word that is cut down to the limit keeps at least its first character,
which takes no more than four bytes. So the names on a parsed line are not empty, and its target is
configured (`parseLine_ok`).

The lines of a table carry their numbers in the text, so these increase
(`Table.pairwise_lines_parse`), and those of the skipped lines do, too.
-/

namespace Interpose

/-! ### Words -/

namespace Text

theorem ne_nil_of_mem_consWord {w : List Char} {ws : List (List Char)}
    (h : ∀ v ∈ ws, v ≠ []) : ∀ v ∈ consWord w ws, v ≠ [] := by
  rw [consWord]
  split
  · exact h
  · next hw => exact List.forall_mem_cons.mpr ⟨by simpa using hw, h⟩

theorem ne_nil_of_mem_splitWord (s : List Char) : ∀ w ∈ (splitWord s).2, w ≠ [] := by
  induction s with
  | nil => simp [splitWord]
  | cons c s ih =>
    rw [splitWord]
    cases isBlank c with
    | true => exact ne_nil_of_mem_consWord ih
    | false => exact ih

/-- Words are not empty. -/
theorem ne_nil_of_mem_words {s w : List Char} (h : w ∈ words s) : w ≠ [] :=
  ne_nil_of_mem_consWord (ne_nil_of_mem_splitWord s) w h

/-- A budget of four bytes is enough for any character. -/
theorem takeBytes_ne_nil {budget : Nat} (h : 4 ≤ budget) {s : List Char} (hs : s ≠ []) :
    takeBytes budget s ≠ [] := by
  cases s with
  | nil => exact absurd rfl hs
  | cons c s =>
    rw [takeBytes, if_pos (Nat.le_trans c.utf8Size_le_four h)]
    exact List.cons_ne_nil _ _

end Text

/-! ### Names -/

/-- A word keeps at least its first character, whichever the policy. -/
theorem NamePolicy.ne_empty_of_bounded {policy : NamePolicy} {field : Field} {word : List Char}
    {name : String} (h : policy.bounded field word = .ok name) (hw : word ≠ []) : name ≠ "" := by
  unfold bounded at h
  split at h
  · obtain rfl := Except.ok.inj h
    simpa using hw
  · cases policy with
    | truncate =>
      obtain rfl := Except.ok.inj h
      simpa using Text.takeBytes_ne_nil (by decide) hw
    | reject => cases h

/-- The names on a line that yields an assignment are the bounded forms of its words. -/
theorem exists_bounded_of_parseLine {policy : NamePolicy} {line : List Char} {a : Assignment}
    (h : parseLine policy line = .ok a) :
    ∃ key library symbol, Text.words (stripComment line) = [key, library, symbol] ∧
      policy.bounded .key key = .ok a.key ∧
      policy.bounded .library library = .ok a.target.library ∧
      policy.bounded .symbol symbol = .ok a.target.symbol := by
  rw [parseLine] at h
  split at h
  · cases h
  · next key library symbol hwords =>
    refine ⟨key, library, symbol, hwords, ?_⟩
    rcases hk : policy.bounded .key key with reason | k
    · simp [hk, bind, Except.bind] at h
    rcases hl : policy.bounded .library library with reason | l
    · simp [hk, hl, bind, Except.bind] at h
    rcases hs : policy.bounded .symbol symbol with reason | s
    · simp [hk, hl, hs, bind, Except.bind] at h
    simp only [hk, hl, hs, bind, Except.bind, pure, Except.pure, Except.ok.injEq] at h
    subst h
    exact ⟨rfl, rfl, rfl⟩
  · cases h

/-- **The target on a parsed line is configured.** -/
theorem parseLine_ok {policy : NamePolicy} {line : List Char} {a : Assignment}
    (h : parseLine policy line = .ok a) : a.key ≠ "" ∧ a.target.isConfigured = true := by
  obtain ⟨key, library, symbol, hwords, hkey, hlibrary, hsymbol⟩ := exists_bounded_of_parseLine h
  have hword (w : List Char) (hw : w ∈ [key, library, symbol]) : w ≠ [] :=
    Text.ne_nil_of_mem_words (hwords ▸ hw)
  have hl := NamePolicy.ne_empty_of_bounded hlibrary (hword library (by simp))
  have hs := NamePolicy.ne_empty_of_bounded hsymbol (hword symbol (by simp))
  exact ⟨NamePolicy.ne_empty_of_bounded hkey (hword key (by simp)),
    by simp [Target.isConfigured, hl, hs]⟩

/-! ### Tables -/

/-- Lines are numbered in order. -/
theorem Text.pairwise_numberedLines (s : List Char) :
    (numberedLines s).Pairwise (·.1 < ·.1) := by
  have hnumbers : (numberedLines s).map (·.1) = List.range' 1 (lines s).length := by
    rw [numberedLines, List.map_map]
    exact List.zipIdx_map_snd 1 (lines s)
  exact List.pairwise_map.1 (hnumbers ▸ List.pairwise_lt_range' 1 (by decide))

namespace Table

variable {policy : NamePolicy}

/-- A line of a table is a line of the text that is parsed, with its number. -/
theorem Line.of?_eq_some_iff {l : Nat × List Char} {x : Line} :
    Line.of? policy l = some x ↔ x.number = l.1 ∧ parseLine policy l.2 = .ok x.assignment := by
  rw [Line.of?]
  cases parseLine policy l.2 with
  | ok a =>
    cases x
    simp [eq_comm]
  | error reason => simp

/-- A skipped line is one that is not parsed and not blank, with its number. -/
theorem Skip.of?_eq_some_iff {l : Nat × List Char} {x : Skip} :
    Skip.of? policy l = some x ↔
      x.number = l.1 ∧ parseLine policy l.2 = .error x.reason ∧ x.reason ≠ .blank := by
  rw [Skip.of?]
  split
  · next h => simp [h]
  · next h => simp [h, eq_comm]
  · next reason hne h =>
    have hblank : reason ≠ .blank := hne
    cases x
    simp only [h, Option.some.injEq, mk.injEq, Except.error.injEq]
    constructor
    · rintro ⟨rfl, rfl⟩
      exact ⟨rfl, rfl, hblank⟩
    · rintro ⟨rfl, rfl, -⟩
      exact ⟨rfl, rfl⟩

theorem isConfigured_of_mem_parse {text : List Char} {line : Line}
    (h : line ∈ (parse policy text).lines) : line.assignment.target.isConfigured = true := by
  obtain ⟨l, -, hof⟩ := List.mem_filterMap.mp h
  exact (parseLine_ok (Line.of?_eq_some_iff.1 hof).2).2

/-- **The numbers of the lines of a table increase.** -/
theorem pairwise_lines_parse (text : List Char) :
    (parse policy text).lines.Pairwise (·.number < ·.number) := by
  refine List.Pairwise.filterMap _ (fun l m hlt x hx y hy ↦ ?_) (Text.pairwise_numberedLines text)
  rwa [(Line.of?_eq_some_iff.1 hx).1, (Line.of?_eq_some_iff.1 hy).1]

/-- The numbers of the skipped lines increase, too. -/
theorem pairwise_skipped_parse (text : List Char) :
    (parse policy text).skipped.Pairwise (·.number < ·.number) := by
  refine List.Pairwise.filterMap _ (fun l m hlt x hx y hy ↦ ?_) (Text.pairwise_numberedLines text)
  rwa [(Skip.of?_eq_some_iff.1 hx).1, (Skip.of?_eq_some_iff.1 hy).1]

/-- No two lines of a table share a number. -/
theorem nodup_numbers_parse {text : List Char} :
    ((parse policy text).lines.map (·.number)).Nodup :=
  List.pairwise_map.mpr ((pairwise_lines_parse text).imp Nat.ne_of_lt)

end Table

end Interpose
