import Interpose.Proofs.Grammar

/-!
# Truncating and rejecting

The two policies for long words read the same lines, and differ in the lines that have a word over
the limit. Truncating makes an assignment of such a line, and the strict policy skips it for the
length of its first such word. So the strict reading of a text is the other one without these lines
(`Table.reject_filters_truncate`).

What a line comes to under both policies is said once, in `parseLine_policies`. Every comparison of
two tables is then one of their lists, line by line.
-/

namespace Interpose

/-- Every word is within the limit of 255 bytes. -/
def Within (ws : List (List Char)) : Prop := ∀ w ∈ ws, Text.byteLength w ≤ 255

instance (ws : List (List Char)) : Decidable (Within ws) :=
  inferInstanceAs (Decidable (∀ w ∈ ws, Text.byteLength w ≤ 255))

/-- Whether a line was skipped for the length of a word. -/
def SkipReason.isTooLong : SkipReason → Bool
  | tooLong .. => true
  | _ => false

/-! ### One line -/

/-- **A line under both policies**, given its words. If it makes an assignment at all, it does so
under the strict policy just if its words are within the limit, and else it is too long for it. -/
theorem parseLine_policies {line : List Char} {ws : List (List Char)} (h : LineWords line ws) :
    (∃ a, parseLine .truncate line = .ok a ∧ ws.length = 3 ∧
      (Within ws ∧ parseLine .reject line = .ok a ∨
        ¬Within ws ∧ ∃ field bytes, parseLine .reject line = .error (.tooLong field bytes))) ∨
    ∃ reason, reason.isTooLong = false ∧
      parseLine .truncate line = .error reason ∧ parseLine .reject line = .error reason := by
  by_cases hthree : ws.length = 3
  · obtain ⟨key, library, symbol, rfl⟩ := List.length_eq_three.mp hthree
    refine .inl ⟨_, parseLine_truncate h, hthree, ?_⟩
    have hreject := parseLine_reject h
    split at hreject
    · next hnone =>
      have hshort := List.find?_eq_none.mp hnone
      simp only [List.forall_mem_cons, decide_eq_true_eq, Nat.not_lt] at hshort
      obtain ⟨hkey, hlibrary, hsymbol, -⟩ := hshort
      have hwithin : Within [key, library, symbol] := by
        simpa [Within] using ⟨hkey, hlibrary, hsymbol⟩
      refine .inl ⟨hwithin, ?_⟩
      rw [hreject, Text.takeBytes_of_le hkey, Text.takeBytes_of_le hlibrary,
        Text.takeBytes_of_le hsymbol]
    · next field word hsome =>
      have hover : maxNameBytes < Text.byteLength word := by simpa using List.find?_some hsome
      have hword : word ∈ [key, library, symbol] := by
        simpa using List.mem_map_of_mem (f := Prod.snd) (List.mem_of_find?_eq_some hsome)
      exact .inr ⟨fun hwithin ↦ Nat.not_lt.mpr (hwithin word hword) hover, field, _, hreject⟩
  · refine .inr ⟨_, ?_, parseLine_of_length h hthree, parseLine_of_length h hthree⟩
    split <;> rfl

namespace Table

/-! ### Lines and their words -/

/-- The words on the line of a number in a text, as they stand there. -/
def wordsAt (text : List Char) (number : Nat) : List (List Char) :=
  Text.words (stripComment ((Text.lines text)[number - 1]?.getD []))

theorem lineWords_wordsAt {text : List Char} {l : Nat × List Char}
    (hl : l ∈ Text.numberedLines text) : LineWords l.2 (wordsAt text l.1) := by
  obtain ⟨⟨line, number⟩, hmem, rfl⟩ := List.mem_map.mp hl
  obtain ⟨-, hget⟩ := List.mk_mem_zipIdx_iff_le_and_getElem?_sub.mp hmem
  refine lineWords_iff.mpr ?_
  simp [wordsAt, hget]

/-! ### Two tables of one text -/

/-- The strict policy reads the lines whose words are within the limit. -/
theorem lines_reject (text : List Char) :
    (parse .reject text).lines =
      (parse .truncate text).lines.filter fun l ↦ Within (wordsAt text l.number) := by
  simp only [parse, List.filter_filterMap]
  refine List.filterMap_congr fun l hl ↦ ?_
  obtain ⟨a, ht, -, ⟨hwithin, hr⟩ | ⟨hover, field, bytes, hr⟩⟩ | ⟨reason, -, ht, hr⟩ :=
    parseLine_policies (lineWords_wordsAt hl)
  · simp [Line.of?, ht, hr, hwithin, Option.filter_some]
  · simp [Line.of?, ht, hr, hover, Option.filter_some]
  · simp [Line.of?, ht, hr]

theorem length_wordsAt {text : List Char} {l : Line} (hl : l ∈ (parse .truncate text).lines) :
    (wordsAt text l.number).length = 3 := by
  obtain ⟨numbered, hmem, hof⟩ := List.mem_filterMap.mp hl
  obtain ⟨hnumber, ha⟩ := Line.of?_eq_some_iff.mp hof
  rw [hnumber]
  obtain ⟨-, -, hthree, -⟩ | ⟨reason, -, ht, -⟩ := parseLine_policies (lineWords_wordsAt hmem)
  · exact hthree
  · cases ha.symm.trans ht

/-- It skips the other lines for their length. -/
theorem numbers_tooLong_reject (text : List Char) :
    ((parse .reject text).skipped.filter (·.reason.isTooLong)).map (·.number) =
      ((parse .truncate text).lines.filter fun l ↦ ¬Within (wordsAt text l.number)).map
        (·.number) := by
  simp only [parse, List.filter_filterMap, List.map_filterMap]
  refine List.filterMap_congr fun l hl ↦ ?_
  obtain ⟨a, ht, -, ⟨hwithin, hr⟩ | ⟨hover, field, bytes, hr⟩⟩ | ⟨reason, hreason, ht, hr⟩ :=
    parseLine_policies (lineWords_wordsAt hl)
  · simp [Line.of?, Skip.of?, ht, hr, hwithin, Option.filter_some]
  · simp [Line.of?, Skip.of?, ht, hr, hover, Option.filter_some, SkipReason.isTooLong]
  · cases reason <;> simp_all [Line.of?, Skip.of?, Option.filter_some]

/-- All else that is skipped is skipped for the same reason under both policies. -/
theorem skipped_reject (text : List Char) :
    (parse .reject text).skipped.filter (!·.reason.isTooLong) = (parse .truncate text).skipped := by
  simp only [parse, List.filter_filterMap]
  refine List.filterMap_congr fun l hl ↦ ?_
  obtain ⟨a, ht, -, ⟨hwithin, hr⟩ | ⟨hover, field, bytes, hr⟩⟩ | ⟨reason, hreason, ht, hr⟩ :=
    parseLine_policies (lineWords_wordsAt hl)
  · simp [Skip.of?, ht, hr]
  · simp [Skip.of?, ht, hr, Option.filter_some, SkipReason.isTooLong]
  · cases reason <;> simp_all [Skip.of?, Option.filter_some]

/-- **The strict reading of a text is the other one without the lines that are too long.**

The strict policy reads the lines that truncating reads and whose three words are within 255 bytes,
with the same numbers and assignments and in the same order. The other lines that truncating reads
are those that the strict policy skips for the length of a word. All else is skipped by both
policies alike, and truncating skips nothing for its length. -/
theorem reject_filters_truncate (text : List Char) :
    let truncated := parse .truncate text
    let strict := parse .reject text
    strict.lines = truncated.lines.filter (fun l ↦ Within (wordsAt text l.number)) ∧
      (strict.skipped.filter (·.reason.isTooLong)).map (·.number) =
        (truncated.lines.filter fun l ↦ ¬Within (wordsAt text l.number)).map (·.number) ∧
      strict.skipped.filter (!·.reason.isTooLong) = truncated.skipped ∧
      (∀ s ∈ truncated.skipped, s.reason.isTooLong = false) ∧
      ∀ l ∈ truncated.lines, (wordsAt text l.number).length = 3 := by
  intro truncated strict
  refine ⟨lines_reject text, numbers_tooLong_reject text, skipped_reject text, fun s hs ↦ ?_,
    fun l hl ↦ length_wordsAt hl⟩
  rw [← skipped_reject text] at hs
  simpa using (List.mem_filter.mp hs).2

/-- The limit falls into the key of the third line, and the second line has two words. -/
theorem reject_filters_truncate_long_key :
    let long := List.replicate 256 'x'
    let text := "k l s\nk l\n".toList ++ long ++ " l s".toList
    let strict := parse .reject text
    wordsAt text 3 = [long, ['l'], ['s']] ∧ strict.lines = [⟨1, "k", "l", "s"⟩] ∧
      (strict.skipped.filter (·.reason.isTooLong)).map (·.number) = [3] ∧
      (∃ s ∈ (parse .truncate text).skipped, s.number = 2 ∧ s.reason.isTooLong = false) ∧
      ∃ l ∈ (parse .truncate text).lines, l.number = 3 ∧ (wordsAt text l.number).length = 3 := by
  intro long text strict
  obtain ⟨hlines, hlong, -, hskipped, hwords⟩ := reject_filters_truncate text
  let kept := String.ofList (List.replicate 255 'x')
  have hskip : ⟨2, .wordCount 2⟩ ∈ (parse .truncate text).skipped := by decide +kernel
  have hline : ⟨3, kept, "l", "s"⟩ ∈ (parse .truncate text).lines := by decide +kernel
  exact ⟨by decide +kernel, hlines.trans (by decide +kernel), hlong.trans (by decide +kernel),
    ⟨_, hskip, rfl, hskipped _ hskip⟩, _, hline, rfl, hwords _ hline⟩

end Table

end Interpose
