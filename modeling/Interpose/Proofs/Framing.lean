import Interpose.Log.Journal
import Interpose.Proofs.Records

/-!
# One line for each record

The text of a JSON value has no control characters, whatever its strings hold
(`Json.inline_render`), so that a record is written on one line. The lines of the text in a sink are
the texts of its records, each with the number of its place (`recordLines_text`): an object begins
and ends with a brace, so nothing is trimmed off it, and none is passed over as blank.
-/

namespace Interpose

/-! ### Text on one line -/

/-- A text without control characters, which no line ends in. -/
def Text.Inline (s : List Char) : Prop := ∀ c ∈ s, ' ' ≤ c

instance (s : List Char) : Decidable (Text.Inline s) := List.decidableBAll (' ' ≤ ·) s

namespace Text.Inline

variable {s t : List Char}

theorem nil : Inline [] := by simp [Inline]

theorem cons {c : Char} (hc : ' ' ≤ c) (hs : Inline s) : Inline (c :: s) :=
  List.forall_mem_cons.mpr ⟨hc, hs⟩

theorem append (hs : Inline s) (ht : Inline t) : Inline (s ++ t) :=
  List.forall_mem_append.mpr ⟨hs, ht⟩

theorem of_subset (ht : Inline t) (h : s ⊆ t) : Inline s := fun c hc ↦ ht c (h hc)

theorem toDigits (n : Nat) : Inline (Nat.toDigits 10 n) := by
  intro c hc
  have hdigit : c.isDigit = true := Nat.isDigit_of_mem_toDigits (by decide) (by decide) hc
  simp only [Char.isDigit, Bool.and_eq_true, decide_eq_true_eq] at hdigit
  exact Char.le_trans (by decide) hdigit.1

end Text.Inline

namespace Json

open Text

theorem inline_zeros (n : Nat) : Inline (Number.zeros n) := by
  intro c hc
  rw [List.eq_of_mem_replicate hc]
  decide

/-- An exponent is a sign and digits. -/
theorem inline_exponentText (e : Int) : Inline (Number.exponentText e) := by
  refine .cons ?_ (.toDigits _)
  split <;> decide

/-- A decimal number is digits, with zeros, a point or an exponent, in whichever of its forms it is
written. -/
theorem inline_decimalText (d : Decimal) : Inline (Number.decimalText d) := by
  have hdigits := Inline.toDigits d.digits
  have htake (n : Nat) := hdigits.of_subset (List.take_subset n _)
  have hdrop (n : Nat) := hdigits.of_subset (List.drop_subset n _)
  have hpoint : Inline ['.'] := .cons (by decide) .nil
  rw [Number.decimalText]
  dsimp only
  split_ifs
  · exact (hdigits.append (inline_zeros _)).append (.cons (by decide) (.cons (by decide) .nil))
  · exact ((htake _).append hpoint).append (hdrop _)
  · exact (Inline.append (.cons (by decide) hpoint) (inline_zeros _)).append hdigits
  · exact (hdigits.append (.cons (by decide) .nil)).append (inline_exponentText _)
  · exact (((htake 1).append hpoint).append (hdrop 1)).append
      (.cons (by decide) .nil) |>.append (inline_exponentText _)

theorem inline_numberText (n : Number) : Inline n.text := by
  have hminus : ' ' ≤ '-' := by decide
  cases n with
  | integer n =>
    rw [Number.text, Number.integerText]
    split
    · exact .cons hminus (.toDigits _)
    · exact .toDigits _
  | real negative magnitude =>
    cases negative with
    | false => exact inline_decimalText _
    | true => exact .cons hminus (inline_decimalText _)

/-- A character that has no place on a line is escaped. -/
theorem inline_escapeChar (c : Char) : Inline (escapeChar c) := by
  have hslash : ' ' ≤ '\\' := by decide
  have hhex : ∀ n < 16, ' ' ≤ hexDigit n := by decide
  obtain ⟨d, -, hd, h⟩ | ⟨hc, h⟩ | ⟨-, -, hc, h⟩ := Parser.escapeChar_cases c
  · rw [h]
    refine .cons hslash (.cons ?_ .nil)
    rw [Parser.letterEscape?] at hd
    split_ifs at hd with h₁ h₂ h₃ h₄ h₅ h₆
    · rcases h₁ with rfl | rfl | rfl <;> decide
    all_goals
      subst d
      decide
  · have hn : c.toNat < 32 := hc
    rw [h]
    exact .cons hslash (.cons (by decide) (.cons (by decide) (.cons (by decide)
      (.cons (hhex _ (by omega)) (.cons (hhex _ (by omega)) .nil)))))
  · rw [h]
    exact .cons (Char.not_lt.mp hc) .nil

/-- **A string is written on one line**, whatever it holds, because each character is. -/
theorem inline_renderString (s : String) : Inline (renderString s) := by
  have hquote : ' ' ≤ '"' := by decide
  refine .cons hquote (.append (fun c hc ↦ ?_) (.cons hquote .nil))
  obtain ⟨d, -, hd⟩ := List.mem_flatMap.mp hc
  exact inline_escapeChar d c hd

mutual

/-- **A value is written on one line.** -/
theorem inline_render : ∀ v : Json, Inline v.render
  | .null => by decide
  | .bool true => by decide
  | .bool false => by decide
  | .number n => inline_numberText n
  | .string s => inline_renderString s
  | .array vs => .cons (by decide) (.append (inline_renderItems vs) (.cons (by decide) .nil))
  | .object ms => .cons (by decide) (.append (inline_renderMembers ms) (.cons (by decide) .nil))

/-- The items of an array, between which there are commas. -/
theorem inline_renderItems : ∀ vs : List Json, Inline (renderItems vs)
  | [] => .nil
  | [v] => inline_render v
  | v :: w :: vs => .append (inline_render v) (.cons (by decide) (inline_renderItems (w :: vs)))

/-- The members of an object, between which there are commas. -/
theorem inline_renderMembers : ∀ ms : List (String × Json), Inline (renderMembers ms)
  | [] => .nil
  | [(k, v)] => .append (inline_renderString k) (.cons (by decide) (inline_render v))
  | (k, v) :: m :: ms =>
    .append (inline_renderString k) (.cons (by decide)
      (.append (inline_render v) (.cons (by decide) (inline_renderMembers (m :: ms)))))

end

end Json

/-! ### Lines -/

namespace Text

/-- A line feed ends the line before it. -/
theorem lines_append_lineFeed {l : List Char} (hl : Inline l) (s : List Char) :
    lines (l ++ '\n' :: s) = l :: lines s := by
  induction l with
  | nil => exact lines_lineFeed s
  | cons c l ih =>
    obtain ⟨hc, hl⟩ := List.forall_mem_cons.mp hl
    rw [List.cons_append, lines, ih hl]
    · rintro rfl
      exact absurd hc (by decide)
    · rintro t rfl
      exact absurd hc (by decide)

/-- **Lines that were written one after the other**, each with a line feed, are the lines of the
whole. -/
theorem lines_flatMap {ls : List (List Char)} (h : ∀ l ∈ ls, Inline l) :
    lines (ls.flatMap (· ++ ['\n'])) = ls := by
  induction ls with
  | nil => exact lines_nil
  | cons l ls ih =>
    obtain ⟨hl, hls⟩ := List.forall_mem_cons.mp h
    rw [List.flatMap_cons, List.append_assoc, List.singleton_append, lines_append_lineFeed hl,
      ih hls]

/-- There is nothing to trim off a text that neither begins nor ends with a blank. -/
theorem trim_of_not_isBlank {c d : Char} (hc : isBlank c = false) (hd : isBlank d = false)
    (s : List Char) : trim (c :: s ++ [d]) = c :: s ++ [d] := by
  simp [trim, hc, hd]

end Text

/-- A text that is a line of a log by itself. -/
structure Framed (l : List Char) : Prop where
  inline : Text.Inline l
  trim : Text.trim l = l
  ne_nil : l ≠ []

/-- The lines of a log are numbered from one, and none is skipped when none is blank. -/
theorem recordLines_flatMap {ls : List (List Char)} (h : ∀ l ∈ ls, Framed l) :
    recordLines (ls.flatMap (· ++ ['\n'])) = (ls.zipIdx 1).map Prod.swap := by
  have hmem : ∀ l ∈ (ls.zipIdx 1).map Prod.swap, Framed l.2 := by
    intro l hl
    obtain ⟨p, hp, rfl⟩ := List.mem_map.mp hl
    exact h p.1 (List.fst_mem_of_mem_zipIdx hp)
  rw [recordLines, Text.numberedLines, Text.lines_flatMap fun l hl ↦ (h l hl).inline]
  have htrim : ((ls.zipIdx 1).map Prod.swap).map (fun l ↦ (l.1, Text.trim l.2)) =
      (ls.zipIdx 1).map Prod.swap := by
    refine (List.map_congr_left fun l hl ↦ ?_).trans (List.map_id _)
    rw [(hmem l hl).trim]
    rfl
  rw [htrim, List.filter_eq_self]
  intro l hl
  simpa using (hmem l hl).ne_nil

/-- **The text of a record is a line of a log.** -/
theorem Record.framed_text (r : Record) : Framed r.text.toList := by
  obtain ⟨ms, hms⟩ : ∃ ms, r.toJson = .object ms := ⟨_, rfl⟩
  have htext : r.text.toList = '\x7b' :: Json.renderMembers ms ++ ['\x7d'] := by
    rw [text, Json.compact, String.toList_ofList, hms]
    rfl
  refine ⟨?_, ?_, ?_⟩
  · rw [text, Json.compact, String.toList_ofList]
    exact Json.inline_render _
  · rw [htext]
    exact Text.trim_of_not_isBlank (by decide) (by decide) _
  · rw [htext]
    exact List.cons_ne_nil _ _

/-! ### Sinks -/

/-- A sink writes each of its lines with a line feed. -/
theorem Sink.toList_text (s : Sink) :
    s.text.toList = (s.lines.toList.map String.toList).flatMap (· ++ ['\n']) := by
  have hfold (ls : List String) (t : String) :
      (ls.foldl (fun t l ↦ t ++ l ++ "\n") t).toList =
        t.toList ++ (ls.map String.toList).flatMap (· ++ ['\n']) := by
    induction ls generalizing t with
    | nil => simp
    | cons l ls ih => simp [ih]
  rw [text, ← Array.foldl_toList, hfold]
  rfl

/-- **The lines of a log of records** are the texts of the records, numbered from one. -/
theorem recordLines_text {s : Sink} {rs : List Record}
    (h : s.lines.toList = rs.map Record.text) :
    recordLines s.text.toList = (rs.zipIdx 1).map fun p ↦ (p.2, p.1.text.toList) := by
  rw [s.toList_text, h, recordLines_flatMap]
  · rw [List.map_map, List.zipIdx_map, List.map_map]
    refine List.map_congr_left fun ⟨r, n⟩ _ ↦ ?_
    rw [Function.comp_apply, Prod.map_apply, Prod.swap_prod_mk, Function.comp_apply, id_eq]
  · intro l hl
    rw [List.map_map] at hl
    obtain ⟨r, -, rfl⟩ := List.mem_map.mp hl
    exact r.framed_text

end Interpose
