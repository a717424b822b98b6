import Interpose.Proofs.ParsedLines
import Mathlib.Data.List.Infix
import Mathlib.Data.List.TakeWhile

/-!
# The grammar of lines

A line of a table is words with blanks between them, and perhaps a comment behind them
(`LineWords`). Every line is so in exactly one way, and what it yields is decided by these words:
none at all leave it blank, any number but three is refused, and three are taken or judged by their
lengths (`parseLine_grammar`).

Nothing is lost in the other direction: three names (`IsName`) that are set apart by any blanks,
with any blanks and any comment around them, are read back as they are.

That a text falls into words in one way rests on `Text.spaced_iff`, which says that the words of a
text are what stands between its blanks. The first half follows the text, since a character joins
the first word or stands in front of it; the second follows the words.
-/

namespace Interpose

/-! ### Words and the blanks between them -/

namespace Text

/-- A text is some words with blanks between them, and perhaps before and behind them. A word is not
empty, holds no blank, and ends at a blank or with the text. -/
inductive Spaced : List Char → List (List Char) → Prop
  | blanks {b : List Char} (hb : ∀ c ∈ b, isBlank c = true) : Spaced b []
  | word {b w s : List Char} {ws : List (List Char)} (hb : ∀ c ∈ b, isBlank c = true) (hw : w ≠ [])
    (hsolid : ∀ c ∈ w, isBlank c = false) (hend : ∀ c ∈ s.head?, isBlank c = true)
    (hs : Spaced s ws) : Spaced (b ++ (w ++ s)) (w :: ws)

theorem Spaced.cons_blank {c : Char} (hc : isBlank c = true) {s : List Char}
    {ws : List (List Char)} (h : Spaced s ws) : Spaced (c :: s) ws := by
  cases h with
  | blanks hb => exact .blanks (List.forall_mem_cons.mpr ⟨hc, hb⟩)
  | @word b w s ws hb hw hsolid hend hs =>
    exact .word (b := c :: b) (List.forall_mem_cons.mpr ⟨hc, hb⟩) hw hsolid hend hs

theorem splitWord_cons_of_isBlank {c : Char} (hc : isBlank c = true) (s : List Char) :
    splitWord (c :: s) = ([], words s) := by
  simp [splitWord, words, hc]

theorem splitWord_cons_of_not_isBlank {c : Char} (hc : isBlank c = false) (s : List Char) :
    splitWord (c :: s) = (c :: (splitWord s).1, (splitWord s).2) := by
  simp [splitWord, hc]

theorem words_append_of_isBlank {b : List Char} (hb : ∀ c ∈ b, isBlank c = true) (s : List Char) :
    words (b ++ s) = words s := by
  induction b with
  | nil => rfl
  | cons c b ih =>
    rw [List.forall_mem_cons] at hb
    rw [List.cons_append, words_cons_of_isBlank hb.1, ih hb.2]

/-- A word that ends at a blank or with the text is split off. -/
theorem splitWord_append {w s : List Char} (hsolid : ∀ c ∈ w, isBlank c = false)
    (hend : ∀ c ∈ s.head?, isBlank c = true) : splitWord (w ++ s) = (w, words s) := by
  induction w with
  | nil =>
    cases s with
    | nil => rfl
    | cons c s =>
      have hc : isBlank c = true := hend c rfl
      rw [List.nil_append, splitWord_cons_of_isBlank hc, words_cons_of_isBlank hc]
  | cons c w ih =>
    rw [List.forall_mem_cons] at hsolid
    rw [List.cons_append, splitWord_cons_of_not_isBlank hsolid.1, ih hsolid.2]

/-- The characters before the first blank end there, and behind them stand the other words. -/
theorem exists_splitWord (s : List Char) :
    ∃ t, s = (splitWord s).1 ++ t ∧ (∀ c ∈ (splitWord s).1, isBlank c = false) ∧
      (∀ c ∈ t.head?, isBlank c = true) ∧ Spaced t (splitWord s).2 := by
  induction s with
  | nil => exact ⟨[], rfl, by simp [splitWord], by simp, .blanks (by simp)⟩
  | cons c s ih =>
    obtain ⟨t, hs, hsolid, hend, ht⟩ := ih
    cases hc : isBlank c with
    | true =>
      rw [splitWord_cons_of_isBlank hc]
      refine ⟨c :: s, rfl, by simp, by simpa using hc, ?_⟩
      rw [words, consWord]
      -- The blank stands in front of a word, or in front of another blank or the end.
      by_cases hw : (splitWord s).1 = []
      · rw [hw, List.nil_append] at hs
        rw [hw, hs] at *
        exact ht.cons_blank hc
      · rw [if_neg (by simpa using hw)]
        have hword := Spaced.word (b := [c]) (by simpa using hc) hw hsolid hend ht
        rwa [← hs] at hword
    | false =>
      rw [splitWord_cons_of_not_isBlank hc]
      exact ⟨t, congrArg (c :: ·) hs, List.forall_mem_cons.mpr ⟨hc, hsolid⟩, hend, ht⟩

/-- **The words of a text are a reading of it.** -/
theorem spaced_words (s : List Char) : Spaced s (words s) := by
  obtain ⟨t, hs, hsolid, hend, ht⟩ := exists_splitWord s
  rw [words, consWord]
  by_cases hw : (splitWord s).1 = []
  · rw [hw, List.nil_append] at hs
    simpa [hw, ← hs] using ht
  · have hword := Spaced.word (b := []) (by simp) hw hsolid hend ht
    rw [if_neg (by simpa using hw)]
    rwa [List.nil_append, ← hs] at hword

/-- **The words of a text** are what stands between its blanks, and nothing else is. -/
theorem spaced_iff {s : List Char} {ws : List (List Char)} : Spaced s ws ↔ words s = ws := by
  refine ⟨fun h ↦ ?_, fun h ↦ h ▸ spaced_words s⟩
  induction h with
  | @blanks b hb => simpa using words_append_of_isBlank hb []
  | @word b w s ws hb hw hsolid hend _ ih =>
    rw [words_append_of_isBlank hb, words, splitWord_append hsolid hend, consWord,
      if_neg (by simpa using hw), ih]

/-- A word is not empty, and its characters are those of the text that are no blanks. -/
theorem Spaced.solid {s : List Char} {ws : List (List Char)} (h : Spaced s ws) :
    ∀ w ∈ ws, w ≠ [] ∧ ∀ c ∈ w, isBlank c = false ∧ c ∈ s := by
  induction h with
  | blanks => simp
  | @word b w s ws _ hw hsolid _ _ ih =>
    refine List.forall_mem_cons.mpr ⟨⟨hw, fun c hc ↦ ⟨hsolid c hc, by simp [hc]⟩⟩, fun v hv ↦ ?_⟩
    obtain ⟨hne, hmem⟩ := ih v hv
    exact ⟨hne, fun c hc ↦ ⟨(hmem c hc).1, by simp [(hmem c hc).2]⟩⟩

/-! ### Prefixes within a budget -/

/-- Bytes are counted as they are for strings. -/
theorem byteLength_eq (s : List Char) : byteLength s = (String.ofList s).utf8ByteSize := by
  induction s with
  | nil => rfl
  | cons c s ih =>
    rw [byteLength_cons, ih, String.ofList_cons, String.utf8ByteSize_append,
      String.utf8ByteSize_singleton]

/-- The longest prefix of whole characters that occupies at most so many bytes. -/
structure LongestFit (budget : Nat) (w p : List Char) : Prop where
  isPrefix : p <+: w
  fits : byteLength p ≤ budget
  longest : ∀ q, q <+: w → byteLength q ≤ budget → q <+: p

/-- No prefix within the budget is longer than the one that is taken. -/
theorem prefix_takeBytes {budget : Nat} {q w : List Char} (hq : q <+: w)
    (hfits : byteLength q ≤ budget) : q <+: takeBytes budget w := by
  induction q generalizing budget w with
  | nil => exact List.nil_prefix
  | cons c q ih =>
    obtain ⟨t, rfl⟩ := hq
    rw [byteLength_cons] at hfits
    rw [List.cons_append, takeBytes, if_pos (by omega)]
    exact List.cons_prefix_cons.mpr ⟨rfl, ih (List.prefix_append q t) (by omega)⟩

/-- **What is taken is the longest prefix that fits**, and no other prefix is. -/
theorem longestFit_iff {budget : Nat} {w p : List Char} :
    LongestFit budget w p ↔ p = takeBytes budget w := by
  have htaken : takeBytes budget w <+: w := takeBytes_prefix budget w
  constructor
  · rintro ⟨hinitial, hfits, hlongest⟩
    have hle := hlongest _ htaken (byteLength_takeBytes_le budget w)
    exact (prefix_takeBytes hinitial hfits).eq_of_length_le hle.length_le
  · rintro rfl
    exact ⟨htaken, byteLength_takeBytes_le budget w, fun q hq hfits ↦ prefix_takeBytes hq hfits⟩

end Text

/-! ### The words of a line -/

/-- A line is some words, with blanks between them, and perhaps a comment behind them. -/
def LineWords (line : List Char) (ws : List (List Char)) : Prop :=
  ∃ body comment, line = body ++ comment ∧ '#' ∉ body ∧ (∀ c ∈ comment.head?, c = '#') ∧
    Text.Spaced body ws

/-- A line ends at the first mark of a comment. -/
theorem stripComment_append {body comment : List Char} (hbody : '#' ∉ body)
    (hcomment : ∀ c ∈ comment.head?, c = '#') : stripComment (body ++ comment) = body := by
  have hkeep : ∀ c ∈ body, decide (c ≠ '#') = true := by
    intro c hc
    simpa using fun h : c = '#' ↦ hbody (h ▸ hc)
  rw [stripComment, List.takeWhile_append_of_pos hkeep]
  cases comment with
  | nil => simp
  | cons c comment => simp [hcomment c rfl]

/-- Every line is what is in front of its comment, and the comment. -/
theorem exists_comment (line : List Char) :
    ∃ comment, line = stripComment line ++ comment ∧ '#' ∉ stripComment line ∧
      ∀ c ∈ comment.head?, c = '#' := by
  refine ⟨line.dropWhile (· ≠ '#'), List.takeWhile_append_dropWhile.symm, fun h ↦ ?_, fun c hc ↦ ?_⟩
  · simpa using List.mem_takeWhile_imp h
  · have hstop := List.head?_dropWhile_not (fun c : Char ↦ decide (c ≠ '#')) line
    rw [Option.mem_def.mp hc] at hstop
    simpa using hstop

/-- **Every line has its words in one way.** -/
theorem lineWords_iff {line : List Char} {ws : List (List Char)} :
    LineWords line ws ↔ Text.words (stripComment line) = ws := by
  constructor
  · rintro ⟨body, comment, rfl, hbody, hcomment, hs⟩
    rw [stripComment_append hbody hcomment]
    exact Text.spaced_iff.mp hs
  · intro h
    obtain ⟨comment, hline, hbody, hcomment⟩ := exists_comment line
    exact ⟨_, comment, hline, hbody, hcomment, Text.spaced_iff.mpr h⟩

/-- The words of a line hold neither a blank nor the mark of a comment. -/
theorem LineWords.solid {line : List Char} {ws : List (List Char)} (h : LineWords line ws) :
    ∀ w ∈ ws, w ≠ [] ∧ ∀ c ∈ w, Text.isBlank c = false ∧ c ≠ '#' := by
  obtain ⟨body, comment, -, hbody, -, hs⟩ := h
  intro w hw
  obtain ⟨hne, hmem⟩ := hs.solid w hw
  exact ⟨hne, fun c hc ↦ ⟨(hmem c hc).1, fun heq ↦ hbody (heq ▸ (hmem c hc).2)⟩⟩

/-! ### Names -/

/-- A text that can stand on a line as a word of its own, under either policy. -/
structure IsName (s : String) : Prop where
  ne_empty : s ≠ ""
  size_le : s.utf8ByteSize ≤ 255
  solid : ∀ c ∈ s.toList, Text.isBlank c = false ∧ c ≠ '#'

namespace NamePolicy

/-- Truncating keeps of a word what fits. -/
theorem bounded_truncate (field : Field) (word : List Char) :
    truncate.bounded field word = .ok (String.ofList (Text.takeBytes maxNameBytes word)) := by
  rw [bounded]
  by_cases h : Text.byteLength word ≤ maxNameBytes
  · rw [if_pos h, Text.takeBytes_of_le h]
  · rw [if_neg h]

/-- What a word is bounded to is a name. -/
theorem isName_of_bounded {policy : NamePolicy} {field : Field} {word : List Char} {name : String}
    (hne : word ≠ []) (hsolid : ∀ c ∈ word, Text.isBlank c = false ∧ c ≠ '#')
    (h : policy.bounded field word = .ok name) : IsName name := by
  have hname : name.toList <+: word ∧ Text.byteLength name.toList ≤ maxNameBytes := by
    unfold bounded at h
    split at h
    · next hle =>
      obtain rfl := Except.ok.inj h
      simpa using hle
    · cases policy with
      | truncate =>
        obtain rfl := Except.ok.inj h
        have htaken := Text.takeBytes_prefix maxNameBytes word
        rw [String.toList_ofList]
        exact ⟨htaken, Text.byteLength_takeBytes_le _ _⟩
      | reject => cases h
  refine ⟨ne_empty_of_bounded h hne, ?_, fun c hc ↦ hsolid c (hname.1.subset hc)⟩
  have hsize := hname.2
  rwa [Text.byteLength_eq, String.ofList_toList] at hsize

end NamePolicy

/-- A name is kept as it is, under either policy. -/
theorem IsName.bounded {s : String} (h : IsName s) (policy : NamePolicy) (field : Field) :
    policy.bounded field s.toList = .ok s := by
  have hle : Text.byteLength s.toList ≤ maxNameBytes := by
    rw [Text.byteLength_eq, String.ofList_toList]
    exact h.size_le
  rw [NamePolicy.bounded_of_le hle, String.ofList_toList]

/-! ### Lines of three words -/

section ThreeWords

variable {policy : NamePolicy} {line key library symbol : List Char}

/-- Three words are bounded one after the other, and the first that is refused decides. -/
theorem parseLine_of_lineWords (h : LineWords line [key, library, symbol]) :
    parseLine policy line = (do
      let key ← policy.bounded .key key
      let library ← policy.bounded .library library
      let symbol ← policy.bounded .symbol symbol
      return ⟨key, library, symbol⟩) := by
  rw [parseLine, lineWords_iff.mp h]

/-- Truncating refuses none of three words. -/
theorem parseLine_truncate (h : LineWords line [key, library, symbol]) :
    parseLine .truncate line =
      .ok ⟨.ofList (Text.takeBytes maxNameBytes key), .ofList (Text.takeBytes maxNameBytes library),
        .ofList (Text.takeBytes maxNameBytes symbol)⟩ := by
  rw [parseLine_of_lineWords h]
  simp only [NamePolicy.bounded_truncate]
  rfl

/-- Under the strict policy the first word over the limit is at fault. -/
theorem parseLine_reject (h : LineWords line [key, library, symbol]) :
    parseLine .reject line =
      match [(Field.key, key), (.library, library), (.symbol, symbol)].find?
        fun f ↦ maxNameBytes < Text.byteLength f.2 with
      | none => .ok ⟨.ofList key, .ofList library, .ofList symbol⟩
      | some (field, word) => .error (.tooLong field (Text.byteLength word)) := by
  have hbounded (field : Field) (word : List Char) :
      NamePolicy.reject.bounded field word =
        if maxNameBytes < Text.byteLength word then .error (.tooLong field (Text.byteLength word))
        else .ok (String.ofList word) := by
    rw [NamePolicy.bounded]
    by_cases hle : Text.byteLength word ≤ maxNameBytes
    · rw [if_pos hle, if_neg (Nat.not_lt.mpr hle)]
    · rw [if_neg hle, if_pos (Nat.lt_of_not_le hle)]
  rw [parseLine_of_lineWords h]
  simp only [hbounded, List.find?_cons]
  by_cases hkey : maxNameBytes < Text.byteLength key
  · simp [hkey, bind, Except.bind]
  by_cases hlibrary : maxNameBytes < Text.byteLength library
  · simp [hkey, hlibrary, bind, Except.bind]
  by_cases hsymbol : maxNameBytes < Text.byteLength symbol
  · simp [hkey, hlibrary, hsymbol, bind, Except.bind]
  · simp [hkey, hlibrary, hsymbol, bind, Except.bind, pure, Except.pure]

end ThreeWords

/-- A number of words that is not three is the reason for refusing a line, or leaves it blank. -/
theorem parseLine_of_length {policy : NamePolicy} {line : List Char} {ws : List (List Char)}
    (h : LineWords line ws) (hn : ws.length ≠ 3) :
    parseLine policy line = .error (if ws.length = 0 then .blank else .wordCount ws.length) := by
  rw [parseLine, lineWords_iff.mp h]
  split
  · rfl
  · exact absurd rfl hn
  · next hnil _ =>
    have hpos : ws.length ≠ 0 := fun h0 ↦ hnil (List.length_eq_zero_iff.mp h0)
    rw [if_neg hpos]

/-- Three words are refused for the length of one of them, if at all. -/
theorem exists_tooLong_of_parseLine {policy : NamePolicy} {line key library symbol : List Char}
    (h : LineWords line [key, library, symbol]) {reason : SkipReason}
    (hr : parseLine policy line = .error reason) :
    ∃ field bytes, reason = .tooLong field bytes := by
  cases policy with
  | truncate =>
    rw [parseLine_truncate h] at hr
    cases hr
  | reject =>
    rw [parseLine_reject h] at hr
    split at hr
    · cases hr
    · next field word _ => exact ⟨field, _, (Except.error.inj hr).symm⟩

theorem SkipReason.message_tooLong (field : Field) (bytes : Nat) :
    (tooLong field bytes).message =
      field.description ++ " is " ++ toString bytes ++ " bytes, maximum is 255" := by
  have hlimit : " bytes, maximum is " ++ toString maxNameBytes = " bytes, maximum is 255" := by
    decide +kernel
  show field.description ++ " is " ++ toString bytes ++ " bytes, maximum is " ++
    toString maxNameBytes = _
  rw [String.append_assoc, hlimit]

theorem parseLine_eq_blank_iff {policy : NamePolicy} {line : List Char} {ws : List (List Char)}
    (h : LineWords line ws) : parseLine policy line = .error .blank ↔ ws.length = 0 := by
  by_cases hthree : ws.length = 3
  · obtain ⟨key, library, symbol, rfl⟩ := List.length_eq_three.mp hthree
    refine ⟨fun hr ↦ ?_, fun h0 ↦ by simp at h0⟩
    obtain ⟨field, bytes, hreason⟩ := exists_tooLong_of_parseLine h hr
    cases hreason
  · rw [parseLine_of_length h hthree]
    by_cases h0 : ws.length = 0 <;> simp [h0]

/-- A line is refused for the number of its words just if it has some, and not three. -/
theorem parseLine_eq_wordCount_iff {policy : NamePolicy} {line : List Char}
    {ws : List (List Char)} (h : LineWords line ws) (n : Nat) :
    parseLine policy line = .error (.wordCount n) ↔ ws.length = n ∧ n ≠ 0 ∧ n ≠ 3 := by
  by_cases hthree : ws.length = 3
  · obtain ⟨key, library, symbol, rfl⟩ := List.length_eq_three.mp hthree
    refine ⟨fun hr ↦ ?_, fun ⟨hn, _, hne⟩ ↦ absurd hn.symm hne⟩
    obtain ⟨field, bytes, hreason⟩ := exists_tooLong_of_parseLine h hr
    cases hreason
  · rw [parseLine_of_length h hthree]
    by_cases h0 : ws.length = 0
    · simp only [h0, if_true, Except.error.injEq, reduceCtorEq, false_iff]
      rintro ⟨rfl, hne, -⟩
      exact hne rfl
    · rw [if_neg h0]
      simp only [Except.error.injEq, SkipReason.wordCount.injEq]
      exact ⟨fun hn ↦ ⟨hn, hn ▸ h0, hn ▸ hthree⟩, And.left⟩

/-- What is read from a line consists of names. -/
theorem isName_of_parseLine {policy : NamePolicy} {line : List Char} {a : Assignment}
    (h : parseLine policy line = .ok a) :
    IsName a.key ∧ IsName a.target.library ∧ IsName a.target.symbol := by
  obtain ⟨key, library, symbol, hwords, hkey, hlibrary, hsymbol⟩ := exists_bounded_of_parseLine h
  have hsolid := (lineWords_iff.mpr hwords).solid
  simp only [List.forall_mem_cons] at hsolid
  obtain ⟨⟨hkne, hks⟩, ⟨hlne, hls⟩, ⟨hsne, hss⟩, -⟩ := hsolid
  exact ⟨NamePolicy.isName_of_bounded hkne hks hkey, NamePolicy.isName_of_bounded hlne hls hlibrary,
    NamePolicy.isName_of_bounded hsne hss hsymbol⟩

/-! ### Lines made of names -/

/-- A name in front of a text that begins with a blank is one word more. -/
theorem IsName.spaced {name : String} (h : IsName name) {blanks s : List Char}
    {ws : List (List Char)} (hb : ∀ c ∈ blanks, Text.isBlank c = true)
    (hend : ∀ c ∈ s.head?, Text.isBlank c = true) (hs : Text.Spaced s ws) :
    Text.Spaced (blanks ++ (name.toList ++ s)) (name.toList :: ws) :=
  .word hb (by simpa using h.ne_empty) (fun c hc ↦ (h.solid c hc).1) hend hs

theorem head?_append_of_isBlank {b s : List Char} (hne : b ≠ [])
    (hb : ∀ c ∈ b, Text.isBlank c = true) : ∀ c ∈ (b ++ s).head?, Text.isBlank c = true := by
  cases b with
  | nil => exact absurd rfl hne
  | cons d b =>
    intro c hc
    obtain rfl : d = c := by simpa using hc
    exact hb d (by simp)

/-- Three names, set apart by blanks, make a line of three words. -/
theorem lineWords_of_isName {key library symbol : String} (hkey : IsName key)
    (hlibrary : IsName library) (hsymbol : IsName symbol)
    {before first second behind comment : List Char}
    (hblank : ∀ b ∈ [before, first, second, behind], ∀ c ∈ b, Text.isBlank c = true)
    (hfirst : first ≠ []) (hsecond : second ≠ []) (hcomment : ∀ c ∈ comment.head?, c = '#') :
    LineWords (before ++ key.toList ++ first ++ library.toList ++ second ++ symbol.toList ++
      behind ++ comment) [key.toList, library.toList, symbol.toList] := by
  simp only [List.forall_mem_cons] at hblank
  obtain ⟨hbefore, hb₁, hb₂, hbehind, -⟩ := hblank
  have hmark {b : List Char} (hb : ∀ c ∈ b, Text.isBlank c = true) : '#' ∉ b :=
    fun h ↦ absurd (hb _ h) (by decide)
  have hplain {s : String} (hs : IsName s) : '#' ∉ s.toList := fun h ↦ (hs.solid _ h).2 rfl
  refine ⟨_, comment, rfl, ?_, hcomment, ?_⟩
  · simp only [List.mem_append, not_or]
    exact ⟨⟨⟨⟨⟨⟨hmark hbefore, hplain hkey⟩, hmark hb₁⟩, hplain hlibrary⟩, hmark hb₂⟩,
      hplain hsymbol⟩, hmark hbehind⟩
  · have hlast : Text.Spaced (second ++ (symbol.toList ++ behind)) [symbol.toList] :=
      hsymbol.spaced hb₂ (fun c hc ↦ hbehind c (List.mem_of_mem_head? hc)) (.blanks hbehind)
    have htwo := hlibrary.spaced hb₁ (head?_append_of_isBlank hsecond hb₂) hlast
    have hthree := hkey.spaced hbefore (head?_append_of_isBlank hfirst hb₁) htwo
    simpa only [List.append_assoc] using hthree

/-- **Lines are read by their grammar.**

Every line has its words in one way. Without words it is blank, and with a number of them that is
not three it is refused with that number. Of three words, truncating keeps the longest prefixes of
whole characters within 255 bytes. The strict policy takes them as they are if all three are within
that limit, and else refuses the line, telling the first word that is not with its length in bytes.
What is read consists of names. And three names that are set apart by blanks, with any blanks and
any comment around them, are read as they are under either policy. -/
theorem parseLine_grammar (policy : NamePolicy) :
    (∀ line : List Char, ∃ ws, (∀ vs, LineWords line vs ↔ vs = ws) ∧
      (parseLine policy line = .error .blank ↔ ws.length = 0) ∧
      (∀ n, parseLine policy line = .error (.wordCount n) ↔ ws.length = n ∧ n ≠ 0 ∧ n ≠ 3) ∧
      (∀ key library symbol, ws = [key, library, symbol] →
        (policy = .truncate → ∃ k l s,
          (Text.LongestFit 255 key k ∧ Text.LongestFit 255 library l ∧
            Text.LongestFit 255 symbol s) ∧
          parseLine policy line = .ok ⟨.ofList k, .ofList l, .ofList s⟩) ∧
        (policy = .reject →
          parseLine policy line =
            match [(Field.key, key), (.library, library), (.symbol, symbol)].find?
              fun f ↦ 255 < Text.byteLength f.2 with
            | none => .ok ⟨.ofList key, .ofList library, .ofList symbol⟩
            | some (field, word) => .error (.tooLong field (Text.byteLength word)))) ∧
      ∀ a, parseLine policy line = .ok a →
        IsName a.key ∧ IsName a.target.library ∧ IsName a.target.symbol) ∧
    (∀ field bytes, (SkipReason.tooLong field bytes).message =
      field.description ++ " is " ++ toString bytes ++ " bytes, maximum is 255") ∧
    ∀ key library symbol : String, IsName key → IsName library → IsName symbol →
      ∀ before first second behind comment : List Char,
        (∀ b ∈ [before, first, second, behind], ∀ c ∈ b, Text.isBlank c = true) →
        first ≠ [] → second ≠ [] → (∀ c ∈ comment.head?, c = '#') →
        parseLine policy (before ++ key.toList ++ first ++ library.toList ++ second ++
          symbol.toList ++ behind ++ comment) = .ok ⟨key, library, symbol⟩ := by
  refine ⟨fun line ↦ ?_, SkipReason.message_tooLong, ?_⟩
  · have hline : LineWords line (Text.words (stripComment line)) := lineWords_iff.mpr rfl
    refine ⟨_, fun vs ↦ lineWords_iff.trans eq_comm, parseLine_eq_blank_iff hline,
      parseLine_eq_wordCount_iff hline, fun key library symbol hwords ↦ ?_,
      fun a ha ↦ isName_of_parseLine ha⟩
    rw [hwords] at hline
    refine ⟨?_, ?_⟩
    · rintro rfl
      exact ⟨_, _, _, ⟨Text.longestFit_iff.mpr rfl, Text.longestFit_iff.mpr rfl,
        Text.longestFit_iff.mpr rfl⟩, parseLine_truncate hline⟩
    · rintro rfl
      exact parseLine_reject hline
  · intro key library symbol hkey hlibrary hsymbol before first second behind comment hblank hfirst
      hsecond hcomment
    have hline := lineWords_of_isName hkey hlibrary hsymbol hblank hfirst hsecond hcomment
    rw [parseLine_of_lineWords hline, hkey.bounded, hlibrary.bounded, hsymbol.bounded]
    rfl

/-- The limit falls into the last character of the second word: truncating leaves that character
out, and the strict policy tells the length of the whole word. -/
theorem parseLine_grammar_straddled :
    let kept := List.replicate 254 'a'
    let line := "sum ".toList ++ kept ++ "é f#rest".toList
    LineWords line ["sum".toList, kept ++ ['é'], "f".toList] ∧
      parseLine .truncate line = .ok ⟨"sum", .ofList kept, "f"⟩ ∧
      parseLine .reject line = .error (.tooLong .library 256) := by
  intro kept line
  have hline : LineWords line ["sum".toList, kept ++ ['é'], "f".toList] :=
    lineWords_iff.mpr (by decide +kernel)
  obtain ⟨ws, hws, -, -, hthree, -⟩ := (parseLine_grammar .truncate).1 line
  obtain ⟨vs, hvs, -, -, hstrict, -⟩ := (parseLine_grammar .reject).1 line
  obtain ⟨k, l, s, ⟨hk, hl, hs⟩, hok⟩ := (hthree _ _ _ ((hws _).mp hline).symm).1 rfl
  obtain rfl : k = "sum".toList := (Text.longestFit_iff.mp hk).trans (by decide +kernel)
  obtain rfl : l = kept := (Text.longestFit_iff.mp hl).trans (by decide +kernel)
  obtain rfl : s = "f".toList := (Text.longestFit_iff.mp hs).trans (by decide +kernel)
  refine ⟨hline, hok, ((hstrict _ _ _ ((hvs _).mp hline).symm).2 rfl).trans ?_⟩
  decide +kernel

end Interpose
