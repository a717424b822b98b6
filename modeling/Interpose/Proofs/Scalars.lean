import Interpose.Json.Parser
import Interpose.Json.Printer
import Mathlib.Tactic.SplitIfs

/-!
# Reading back strings and integers

The text of a string reads back as the string (`stringBody_flatMap`), whatever its characters are,
and the text of an integer that fits a word reads back as the integer (`number_integerText`). Each
is read off the front of a longer text. A string ends at its quote; a number ends where a character
follows that could not continue it, which is `Stops`.

Both follow the printer. A character is printed in one of three forms, and each form is read by one
path of the parser (`escapeChar_cases`). The digits of a number are its quotient by ten and one
digit more, and they are taken in the same way (`absorb_toDigits`).
-/

namespace Interpose.Json

namespace Parser

variable {α : Type} {n : Nat}

/-- An outcome of a parser is a value with the rest of the text. -/
def Reads (x : Except Fault (Read α n)) (v : α) (rest : List Char) : Prop :=
  ∃ h, x = .ok ⟨v, rest, h⟩

/-! ### Strings -/

theorem stringBody_quote (s : List Char) : Reads (stringBody ('"' :: s)) [] s := by
  rw [stringBody]
  exact ⟨by simp, rfl⟩

/-- A backslash begins an escape, which stands for one character of the string. -/
theorem stringBody_escape {s t rest : List Char} {d : Char} {cs : List Char}
    (hd : Reads (escape s) d t) (hcs : Reads (stringBody t) cs rest) :
    Reads (stringBody ('\\' :: s)) (d :: cs) rest := by
  obtain ⟨h₁, hd⟩ := hd
  obtain ⟨h₂, hcs⟩ := hcs
  rw [stringBody]
  simp only [hd, hcs]
  exact ⟨_, rfl⟩

/-- Any other character stands for itself, unless it is a control character. -/
theorem stringBody_plain {s rest cs : List Char} {c : Char} (hq : c ≠ '"') (hb : c ≠ '\\')
    (hc : ¬c < ' ') (hcs : Reads (stringBody s) cs rest) :
    Reads (stringBody (c :: s)) (c :: cs) rest := by
  obtain ⟨h, hcs⟩ := hcs
  rw [stringBody]
  simp only [hq, hb, hc, if_false, hcs]
  exact ⟨_, rfl⟩

theorem escape_letter {c d : Char} (hu : c ≠ 'u') (h : letterEscape? c = some d) (s : List Char) :
    Reads (escape (c :: s)) d s := by
  simp only [escape, hu, if_false, h]
  exact ⟨_, rfl⟩

/-- Two hexadecimal digits are enough for a control character. -/
theorem hexValue?_hexDigit : ∀ n < 32,
    hexValue? '0' '0' (hexDigit (n / 16)) (hexDigit (n % 16)) = some n := by decide

/-- Control characters are escaped by their numbers. -/
theorem escape_control {c : Char} (hc : c < ' ') (s : List Char) :
    Reads (escape ('u' :: '0' :: '0' :: hexDigit (c.toNat / 16) :: hexDigit (c.toNat % 16) :: s))
      c s := by
  have hn : c.toNat < 32 := hc
  have ht : isTrailing c.toNat = false := by simp [isTrailing]; omega
  have hl : isLeading c.toNat = false := by simp [isLeading]; omega
  simp only [escape, if_true, unicodeEscape, hexEscape, hexValue?_hexDigit _ hn, ht, hl]
  refine ⟨by simp; omega, ?_⟩
  simp [Read.map, Read.widen, Char.ofNat_toNat]

/-- **The three forms of a character** in print: a backslash and a letter, its number in four
digits, or the character itself. What the cases exclude is what the parser asks about first. -/
theorem escapeChar_cases (c : Char) :
    (∃ d, d ≠ 'u' ∧ letterEscape? d = some c ∧ escapeChar c = ['\\', d]) ∨
      (c < ' ' ∧ escapeChar c =
        ['\\', 'u', '0', '0', hexDigit (c.toNat / 16), hexDigit (c.toNat % 16)]) ∨
      (c ≠ '"' ∧ c ≠ '\\' ∧ ¬c < ' ' ∧ escapeChar c = [c]) := by
  have letter {d : Char} (l : Char) (hu : l ≠ 'u') (hl : letterEscape? l = some d) :
      ∃ e, e ≠ 'u' ∧ letterEscape? e = some d ∧ ['\\', l] = ['\\', e] := ⟨l, hu, hl, rfl⟩
  rw [escapeChar]
  split_ifs with h₁ h₂ h₃ h₄ h₅ h₆ h₇ h₈
  · subst c; exact .inl (letter '"' (by decide) (by decide))
  · subst c; exact .inl (letter '\\' (by decide) (by decide))
  · subst c; exact .inl (letter 'b' (by decide) (by decide))
  · subst c; exact .inl (letter 'f' (by decide) (by decide))
  · subst c; exact .inl (letter 'n' (by decide) (by decide))
  · subst c; exact .inl (letter 'r' (by decide) (by decide))
  · subst c; exact .inl (letter 't' (by decide) (by decide))
  · exact .inr (.inl ⟨h₈, rfl⟩)
  · exact .inr (.inr ⟨h₁, h₂, h₈, rfl⟩)

/-- A character that was escaped reads back as itself, in front of the rest of the string. -/
theorem stringBody_escapeChar (c : Char) {s rest cs : List Char}
    (hcs : Reads (stringBody s) cs rest) :
    Reads (stringBody (escapeChar c ++ s)) (c :: cs) rest := by
  obtain ⟨d, hu, hd, h⟩ | ⟨hc, h⟩ | ⟨hq, hb, hc, h⟩ := escapeChar_cases c
  · rw [h]
    exact stringBody_escape (escape_letter hu hd s) hcs
  · rw [h]
    exact stringBody_escape (escape_control hc s) hcs
  · rw [h]
    exact stringBody_plain hq hb hc hcs

/-- **A string reads back** off its characters, each of them escaped, and the quote that ends it. -/
theorem stringBody_flatMap (cs rest : List Char) :
    Reads (stringBody (cs.flatMap escapeChar ++ '"' :: rest)) cs rest := by
  induction cs with
  | nil => exact stringBody_quote rest
  | cons c cs ih =>
    rw [List.flatMap_cons, List.append_assoc]
    exact stringBody_escapeChar c ih

/-! ### Numbers -/

/-- What may follow a number: no character that would continue it. -/
def Stops (rest : List Char) : Prop :=
  ∀ c ∈ rest.head?, c.isDigit = false ∧ c ≠ '.' ∧ c ≠ 'e' ∧ c ≠ 'E'

theorem stops_nil : Stops [] := by
  intro c hc
  simp at hc

/-- What follows an item or a member stops a number. -/
theorem stops_cons {c : Char} (hc : c ∈ [',', ']', '\x7d']) (s : List Char) : Stops (c :: s) := by
  intro d hd
  obtain rfl : c = d := Option.some.inj hd
  simp only [List.mem_cons, List.not_mem_nil, or_false] at hc
  obtain rfl | rfl | rfl := hc
  all_goals decide

/-- What stops a number begins with no digit. -/
theorem Stops.takeWhile_isDigit {rest : List Char} (hr : Stops rest) :
    rest.takeWhile Char.isDigit = [] := by
  cases rest with
  | nil => rfl
  | cons c s => exact List.takeWhile_cons_of_neg (by simp [(hr c rfl).1])

theorem Stops.dropWhile_isDigit {rest : List Char} (hr : Stops rest) :
    rest.dropWhile Char.isDigit = rest := by
  cases rest with
  | nil => rfl
  | cons c s => exact List.dropWhile_cons_of_neg (by simp [(hr c rfl).1])

/-- Digits are taken up to what stops the number. -/
theorem digits_append {ds rest : List Char} (hne : ds ≠ []) (hds : ∀ c ∈ ds, c.isDigit)
    (hr : Stops rest) : Reads (digits (ds ++ rest)) ds rest := by
  cases ds with
  | nil => contradiction
  | cons d ds =>
    have htail : ∀ c ∈ ds, c.isDigit := fun c hc ↦ hds c (List.mem_cons_of_mem d hc)
    simp only [List.cons_append, digits, hds d List.mem_cons_self, if_true,
      List.takeWhile_append_of_pos htail, List.dropWhile_append_of_pos htail,
      hr.takeWhile_isDigit, hr.dropWhile_isDigit, List.append_nil]
    exact ⟨_, rfl⟩

/-- A number that is not zero does not begin with a zero. -/
theorem toDigits_eq_cons {m : Nat} (hm : m ≠ 0) :
    ∃ d ds, Nat.toDigits 10 m = d :: ds ∧ d ≠ '0' := by
  induction m using Nat.strongRecOn with
  | ind m ih =>
    obtain hlt | hle := Nat.lt_or_ge m 10
    · exact ⟨m.digitChar, [], Nat.toDigits_of_lt_base hlt, by simpa using hm⟩
    · obtain ⟨d, ds, hq, hd⟩ := ih (m / 10) (by omega) (by omega)
      refine ⟨d, ds ++ [(m % 10).digitChar], ?_, hd⟩
      rw [Nat.toDigits_of_base_le (by decide) hle, hq, List.cons_append]

/-- A zero is a whole part by itself, and no digit may follow it. -/
theorem wholePart_zero {rest : List Char} (hr : Stops rest) :
    Reads (wholePart ('0' :: rest)) ['0'] rest := by
  cases rest with
  | nil => exact ⟨_, rfl⟩
  | cons c s =>
    simp only [wholePart, (hr c rfl).1, Bool.false_eq_true, if_false]
    exact ⟨_, rfl⟩

/-- Without a zero in front, the whole part is all the digits that there are. -/
theorem wholePart_of_ne_zero {d : Char} (hd : d ≠ '0') (s : List Char) :
    wholePart (d :: s) = digits (d :: s) := by
  rw [wholePart]
  intro c t h
  exact hd (List.cons.inj h).1

/-- The digits of a number are a whole part, because the only one that begins with a zero is
zero. -/
theorem wholePart_toDigits (m : Nat) {rest : List Char} (hr : Stops rest) :
    Reads (wholePart (Nat.toDigits 10 m ++ rest)) (Nat.toDigits 10 m) rest := by
  by_cases hm : m = 0
  · subst m
    exact wholePart_zero hr
  · obtain ⟨d, ds, h, hd⟩ := toDigits_eq_cons hm
    have hds : ∀ c ∈ Nat.toDigits 10 m, c.isDigit :=
      fun c hc ↦ Nat.isDigit_of_mem_toDigits (by decide) (by decide) hc
    rw [h] at hds ⊢
    rw [List.cons_append, wholePart_of_ne_zero hd]
    exact digits_append (List.cons_ne_nil d ds) hds hr

theorem placesPart_stops {rest : List Char} (hr : Stops rest) :
    Reads (placesPart rest) [] rest := by
  unfold placesPart
  split
  · exact absurd rfl (hr '.' rfl).2.1
  · exact ⟨_, rfl⟩

theorem exponentPart_stops {rest : List Char} (hr : Stops rest) :
    Reads (exponentPart rest) none rest := by
  cases rest with
  | nil => exact ⟨_, rfl⟩
  | cons c s =>
    obtain ⟨-, -, he, hE⟩ := hr c rfl
    simp only [exponentPart, he, hE, or_self, if_false]
    exact ⟨_, rfl⟩


/-- The digits of a number make a numeral without places and without an exponent. -/
theorem unsignedNumeral_toDigits (negative : Bool) (m : Nat) {rest : List Char} (hr : Stops rest) :
    Reads (unsignedNumeral negative (Nat.toDigits 10 m ++ rest))
      { negative, whole := Nat.toDigits 10 m } rest := by
  obtain ⟨h₁, hw⟩ := wholePart_toDigits m hr
  obtain ⟨h₂, hp⟩ := placesPart_stops hr
  obtain ⟨h₃, he⟩ := exponentPart_stops hr
  simp only [unsignedNumeral, hw, hp, he]
  exact ⟨_, rfl⟩

end Parser

namespace Numeral

/-- Digits that were all taken leave the others to be taken. -/
theorem absorb_append {limit n k : Nat} {ds : List Char} (h : absorb limit n ds = (k, []))
    (es : List Char) : absorb limit n (ds ++ es) = absorb limit k es := by
  induction ds generalizing n with
  | nil =>
    obtain ⟨rfl, -⟩ := Prod.mk.inj h
    rfl
  | cons d ds ih =>
    simp only [absorb] at h
    simp only [List.cons_append, absorb]
    split at h
    · rename_i hle
      rw [if_pos hle]
      exact ih h
    · simp at h

theorem digitValue_digitChar {n : Nat} (hn : n < 10) : digitValue n.digitChar = n :=
  Nat.toNat_digitChar_sub_48_of_lt_ten hn

/-- A number that fits is taken in whole. -/
theorem absorb_toDigits {limit m : Nat} (hm : m ≤ limit) :
    absorb limit 0 (Nat.toDigits 10 m) = (m, []) := by
  induction m using Nat.strongRecOn with
  | ind m ih =>
    obtain hlt | hle := Nat.lt_or_ge m 10
    · simp [Nat.toDigits_of_lt_base hlt, absorb, digitValue_digitChar hlt, hm]
    · -- The digits of the quotient are taken in first, and the last digit brings it back to `m`.
      have hq : absorb limit 0 (Nat.toDigits 10 (m / 10)) = (m / 10, []) :=
        ih (m / 10) (by omega) (by omega)
      have hdigit : digitValue (m % 10).digitChar = m % 10 := digitValue_digitChar (by omega)
      have hnext : m / 10 * 10 + m % 10 = m := by omega
      rw [Nat.toDigits_of_base_le (by decide) hle, absorb_append hq]
      simp only [absorb, hdigit, hnext, if_pos hm]

/-- An integer that fits a word is the value of its digits and its sign. -/
theorem value_toDigits {negative : Bool} {n : Integer} (hn : negative = decide (n.val < 0))
    (rest : List Char) :
    value { negative, whole := Nat.toDigits 10 n.val.natAbs } rest = .ok (.integer n) := by
  have hmax : n.val.natAbs ≤ maxWord := by
    have := n.ge_min
    have := n.lt_max
    simp only [maxWord]
    omega
  have hsig : significand { negative, whole := Nat.toDigits 10 n.val.natAbs } =
      (n.val.natAbs, 0) := by
    simp [significand, absorb_toDigits hmax, absorb]
  -- The sign is that of the number, so that a zero has none and the number fits.
  have hsigned : (if negative then -(n.val.natAbs : Int) else n.val.natAbs) = n.val := by
    split_ifs with hneg <;> simp [hn] at hneg <;> omega
  have hzero : ¬(negative ∧ n.val.natAbs = 0) := by
    rintro ⟨hneg, hz⟩
    simp [hn] at hneg
    omega
  have hfits : Integer.ofInt? n.val = some n := dif_pos ⟨n.ge_min, n.lt_max⟩
  simp only [value, hsig, List.isEmpty_nil, hzero, not_false_eq_true, and_self, if_true, hsigned,
    hfits]

end Numeral

namespace Parser

theorem numeral_minus {s rest : List Char} {v : Numeral}
    (h : Reads (unsignedNumeral true s) v rest) : Reads (numeral ('-' :: s)) v rest := by
  obtain ⟨_, h⟩ := h
  simp only [numeral, h]
  exact ⟨_, rfl⟩

/-- Digits begin with no minus sign, so the numeral is that of the digits. -/
theorem numeral_toDigits (m : Nat) (rest : List Char) :
    numeral (Nat.toDigits 10 m ++ rest) = unsignedNumeral false (Nat.toDigits 10 m ++ rest) := by
  rw [numeral]
  intro s h
  cases hd : Nat.toDigits 10 m with
  | nil => simp at hd
  | cons d ds =>
    have hdigit : d.isDigit :=
      Nat.isDigit_of_mem_toDigits (by decide) (by decide) (hd ▸ List.mem_cons_self)
    rw [hd, List.cons_append] at h
    rw [(List.cons.inj h).1] at hdigit
    exact absurd hdigit (by decide)

/-- The numeral that an integer is written as. -/
theorem numeral_integerText (n : Int) {rest : List Char} (hr : Stops rest) :
    Reads (numeral (Number.integerText n ++ rest))
      { negative := decide (n < 0), whole := Nat.toDigits 10 n.natAbs } rest := by
  rw [Number.integerText]
  by_cases hneg : n < 0
  · rw [if_pos hneg, decide_eq_true hneg]
    exact numeral_minus (unsignedNumeral_toDigits true n.natAbs hr)
  · rw [if_neg hneg, decide_eq_false hneg, numeral_toDigits]
    exact unsignedNumeral_toDigits false n.natAbs hr

/-- **An integer that fits a word reads back** off its text, in front of what stops it. -/
theorem number_integerText (n : Integer) {rest : List Char} (hr : Stops rest) :
    Reads (number (Number.integerText n.val ++ rest)) (.integer n) rest := by
  obtain ⟨h, hnumeral⟩ := numeral_integerText n.val hr
  simp only [number, hnumeral, Numeral.value_toDigits rfl]
  exact ⟨_, rfl⟩

end Parser

end Interpose.Json
