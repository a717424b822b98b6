import Interpose.Proofs.Encoding
import Interpose.Proofs.Grammar
import Mathlib.Data.Nat.Find
import Mathlib.Order.Bounds.Defs

/-!
# Truncation on bytes

A text is cut down to a budget of bytes character by character. It can also be cut down without
looking at characters at all: begin at the budget and go back byte by byte, until the byte at the
offset is not one that continues a character. This way could go wrong in three places. There might
be no such offset, there might be one that is passed over, and what is before it might not be a
text. `truncate_longest` says that it does not go wrong and comes to the same.

The UTF-8 form of a character is a lead and continuations (`exists_lead`). So the offsets at which
going back stops are the lengths of the prefixes of whole characters (`isBoundary_utf8_iff`), and
these are the valid positions of the string (`isValid_iff`). Zero is one of them, and the first one
that is met is the greatest (`stepBack?_eq`). It is at most three bytes back, since no character has
more than four (`le_byteLength_takeBytes`).
-/

namespace Interpose.Text

/-! ### Going back on bytes -/

/-- Whether a byte continues a character that was begun before it. -/
def isContinuation (b : UInt8) : Bool := 0x80 ≤ b && b ≤ 0xBF

/-- Whether an offset lies between characters or at an end, judged by the byte there alone. -/
def isBoundary (bytes : List UInt8) (offset : ℕ) : Bool :=
  offset == 0 ||
    match bytes[offset]? with
    | some b => !isContinuation b
    | none => offset == bytes.length

/-- The first boundary that is met from an offset on back, unless there is none down to zero. -/
def stepBack? (bytes : List UInt8) : ℕ → Option ℕ
  | 0 => if isBoundary bytes 0 then some 0 else none
  | n + 1 => if isBoundary bytes (n + 1) then some (n + 1) else stepBack? bytes n

/-- The bytes before an offset, if that is a boundary. -/
def sliceBefore? (bytes : List UInt8) (offset : ℕ) : Option (List UInt8) :=
  if isBoundary bytes offset then some (bytes.take offset) else none

/-- The bytes of a text cut down to a budget, unless no boundary is met. -/
def truncateBytes? (bytes : List UInt8) (budget : ℕ) : Option (List UInt8) :=
  if bytes.length ≤ budget then some bytes
  else (stepBack? bytes budget).bind (sliceBefore? bytes)

/-- Going back finds the greatest boundary, and does not run below zero, which is one. -/
theorem stepBack?_eq (bytes : List UInt8) (offset : ℕ) :
    stepBack? bytes offset = some (Nat.findGreatest (isBoundary bytes · = true) offset) := by
  induction offset with
  | zero => rfl
  | succ n ih =>
    rw [stepBack?, Nat.findGreatest_succ]
    by_cases h : isBoundary bytes (n + 1) = true
    · rw [if_pos h, if_pos h]
    · rw [if_neg h, if_neg h, ih]

/-! ### The bytes of a text -/

/-- The UTF-8 form of a text. -/
def utf8 (s : List Char) : List UInt8 := s.flatMap String.utf8EncodeChar

theorem length_utf8 (s : List Char) : (utf8 s).length = byteLength s := by
  induction s with
  | nil => rfl
  | cons c s ih =>
    rw [byteLength_cons, ← ih, utf8, List.flatMap_cons, List.length_append,
      String.length_utf8EncodeChar]
    rfl

/-- The bytes of a prefix are the first ones. -/
theorem take_utf8 {p s : List Char} (h : p <+: s) : (utf8 s).take (byteLength p) = utf8 p := by
  obtain ⟨t, rfl⟩ := h
  rw [utf8, List.flatMap_append]
  exact List.take_left' (length_utf8 p)

theorem isContinuation_ofNat (n : ℕ) : isContinuation (UInt8.ofNat (n % 64 + 128)) = true := by
  have hn : (UInt8.ofNat (n % 64 + 128)).toNat = n % 64 + 128 := Utf8.toNat_ofNat (by omega)
  rw [isContinuation, Bool.and_eq_true, decide_eq_true_eq, decide_eq_true_eq,
    UInt8.le_iff_toNat_le, UInt8.le_iff_toNat_le, hn]
  exact ⟨show 128 ≤ _ by omega, show _ ≤ 191 by omega⟩

theorem isContinuation_eq_false {n : ℕ} (hn : n < 256) (h : n < 128 ∨ 192 ≤ n) :
    isContinuation (UInt8.ofNat n) = false := by
  rw [isContinuation, Bool.and_eq_false_iff, decide_eq_false_iff_not, decide_eq_false_iff_not,
    UInt8.le_iff_toNat_le, UInt8.le_iff_toNat_le, Utf8.toNat_ofNat hn]
  rcases h with h | h
  · exact .inl (show ¬128 ≤ n by omega)
  · exact .inr (show ¬n ≤ 191 by omega)

/-- **The form of a character** is a byte that is no continuation, and continuations. -/
theorem exists_lead (c : Char) : ∃ b bs, String.utf8EncodeChar c = b :: bs ∧
    isContinuation b = false ∧ ∀ x ∈ bs, isContinuation x = true := by
  simp only [String.utf8EncodeChar]
  split
  · exact ⟨_, [], rfl, isContinuation_eq_false (by omega) (.inl (by omega)), by simp⟩
  split
  · refine ⟨_, _, rfl, isContinuation_eq_false (by omega) (.inr (by omega)), ?_⟩
    simp only [List.forall_mem_cons, isContinuation_ofNat, List.not_mem_nil, false_implies,
      implies_true, and_self]
  split
  · refine ⟨_, _, rfl, isContinuation_eq_false (by omega) (.inr (by omega)), ?_⟩
    simp only [List.forall_mem_cons, isContinuation_ofNat, List.not_mem_nil, false_implies,
      implies_true, and_self]
  · refine ⟨_, _, rfl, isContinuation_eq_false (by omega) (.inr (by omega)), ?_⟩
    simp only [List.forall_mem_cons, isContinuation_ofNat, List.not_mem_nil, false_implies,
      implies_true, and_self]

/-! ### Boundaries -/

/-- In a text the byte at offset zero needs no exception: it begins a character, if there is one. -/
theorem isBoundary_utf8 (s : List Char) (offset : ℕ) :
    isBoundary (utf8 s) offset =
      match (utf8 s)[offset]? with
      | some b => !isContinuation b
      | none => offset == byteLength s := by
  rw [isBoundary, length_utf8]
  rcases offset with - | n
  · rcases s with - | ⟨c, s⟩
    · rfl
    · obtain ⟨b, bs, hc, hb, -⟩ := exists_lead c
      rw [utf8, List.flatMap_cons, hc]
      simp [hb]
  · rfl

/-- Inside a character there is no boundary. -/
theorem isBoundary_utf8_cons_of_lt {c : Char} {s : List Char} {offset : ℕ} (hpos : 0 < offset)
    (hlt : offset < c.utf8Size) : isBoundary (utf8 (c :: s)) offset = false := by
  obtain ⟨b, bs, hc, -, hbs⟩ := exists_lead c
  obtain ⟨n, rfl⟩ : ∃ n, offset = n + 1 := ⟨offset - 1, by omega⟩
  have hsize : bs.length + 1 = c.utf8Size := by
    rw [← String.length_utf8EncodeChar, hc, List.length_cons]
  have hn : n < bs.length := by omega
  rw [isBoundary_utf8, utf8, List.flatMap_cons, hc, List.cons_append, List.getElem?_cons_succ,
    List.getElem?_append_left hn, List.getElem?_eq_getElem hn]
  simp [hbs]

/-- Behind a character the boundaries are those of what follows it. -/
theorem isBoundary_utf8_cons_add (c : Char) (s : List Char) (offset : ℕ) :
    isBoundary (utf8 (c :: s)) (c.utf8Size + offset) = isBoundary (utf8 s) offset := by
  have hbyte : (utf8 (c :: s))[c.utf8Size + offset]? = (utf8 s)[offset]? := by
    rw [utf8, List.flatMap_cons, ← String.length_utf8EncodeChar,
      List.getElem?_append_right (Nat.le_add_right _ _), Nat.add_sub_cancel_left]
    rfl
  rw [isBoundary_utf8, isBoundary_utf8, hbyte, byteLength_cons]
  rcases (utf8 s)[offset]? with - | b
  · simp
  · rfl

/-- **The boundaries** are behind the prefixes of whole characters. -/
theorem isBoundary_utf8_iff {s : List Char} {offset : ℕ} :
    isBoundary (utf8 s) offset = true ↔ ∃ p, p <+: s ∧ byteLength p = offset := by
  induction s generalizing offset with
  | nil =>
    have hnil : isBoundary (utf8 []) offset = (offset == 0) := isBoundary_utf8 [] offset
    rw [hnil, beq_iff_eq]
    constructor
    · rintro rfl
      exact ⟨[], List.nil_prefix, rfl⟩
    · rintro ⟨p, hp, rfl⟩
      rw [List.prefix_nil.mp hp, byteLength_nil]
  | cons c s ih =>
    simp only [List.prefix_cons_iff]
    rcases Nat.eq_zero_or_pos offset with rfl | hpos
    · exact iff_of_true rfl ⟨[], .inl rfl, rfl⟩
    rcases Nat.lt_or_ge offset c.utf8Size with hlt | hge
    · rw [isBoundary_utf8_cons_of_lt hpos hlt]
      refine iff_of_false Bool.false_ne_true ?_
      rintro ⟨p, rfl | ⟨t, rfl, -⟩, rfl⟩
      · exact Nat.lt_irrefl 0 hpos
      · rw [byteLength_cons] at hlt
        omega
    · obtain ⟨n, rfl⟩ := Nat.exists_eq_add_of_le hge
      rw [isBoundary_utf8_cons_add, ih]
      constructor
      · rintro ⟨p, hp, rfl⟩
        exact ⟨c :: p, .inr ⟨p, rfl, hp⟩, rfl⟩
      · rintro ⟨p, rfl | ⟨t, rfl, ht⟩, hp⟩
        · rw [byteLength_nil] at hp
          omega
        · exact ⟨t, ht, Nat.add_left_cancel hp⟩

theorem byteLength_toList (s : String) : byteLength s.toList = s.utf8ByteSize := by
  rw [byteLength_eq, String.ofList_toList]

/-- The valid positions of a string are the same offsets. -/
theorem isValid_iff {s : String} {offset : ℕ} :
    (⟨offset⟩ : String.Pos.Raw).IsValid s ↔ ∃ p, p <+: s.toList ∧ byteLength p = offset := by
  rw [String.Pos.Raw.isValid_iff_exists_append]
  constructor
  · rintro ⟨t, u, rfl, hoffset⟩
    refine ⟨t.toList, by simp, ?_⟩
    rw [byteLength_toList]
    exact (congrArg String.Pos.Raw.byteIdx hoffset).symm
  · rintro ⟨p, ⟨u, hu⟩, rfl⟩
    refine ⟨.ofList p, .ofList u, ?_, ?_⟩
    · rw [← String.ofList_append, hu, String.ofList_toList]
    · rw [String.Pos.Raw.ext_iff, String.byteIdx_rawEndPos, byteLength_eq]

/-! ### What is taken -/

theorem byteLength_le_of_isPrefix {s t : List Char} (h : s <+: t) :
    byteLength s ≤ byteLength t := by
  obtain ⟨u, rfl⟩ := h
  rw [byteLength_append]
  exact Nat.le_add_right _ _

/-- No character has more than four bytes, so at most three are given up. -/
theorem le_byteLength_takeBytes (budget : ℕ) (s : List Char) :
    min budget (byteLength s) ≤ byteLength (takeBytes budget s) + 3 := by
  induction s generalizing budget with
  | nil => simp
  | cons c s ih =>
    have hfour := c.utf8Size_le_four
    have hmore := ih (budget - c.utf8Size)
    rw [takeBytes]
    split
    · simp only [byteLength_cons]
      omega
    · simp only [byteLength_nil]
      omega

/-- **Cutting down twice** is cutting down to the smaller budget. -/
theorem takeBytes_takeBytes (m n : ℕ) (s : List Char) :
    takeBytes n (takeBytes m s) = takeBytes (min m n) s := by
  have hm := takeBytes_prefix m s
  have hn := takeBytes_prefix n (takeBytes m s)
  have hfitm := byteLength_takeBytes_le m s
  have hfitn := byteLength_takeBytes_le n (takeBytes m s)
  have hle := byteLength_le_of_isPrefix hn
  refine longestFit_iff.mp ⟨hn.trans hm, by omega, fun q hq hfits ↦ ?_⟩
  exact prefix_takeBytes (prefix_takeBytes hq (by omega)) (by omega)

theorem findGreatest_isBoundary (s : List Char) (budget : ℕ) :
    Nat.findGreatest (isBoundary (utf8 s) · = true) budget = byteLength (takeBytes budget s) := by
  have htaken : isBoundary (utf8 s) (byteLength (takeBytes budget s)) = true :=
    isBoundary_utf8_iff.mpr ⟨_, takeBytes_prefix budget s, rfl⟩
  refine Nat.findGreatest_eq_iff.mpr ⟨byteLength_takeBytes_le budget s, fun _ ↦ htaken, ?_⟩
  intro offset hlt hle hboundary
  obtain ⟨p, hp, rfl⟩ := isBoundary_utf8_iff.mp hboundary
  exact absurd (byteLength_le_of_isPrefix (prefix_takeBytes hp hle)) (Nat.not_le.mpr hlt)

/-- **Going back on bytes** comes to what is taken character by character. -/
theorem truncateBytes?_utf8 (s : List Char) (budget : ℕ) :
    truncateBytes? (utf8 s) budget = some (utf8 (takeBytes budget s)) := by
  rw [truncateBytes?, length_utf8]
  by_cases hle : byteLength s ≤ budget
  · rw [if_pos hle, takeBytes_of_le hle]
  have htaken : takeBytes budget s <+: s := takeBytes_prefix budget s
  have hboundary : isBoundary (utf8 s) (byteLength (takeBytes budget s)) = true :=
    isBoundary_utf8_iff.mpr ⟨_, htaken, rfl⟩
  rw [if_neg hle, stepBack?_eq, findGreatest_isBoundary, Option.bind_some, sliceBefore?,
    if_pos hboundary, take_utf8 htaken]

/-! ### Strings -/

theorem toList_truncate (s : String) (budget : ℕ) :
    (truncate s budget).toList = takeBytes budget s.toList := String.toList_ofList

theorem utf8ByteSize_truncate (s : String) (budget : ℕ) :
    (truncate s budget).utf8ByteSize = byteLength (takeBytes budget s.toList) := by
  rw [← byteLength_toList, toList_truncate]

/-- **A string is cut down to its longest prefix of whole characters.**

What is left of a string is a prefix of it. Its length is the greatest valid position of the string
within the budget, and at most three bytes less than the budget or than the length of the string.
On the bytes of the string, going back from the budget ends at that position, and what is before it
are the bytes of what is left; the offsets at which going back can end are the valid positions. And
cutting down twice is cutting down once, to the smaller budget. -/
theorem truncate_longest (s : String) (budget : ℕ) :
    (∃ rest, s = truncate s budget ++ rest) ∧
      IsGreatest {offset | (⟨offset⟩ : String.Pos.Raw).IsValid s ∧ offset ≤ budget}
        (truncate s budget).utf8ByteSize ∧
      min budget s.utf8ByteSize ≤ (truncate s budget).utf8ByteSize + 3 ∧
      (∀ offset, isBoundary s.toUTF8.toList offset = true ↔
        (⟨offset⟩ : String.Pos.Raw).IsValid s) ∧
      stepBack? s.toUTF8.toList budget = some (truncate s budget).utf8ByteSize ∧
      truncateBytes? s.toUTF8.toList budget = some (truncate s budget).toUTF8.toList ∧
      ∀ budget', truncate (truncate s budget) budget' = truncate s (min budget budget') := by
  have htaken : takeBytes budget s.toList <+: s.toList := takeBytes_prefix budget s.toList
  have hbytes (t : String) : t.toUTF8.toList = utf8 t.toList := Utf8.toList_toUTF8 t
  rw [utf8ByteSize_truncate, hbytes, hbytes, toList_truncate, ← byteLength_toList]
  refine ⟨?_, ⟨⟨isValid_iff.mpr ⟨_, htaken, rfl⟩, byteLength_takeBytes_le _ _⟩, ?_⟩,
    le_byteLength_takeBytes _ _, fun offset ↦ isBoundary_utf8_iff.trans isValid_iff.symm, ?_,
    truncateBytes?_utf8 _ _, fun budget' ↦ ?_⟩
  · obtain ⟨rest, hrest⟩ := htaken
    refine ⟨.ofList rest, ?_⟩
    rw [truncate, ← String.ofList_append, hrest, String.ofList_toList]
  · rintro offset ⟨hvalid, hle⟩
    obtain ⟨p, hp, rfl⟩ := isValid_iff.mp hvalid
    exact byteLength_le_of_isPrefix (prefix_takeBytes hp hle)
  · rw [stepBack?_eq, findGreatest_isBoundary]
  · rw [truncate, toList_truncate, takeBytes_takeBytes, truncate]

/-- A budget that ends in the last character, which has three bytes. -/
example : truncate "aé€" 5 = "aé" ∧ stepBack? "aé€".toUTF8.toList 5 = some 3 := by
  decide +kernel

end Interpose.Text
