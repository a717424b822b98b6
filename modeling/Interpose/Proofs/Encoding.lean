import Interpose.Text.Utf8

/-!
# Reading back encoded text

The UTF-8 form of a text is read back as the text (`decode?_toUTF8`), and with nothing replaced
(`decodeLossy_toUTF8`).

A character is encoded as a lead and its continuations. The lead sets the value that the
continuations extend and the bounds for the first of them. That the first one is within its bounds
takes the character to be encoded in the shortest form and not to be a surrogate; all others are
within theirs whatever the character is (`accepts_continuation`).
-/

namespace Interpose.Text.Utf8

/-! ### The bytes of a text -/

/-- The loop that lists a byte array: what it has in front, in reverse, and what is left from its
index on. -/
theorem toList_loop (bytes : ByteArray) (i : Nat) (front : List UInt8) :
    ByteArray.toList.loop bytes i front = front.reverse ++ bytes.data.toList.drop i := by
  induction i, front using ByteArray.toList.loop.induct bytes with
  | case1 i front h ih =>
    have hnext : bytes.data.toList.drop i = bytes.get! i :: bytes.data.toList.drop (i + 1) := by
      have hi : i < bytes.data.toList.length := h
      rw [List.drop_eq_getElem_cons hi, ByteArray.get!, getElem!_pos bytes.data i h,
        Array.getElem_toList]
    rw [ByteArray.toList.loop, if_pos h, ih, hnext, List.reverse_cons, List.append_assoc]
    rfl
  | case2 i front h =>
    have hend : bytes.data.toList.length ≤ i := Nat.le_of_not_lt h
    rw [ByteArray.toList.loop, if_neg h, List.drop_eq_nil_of_le hend, List.append_nil]

/-- **The bytes of a text** are the encodings of its characters, one after the other. -/
theorem toList_toUTF8 (s : String) :
    s.toUTF8.toList = s.toList.flatMap String.utf8EncodeChar := by
  have hbytes : s.toUTF8 = s.toList.utf8Encode := String.utf8Encode_toList.symm
  rw [hbytes, ByteArray.toList, toList_loop, List.utf8Encode, List.data_toByteArray]
  rfl

/-! ### One character -/

theorem toNat_ofNat {n : Nat} (hn : n < 256) : (UInt8.ofNat n).toNat = n :=
  UInt8.toNat_ofNat'.trans (Nat.mod_eq_of_lt hn)

theorem accepts_ofNat {p : Pending} {n : Nat} (hn : n < 256) (hlow : p.low.toNat ≤ n)
    (hhigh : n ≤ p.high.toNat) : p.accepts (UInt8.ofNat n) = true := by
  rw [Pending.accepts, Bool.and_eq_true, decide_eq_true_eq, decide_eq_true_eq,
    UInt8.le_iff_toNat_le, UInt8.le_iff_toNat_le, toNat_ofNat hn]
  exact ⟨hlow, hhigh⟩

/-- A continuation adds the six bits that it carries to the value. -/
theorem extended_ofNat (p : Pending) (n : Nat) :
    p.extended (UInt8.ofNat (n % 64 + 128)) = p.value * 64 + n % 64 := by
  have hn : (UInt8.ofNat (n % 64 + 128)).toNat = n % 64 + 128 := toNat_ofNat (by omega)
  unfold Pending.extended
  generalize UInt8.ofNat (n % 64 + 128) = b at hn
  omega

/-- A continuation that is not the first one is within its bounds. -/
theorem accepts_continuation (value after n : Nat) :
    ({ value, after, low := 0x80, high := 0xBF } : Pending).accepts
      (UInt8.ofNat (n % 64 + 128)) = true :=
  accepts_ofNat (by omega) (show 128 ≤ _ by omega) (show _ ≤ 191 by omega)

/-- What the lead of a character sets: the value of its bits, the number of continuations behind the
first, and bounds for the first that hold for the character. -/
def Begins (b : UInt8) (value after first : Nat) : Prop :=
  ∃ p : Pending, lead b = .begins p ∧ p.value = value ∧ p.after = after ∧
    p.accepts (UInt8.ofNat (first % 64 + 128)) = true

theorem lead_ascii {n : Nat} (h : n ≤ 127) : lead (UInt8.ofNat n) = .whole (Char.ofNat n) := by
  rw [lead, toNat_ofNat (by omega), if_pos (by omega)]

/-- A lead of two bytes: the continuation behind it may be any, since the form is too long only for
leads that are not used. -/
theorem begins_two {v : Nat} (h : 127 < v) (h' : v ≤ 2047) :
    Begins (UInt8.ofNat (v / 64 % 32 + 192)) (v / 64) 0 v := by
  have hlead : (UInt8.ofNat (v / 64 % 32 + 192)).toNat = v / 64 + 192 := by
    rw [toNat_ofNat (by omega)]
    omega
  refine ⟨{ value := v / 64 + 192 - 0xC0, after := 0, low := 0x80, high := 0xBF }, ?_,
    Nat.add_sub_cancel _ _, rfl, accepts_continuation _ _ _⟩
  rw [lead, hlead, if_neg (by omega), if_neg (by omega), if_pos (by omega)]

/-- The first continuation is at least `0xA0` behind the least lead, or the form would be too long,
and at most `0x9F` behind the one of the surrogates. -/
theorem begins_three {v : Nat} (h : 2047 < v) (h' : v ≤ 65535) (hs : v < 0xD800 ∨ 0xDFFF < v) :
    Begins (UInt8.ofNat (v / 4096 % 16 + 224)) (v / 4096) 1 (v / 64) := by
  have hlead : (UInt8.ofNat (v / 4096 % 16 + 224)).toNat = v / 4096 + 224 := by
    rw [toNat_ofNat (by omega)]
    omega
  by_cases hleast : v / 4096 = 0
  · refine ⟨{ value := 0, after := 1, low := 0xA0, high := 0xBF }, ?_, hleast.symm, rfl,
      accepts_ofNat (by omega) (show 160 ≤ _ by omega) (show _ ≤ 191 by omega)⟩
    rw [lead, hlead, hleast]
    rfl
  by_cases hsurrogate : v / 4096 = 13
  · refine ⟨{ value := 0xD, after := 1, low := 0x80, high := 0x9F }, ?_, hsurrogate.symm, rfl,
      accepts_ofNat (by omega) (show 128 ≤ _ by omega) (show _ ≤ 159 by omega)⟩
    rw [lead, hlead, hsurrogate]
    rfl
  refine ⟨{ value := v / 4096 + 224 - 0xE0, after := 1, low := 0x80, high := 0xBF }, ?_,
    Nat.add_sub_cancel _ _, rfl, accepts_continuation _ _ _⟩
  rw [lead, hlead, if_neg (by omega), if_neg (by omega), if_neg (by omega),
    if_neg (by rw [beq_iff_eq]; omega), if_neg (by rw [beq_iff_eq]; omega), if_pos (by omega)]

/-- The first continuation is at least `0x90` behind the least lead, or the form would be too long,
and at most `0x8F` behind the greatest, or the value would be. -/
theorem begins_four {v : Nat} (h : 65535 < v) (h' : v < 0x110000) :
    Begins (UInt8.ofNat (v / 262144 % 8 + 240)) (v / 262144) 2 (v / 4096) := by
  have hlead : (UInt8.ofNat (v / 262144 % 8 + 240)).toNat = v / 262144 + 240 := by
    rw [toNat_ofNat (by omega)]
    omega
  by_cases hleast : v / 262144 = 0
  · refine ⟨{ value := 0, after := 2, low := 0x90, high := 0xBF }, ?_, hleast.symm, rfl,
      accepts_ofNat (by omega) (show 144 ≤ _ by omega) (show _ ≤ 191 by omega)⟩
    rw [lead, hlead, hleast]
    rfl
  by_cases hgreatest : v / 262144 = 4
  · refine ⟨{ value := 4, after := 2, low := 0x80, high := 0x8F }, ?_, hgreatest.symm, rfl,
      accepts_ofNat (by omega) (show 128 ≤ _ by omega) (show _ ≤ 143 by omega)⟩
    rw [lead, hlead, hgreatest]
    rfl
  refine ⟨{ value := v / 262144 + 240 - 0xF0, after := 2, low := 0x80, high := 0xBF }, ?_,
    Nat.add_sub_cancel _ _, rfl, accepts_continuation _ _ _⟩
  rw [lead, hlead, if_neg (by omega), if_neg (by omega), if_neg (by omega),
    if_neg (by rw [beq_iff_eq]; omega), if_neg (by rw [beq_iff_eq]; omega), if_neg (by omega),
    if_neg (by rw [beq_iff_eq]; omega), if_pos (by omega)]

/-! ### Scanning -/

theorem low_ge_first : (0x80 : UInt8) ≤ 0x80 := by decide

/-- What is read behind a continuation: the character that it completes, or what is to follow. -/
def resume (value after : Nat) (bytes : List UInt8) : List (Option Char) :=
  match after with
  | 0 => some (Char.ofNat value) :: scan none bytes
  | n + 1 =>
    scan (some { value, after := n, low := 0x80, high := 0xBF, low_ge := low_ge_first }) bytes

/-- An accepted continuation extends the value that is pending. -/
theorem scan_accepted {p : Pending} {n : Nat}
    (h : p.accepts (UInt8.ofNat (n % 64 + 128)) = true) (bytes : List UInt8) :
    scan (some p) (UInt8.ofNat (n % 64 + 128) :: bytes) =
      resume (p.value * 64 + n % 64) p.after bytes := by
  rw [scan, if_pos h, extended_ofNat]
  rfl

theorem scan_begins {b : UInt8} {value after first : Nat} (h : Begins b value after first)
    (bytes : List UInt8) :
    scan none (b :: UInt8.ofNat (first % 64 + 128) :: bytes) =
      resume (value * 64 + first % 64) after bytes := by
  obtain ⟨p, hlead, rfl, rfl, haccepts⟩ := h
  rw [scan, hlead]
  exact scan_accepted haccepts bytes

/-- The continuations behind the first are all alike. -/
theorem resume_continuation (value after n : Nat) (bytes : List UInt8) :
    resume value (after + 1) (UInt8.ofNat (n % 64 + 128) :: bytes) =
      resume (value * 64 + n % 64) after bytes :=
  scan_accepted (accepts_continuation value after n) bytes

/-- **A character is read back**, in front of any bytes. The four cases are the lengths that an
encoding can have, and the arithmetic is that of six bits for each continuation. -/
theorem scan_utf8EncodeChar (c : Char) (bytes : List UInt8) :
    scan none (String.utf8EncodeChar c ++ bytes) = some c :: scan none bytes := by
  have hvalid : c.val.toNat < 0xD800 ∨ 0xDFFF < c.val.toNat ∧ c.val.toNat < 0x110000 := c.valid
  have hc : Char.ofNat c.val.toNat = c := c.ofNat_toNat
  have hresume (v : Nat) (hv : v = c.val.toNat) : resume v 0 bytes = some c :: scan none bytes := by
    rw [hv, resume, hc]
  simp only [String.utf8EncodeChar]
  by_cases h₁ : c.val.toNat ≤ 127
  · rw [if_pos h₁, List.singleton_append, scan, lead_ascii h₁, hc]
  by_cases h₂ : c.val.toNat ≤ 2047
  · rw [if_neg h₁, if_pos h₂]
    exact (scan_begins (begins_two (by omega) h₂) bytes).trans (hresume _ (by omega))
  by_cases h₃ : c.val.toNat ≤ 65535
  · rw [if_neg h₁, if_neg h₂, if_pos h₃]
    exact (scan_begins (begins_three (by omega) h₃ (by omega)) _).trans
      ((resume_continuation _ _ _ bytes).trans (hresume _ (by omega)))
  · rw [if_neg h₁, if_neg h₂, if_neg h₃]
    exact (scan_begins (begins_four (by omega) (by omega)) _).trans
      ((resume_continuation _ _ _ _).trans
        ((resume_continuation _ _ _ bytes).trans (hresume _ (by omega))))

/-- A text is scanned as its characters, none of which is a fault. -/
theorem scan_toUTF8 (s : String) : scan none s.toUTF8.toList = s.toList.map some := by
  rw [toList_toUTF8]
  induction s.toList with
  | nil => rfl
  | cons c cs ih => rw [List.flatMap_cons, scan_utf8EncodeChar, ih, List.map_cons]

/-- **Encoded text reads back.** -/
theorem decode?_toUTF8 (s : String) : decode? s.toUTF8.toList = some s.toList := by
  rw [decode?, scan_toUTF8]
  induction s.toList with
  | nil => rfl
  | cons c cs ih => simp [List.mapM_cons, ih]

/-- Lossy decoding replaces nothing in encoded text. -/
theorem decodeLossy_toUTF8 (s : String) : decodeLossy s.toUTF8.toList = s.toList := by
  rw [decodeLossy, scan_toUTF8, List.map_map]
  exact List.map_id s.toList

end Interpose.Text.Utf8
