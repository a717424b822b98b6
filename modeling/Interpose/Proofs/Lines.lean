import Interpose.Text.Blank
import Interpose.Text.Utf8
import Mathlib.Tactic.SplitIfs

/-!
# Lines of bytes

A file of bytes is decoded and then cut into lines. The same lines come of cutting it into rows
first, each with its line feed, and of decoding every row on its own (`lines_decodeLossy`). So bytes
that are no text spoil the row that they are on, and nothing else.

Two facts are behind this. A line feed settles what precedes it, whatever that is, so that decoding
can start afresh behind it (`Utf8.decodeLossy_lineFeed`). And no line feed is made of other bytes
(`Utf8.lineFeed_not_mem_decodeLossy`), which takes an invariant of characters that have begun: what
they come to stand for is beyond a line feed (`Utf8.Pending.Beyond`).
-/

namespace Interpose.Text

/-! ### Lines of a text -/

/-- A character that ends no line is put in front of the first one. -/
theorem lines_cons {c : Char} {s l : List Char} {ls : List (List Char)} (hc : c ≠ '\n')
    (hs : ∀ t, c = '\r' → s ≠ '\n' :: t) (h : lines s = l :: ls) :
    lines (c :: s) = (c :: l) :: ls := by
  rw [lines, h]
  · exact hc
  · exact hs

/-- A text without line feeds is one line, with all its carriage returns. -/
theorem lines_of_not_mem {s : List Char} (h : '\n' ∉ s) (hne : s ≠ []) : lines s = [s] := by
  induction s with
  | nil => exact absurd rfl hne
  | cons c s ih =>
    obtain ⟨hc, hs⟩ := not_or.1 (mt List.mem_cons.2 h)
    cases s with
    | nil => rw [lines] <;> simp [Ne.symm hc]
    | cons d s =>
      refine lines_cons (Ne.symm hc) (fun t _ ht ↦ ?_) (ih hs (List.cons_ne_nil d s))
      rw [ht] at hs
      exact hs List.mem_cons_self

/-- A line feed ends a line. The line is the text in front of it, but for one carriage return. -/
theorem exists_lines_lineFeed {s : List Char} (h : '\n' ∉ s) :
    ∃ l, (s = l ∨ s = l ++ ['\r']) ∧ ∀ t, lines (s ++ '\n' :: t) = l :: lines t := by
  induction s with
  | nil => exact ⟨[], .inl rfl, lines_lineFeed⟩
  | cons c s ih =>
    obtain ⟨hc, hs⟩ := not_or.1 (mt List.mem_cons.2 h)
    obtain ⟨l, hsl, hl⟩ := ih hs
    by_cases hreturn : c = '\r' ∧ s = []
    · obtain ⟨rfl, rfl⟩ := hreturn
      exact ⟨[], .inr rfl, fun t ↦ by rw [List.cons_append, List.nil_append, lines]⟩
    · refine ⟨c :: l, hsl.imp (congrArg (c :: ·)) (congrArg (c :: ·)),
        fun t ↦ lines_cons (Ne.symm hc) (fun u hcr hu ↦ ?_) (hl t)⟩
      cases s with
      | nil => exact hreturn ⟨hcr, rfl⟩
      | cons d s =>
        obtain ⟨rfl, -⟩ := List.cons.inj hu
        exact hs List.mem_cons_self

/-! ### Rows -/

/-- The lines of a byte string, each with its line feed. -/
def rows : List UInt8 → List (List UInt8)
  | [] => []
  | b :: bs =>
    if b = 0x0A then [b] :: rows bs
    else
      match rows bs with
      | [] => [[b]]
      | r :: rs => (b :: r) :: rs

/-- Bytes without a line feed are one row. -/
theorem rows_of_not_mem {r : List UInt8} (h : 0x0A ∉ r) (hne : r ≠ []) : rows r = [r] := by
  induction r with
  | nil => exact absurd rfl hne
  | cons b r ih =>
    obtain ⟨hb, hr⟩ := not_or.1 (mt List.mem_cons.2 h)
    rw [rows, if_neg (Ne.symm hb)]
    cases r with
    | nil => rfl
    | cons c r => rw [ih hr (List.cons_ne_nil c r)]

/-- A line feed ends its row and belongs to it. -/
theorem rows_lineFeed {r : List UInt8} (h : 0x0A ∉ r) (bs : List UInt8) :
    rows (r ++ 0x0A :: bs) = (r ++ [0x0A]) :: rows bs := by
  induction r with
  | nil => rfl
  | cons b r ih =>
    obtain ⟨hb, hr⟩ := not_or.1 (mt List.mem_cons.2 h)
    rw [List.cons_append, rows, if_neg (Ne.symm hb), ih hr]
    rfl

/-- A list is empty, or it is a row without the separator, or such a row stands in front of a
separator and the rest. -/
theorem separated_induction {α : Type} [DecidableEq α] (c : α) {P : List α → Prop} (nil : P [])
    (last : ∀ r, c ∉ r → r ≠ [] → P r) (line : ∀ r s, c ∉ r → P s → P (r ++ c :: s))
    (s : List α) : P s := by
  by_cases h : c ∈ s
  · obtain ⟨r, rest, hs, hr⟩ := List.eq_append_cons_of_mem h
    rw [hs]
    exact line r rest hr (separated_induction c nil last line rest)
  · by_cases hne : s = []
    · exact hne ▸ nil
    · exact last s h hne
termination_by s.length
decreasing_by simp [hs]; omega

/-- Bytes are nothing, a row without line feed, or a row in front of other bytes. -/
theorem rows_induction {P : List UInt8 → Prop} (nil : P [])
    (last : ∀ r, 0x0A ∉ r → r ≠ [] → P r)
    (line : ∀ r bs, 0x0A ∉ r → P bs → P (r ++ 0x0A :: bs)) (bs : List UInt8) : P bs :=
  separated_induction 0x0A nil last line bs

/-- Bytes that are nothing or end with a line feed. -/
def Ended (a : List UInt8) : Prop := a = [] ∨ a.getLast? = some 0x0A

namespace Ended

theorem eq_nil {r : List UInt8} (h : Ended r) (hr : 0x0A ∉ r) : r = [] :=
  h.resolve_right fun hlast ↦ hr (List.mem_of_getLast? hlast)

theorem of_append {r bs : List UInt8} (h : Ended (r ++ 0x0A :: bs)) : Ended bs := by
  cases bs with
  | nil => exact .inl rfl
  | cons b bs =>
    refine .inr ?_
    simpa [Ended] using h

end Ended

/-- **Rows are told apart byte by byte**: behind whole rows, the others begin afresh. -/
theorem rows_append {a : List UInt8} (h : Ended a) (b : List UInt8) :
    rows (a ++ b) = rows a ++ rows b := by
  induction a using rows_induction with
  | nil => rfl
  | last r hr hne => exact absurd (h.eq_nil hr) hne
  | line r bs hr ih =>
    rw [List.append_assoc, List.cons_append, rows_lineFeed hr, rows_lineFeed hr, ih h.of_append,
      List.cons_append]

/-- Whole rows are as many as there are line feeds. -/
theorem length_rows {a : List UInt8} (h : Ended a) : (rows a).length = a.count 0x0A := by
  induction a using rows_induction with
  | nil => rfl
  | last r hr hne => exact absurd (h.eq_nil hr) hne
  | line r bs hr ih =>
    rw [rows_lineFeed hr, List.length_cons, ih h.of_append, List.count_append,
      List.count_eq_zero_of_not_mem hr, List.count_cons_self, Nat.zero_add]

/-- Another row in place of one changes no other. -/
theorem getElem?_rows_replace {a r r' : List UInt8} (ha : Ended a) (hr : 0x0A ∉ r) (hr' : 0x0A ∉ r')
    (b : List UInt8) {i : Nat} (hi : i ≠ a.count 0x0A) :
    (rows (a ++ (r ++ 0x0A :: b)))[i]? = (rows (a ++ (r' ++ 0x0A :: b)))[i]? := by
  rw [rows_append ha, rows_append ha, rows_lineFeed hr, rows_lineFeed hr', List.getElem?_append,
    List.getElem?_append, length_rows ha]
  split
  · rfl
  · next hge =>
    obtain ⟨k, hk⟩ : ∃ k, i - a.count 0x0A = k + 1 := ⟨i - a.count 0x0A - 1, by omega⟩
    rw [hk, List.getElem?_cons_succ, List.getElem?_cons_succ]

namespace Utf8

/-! ### Line feeds in bytes and in text -/

/-- What is read in front of a line feed does not depend on what comes behind it, and the line feed
is read as one. -/
theorem scan_append_lineFeed (p : Option Pending) (a b : List UInt8) :
    scan p (a ++ 0x0A :: b) = scan p a ++ some '\n' :: scan none b := by
  induction p, a using scan.induct <;> simp_all [scan, scan_lineFeed]

/-- **Decoding stops at line feeds**: what is before one and what is behind it are decoded apart. -/
theorem decodeLossy_lineFeed (a b : List UInt8) :
    decodeLossy (a ++ 0x0A :: b) = decodeLossy a ++ '\n' :: decodeLossy b := by
  simp [decodeLossy, scan_append_lineFeed]

/-- A character that has begun and cannot come to be a line feed: it has bits already, or the bounds
of the next byte see to it that it gets some. -/
def Pending.Beyond (p : Pending) : Prop := 1 ≤ p.value ∨ 0x90 ≤ p.low.toNat

/-- Each lead either carries a bit or sets a bound that leaves out the forms that are too long. -/
theorem beyond_of_lead {b : UInt8} {p : Pending} (h : lead b = .begins p) : p.Beyond := by
  simp only [lead, beq_iff_eq] at h
  split_ifs at h <;> obtain rfl := Lead.begins.inj h <;> simp [Pending.Beyond] <;> omega

/-- And with a continuation more, the value is greater than that of a line feed. -/
theorem Pending.Beyond.le_extended {p : Pending} (h : p.Beyond) {b : UInt8}
    (hb : p.accepts b = true) : 16 ≤ p.extended b := by
  obtain ⟨hlow, -⟩ : p.low ≤ b ∧ b ≤ p.high := by simpa [Pending.accepts] using hb
  have hb := UInt8.le_iff_toNat_le.mp hlow
  have hge := UInt8.le_iff_toNat_le.mp p.low_ge
  have h80 : (0x80 : UInt8).toNat = 128 := rfl
  unfold Pending.extended
  obtain h | h := h
  · omega
  · omega

theorem eq_of_ofNat_eq_lineFeed {n : Nat} (h : Char.ofNat n = '\n') : n = 10 := by
  rw [Char.ofNat] at h
  by_cases hn : n.isValidChar
  · rw [dif_pos hn] at h
    exact congrArg Char.toNat h
  · rw [dif_neg hn] at h
    exact absurd (congrArg Char.toNat h) (by decide)

theorem eq_lineFeed_of_lead {b : UInt8} (h : lead b = .whole '\n') : b = 0x0A := by
  simp only [lead] at h
  split_ifs at h
  have hn : b.toNat = 10 := eq_of_ofNat_eq_lineFeed (Lead.whole.inj h)
  exact UInt8.toNat_inj.1 hn

theorem scan_of_not_accepts {p : Pending} {b : UInt8} (h : p.accepts b = false) (bs : List UInt8) :
    scan (some p) (b :: bs) = none :: scan none (b :: bs) := by
  rw [scan, scan, if_neg (by simp [h])]
  cases lead b <;> rfl

/-- A line feed that is read was a byte, by induction on the bytes. What is pending cannot come to
be one. -/
theorem lineFeed_mem_of_mem_scan {p : Option Pending} {bs : List UInt8}
    (hp : ∀ q, p = some q → q.Beyond) (h : some '\n' ∈ scan p bs) : 0x0A ∈ bs := by
  induction bs generalizing p with
  | nil => cases p <;> simp [scan] at h
  | cons b bs ih =>
    have hrest (h : some '\n' ∈ scan none bs) : 0x0A ∈ b :: bs :=
      List.mem_cons_of_mem b (ih (by simp) h)
    have hbegun {q : Pending} (hq : q.Beyond) (h : some '\n' ∈ scan (some q) bs) :
        0x0A ∈ b :: bs :=
      List.mem_cons_of_mem b (ih (fun _ he ↦ Option.some.inj he ▸ hq) h)
    -- Between characters, only the byte of a line feed is one.
    have hfresh (h : some '\n' ∈ scan none (b :: bs)) : 0x0A ∈ b :: bs := by
      rw [scan] at h
      split at h
      · next c hlead =>
        obtain hc | h := List.mem_cons.1 h
        · obtain rfl := Option.some.inj hc
          exact eq_lineFeed_of_lead hlead ▸ List.mem_cons_self
        · exact hrest h
      · next q hlead => exact hbegun (beyond_of_lead hlead) h
      · obtain hnone | h := List.mem_cons.1 h
        · cases hnone
        · exact hrest h
    cases p with
    | none => exact hfresh h
    | some p =>
      cases haccepts : p.accepts b with
      | false =>
        rw [scan_of_not_accepts haccepts] at h
        obtain hnone | h := List.mem_cons.1 h
        · cases hnone
        · exact hfresh h
      | true =>
        have hle : 16 ≤ p.extended b := (hp p rfl).le_extended haccepts
        rw [scan, if_pos haccepts] at h
        split at h
        · obtain hc | h := List.mem_cons.1 h
          · have hten := eq_of_ofNat_eq_lineFeed (Option.some.inj hc).symm
            omega
          · exact hrest h
        · have hbits : 1 ≤ p.extended b := by omega
          refine hbegun ?_ h
          exact .inl hbits

/-- **No line feed is made of other bytes.** -/
theorem lineFeed_not_mem_decodeLossy {r : List UInt8} (h : 0x0A ∉ r) : '\n' ∉ decodeLossy r := by
  intro hmem
  obtain ⟨x, hx, hc⟩ := List.mem_map.1 hmem
  cases x with
  | none => exact absurd hc (by decide)
  | some c =>
    obtain rfl : c = '\n' := hc
    exact h (lineFeed_mem_of_mem_scan (by simp) hx)

theorem scan_some_ne_nil (p : Pending) (bs : List UInt8) : scan (some p) bs ≠ [] := by
  induction bs generalizing p with
  | nil => simp [scan]
  | cons b bs ih =>
    rw [scan]
    split
    · split
      · exact List.cons_ne_nil _ _
      · exact ih _
    · split <;> exact List.cons_ne_nil _ _

/-- Bytes are read as something, if there are any. -/
theorem decodeLossy_ne_nil {r : List UInt8} (h : r ≠ []) : decodeLossy r ≠ [] := by
  cases r with
  | nil => exact absurd rfl h
  | cons b r =>
    rw [decodeLossy, Ne, List.map_eq_nil_iff, scan]
    split
    · exact List.cons_ne_nil _ _
    · exact scan_some_ne_nil _ r
    · exact List.cons_ne_nil _ _

end Utf8

/-- The line that a row is when it is read alone. -/
def rowLine (row : List UInt8) : List Char := (lines (Utf8.decodeLossy row)).headD []

/-- **The lines of a file are those of its rows**, each of them decoded on its own. -/
theorem lines_decodeLossy (bs : List UInt8) :
    lines (Utf8.decodeLossy bs) = (rows bs).map rowLine := by
  induction bs using rows_induction with
  | nil => rfl
  | last r hr hne =>
    have hfeed : '\n' ∉ Utf8.decodeLossy r := Utf8.lineFeed_not_mem_decodeLossy hr
    rw [rows_of_not_mem hr hne, List.map_singleton, rowLine,
      lines_of_not_mem hfeed (Utf8.decodeLossy_ne_nil hne)]
    rfl
  | line r bs hr ih =>
    obtain ⟨l, -, hl⟩ := exists_lines_lineFeed (Utf8.lineFeed_not_mem_decodeLossy hr)
    have hrow : rowLine (r ++ [0x0A]) = l := by
      rw [rowLine, Utf8.decodeLossy_lineFeed, hl]
      rfl
    rw [Utf8.decodeLossy_lineFeed, hl, ih, rows_lineFeed hr, List.map_cons, hrow]

end Interpose.Text
