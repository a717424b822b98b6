import Interpose.Proofs.Encoding
import Interpose.Proofs.Framing
import Interpose.Proofs.Lines
import Mathlib.Tactic.SplitIfs

/-!
# Validation normalizes

Whatever text a line has, the record that it is accepted as has a line of its own: one line without
control characters, which is accepted as the same record (`validateLine_text_of_accepted`). Only
real numbers in the details are left out, whose digits may read as another number.

A record is written as its line in one way, but there are many texts that are read as it: members
may repeat, come in any order, be null or unknown, names may be objects, strings may be escaped. So
the argument does not look at the text. It goes from what is read. That nests no deeper than the
parser allows, and its objects are in order (`Json.readable_of_parse`), which is what printed values
need to be read back; and it decodes to a record without null for details
(`Record.DecodedFrom.withoutNull_eq`), which is what printed records need.

Each loop of the parser has a lemma that says what it can have read, and the value of a text is
covered by induction on the depth that is left (`Parser.readable_of_value`).
-/

namespace Interpose

namespace Json

/-! ### Values as they are read -/

/-- A value with a real number somewhere in it. -/
inductive HasReal : Json → Prop
  | number (negative : Bool) (magnitude : Binary64) : HasReal (.number (.real negative magnitude))
  | item {v : Json} {vs : List Json} (hv : v ∈ vs) (h : HasReal v) : HasReal (.array vs)
  | member {m : String × Json} {ms : List (String × Json)} (hm : m ∈ ms) (h : HasReal m.2) :
    HasReal (.object ms)

/-- A value as it is read: the keys of its objects increase, and no more than the given number of
containers nest in it. -/
inductive Readable : Nat → Json → Prop
  | null {d : Nat} : Readable d .null
  | bool {d : Nat} (b : Bool) : Readable d (.bool b)
  | number {d : Nat} (n : Number) : Readable d (.number n)
  | string {d : Nat} (s : String) : Readable d (.string s)
  | array {d : Nat} {vs : List Json} (h : ∀ v ∈ vs, Readable d v) : Readable (d + 1) (.array vs)
  | object {d : Nat} {ms : List (String × Json)} (keys : ms.Pairwise (·.1 < ·.1))
    (h : ∀ m ∈ ms, Readable d m.2) : Readable (d + 1) (.object ms)

/-- A value as it is read is plain, if there is no real number in it. -/
theorem Readable.plain {d : Nat} {v : Json} (h : Readable d v) (hreal : ¬v.HasReal) :
    Plain d v := by
  induction h with
  | null => exact .null
  | bool b => exact .bool b
  | number n =>
    cases n with
    | integer n => exact .integer n
    | real negative magnitude => exact absurd (.number negative magnitude) hreal
  | string s => exact .string s
  | array h ih => exact .array fun v hv ↦ ih v hv fun hr ↦ hreal (.item hv hr)
  | object keys h ih => exact .object keys fun m hm ↦ ih m hm fun hr ↦ hreal (.member hm hr)

/-! ### Members in order -/

/-- Putting a member in place adds nothing else. -/
theorem mem_of_mem_insertMember {k : String} {v : Json} {m : String × Json}
    {ms : List (String × Json)} (h : m ∈ insertMember k v ms) : m = (k, v) ∨ m ∈ ms := by
  induction ms with
  | nil => exact .inl (List.mem_singleton.1 h)
  | cons n ms ih =>
    rw [insertMember] at h
    split_ifs at h
    · exact List.mem_cons.1 h
    · exact (List.mem_cons.1 h).imp_right (List.mem_cons_of_mem n)
    · obtain rfl | h := List.mem_cons.1 h
      · exact .inr List.mem_cons_self
      · exact (ih h).imp_right (List.mem_cons_of_mem n)

/-- Putting a member in place keeps the keys in order. -/
theorem pairwise_insertMember {k : String} {v : Json} {ms : List (String × Json)}
    (h : ms.Pairwise (·.1 < ·.1)) : (insertMember k v ms).Pairwise (·.1 < ·.1) := by
  induction ms with
  | nil => exact List.pairwise_singleton _ _
  | cons n ms ih =>
    obtain ⟨hn, hms⟩ := List.pairwise_cons.1 h
    rw [insertMember]
    split_ifs with hlt heq
    · refine List.pairwise_cons.2 ⟨fun m hm ↦ ?_, h⟩
      obtain rfl | hm := List.mem_cons.1 hm
      · exact hlt
      · exact String.lt_trans hlt (hn m hm)
    · subst heq
      exact List.pairwise_cons.2 ⟨hn, hms⟩
    · refine List.pairwise_cons.2 ⟨fun m hm ↦ ?_, ih hms⟩
      obtain rfl | hm := mem_of_mem_insertMember hm
      · exact String.not_le.1 fun hle ↦ heq (String.le_antisymm hle (String.not_lt.1 hlt))
      · exact hn m hm

/-- An object that was read has its keys in order, and no members but those that were read. -/
theorem exists_ofMembers (ms : List (String × Json)) :
    ∃ ns, ofMembers ms = .object ns ∧ ns.Pairwise (·.1 < ·.1) ∧ ∀ n ∈ ns, n ∈ ms := by
  refine ⟨_, rfl, ?_⟩
  induction ms using List.reverseRecOn with
  | nil => exact ⟨.nil, by simp⟩
  | append_singleton ms m ih =>
    obtain ⟨hkeys, hmem⟩ := ih
    simp only [List.foldl_append, List.foldl_cons, List.foldl_nil]
    refine ⟨pairwise_insertMember hkeys, fun n hn ↦ ?_⟩
    obtain rfl | hn := mem_of_mem_insertMember hn
    · simp
    · exact List.mem_append_left _ (hmem n hn)

namespace Parser

/-! ### What the loops read -/

section Cases

variable {item : Parser Json} {s rest : List Char}

theorem length_lt_of_skipSpace {c : Char} {t : List Char} (h : skipSpace s = c :: t) :
    t.length < s.length := by
  have hle := length_skipSpace_le s
  rwa [h, List.length_cons] at hle

/-- Items are read one by one, each time with less text that is left. -/
theorem items_cases {vs : List Json} (h : Reads (items item s) vs rest) :
    ∃ v t ws, Reads (item s) v t ∧ vs = v :: ws ∧
      (ws = [] ∨ ∃ u, u.length < s.length ∧ Reads (items item u) ws rest) := by
  obtain ⟨_, h⟩ := h
  rw [items] at h
  split at h
  · cases h
  · next r hr =>
    refine ⟨r.value, r.rest, ?_⟩
    split at h
    · cases h
    · next c t hs =>
      have ht : t.length < s.length := Nat.lt_trans (length_lt_of_skipSpace hs) r.rest_lt
      dsimp only at h
      split_ifs at h
      · obtain ⟨rfl, -⟩ := Read.mk.inj (Except.ok.inj h)
        exact ⟨[], ⟨_, hr⟩, rfl, .inl rfl⟩
      · split at h
        · cases h
        · split_ifs at h
          split at h
          · cases h
          · next more hmore =>
            obtain ⟨rfl, rfl⟩ := Read.mk.inj (Except.ok.inj h)
            exact ⟨_, ⟨_, hr⟩, rfl, .inr ⟨t, ht, _, hmore⟩⟩

/-- An array is empty, or it has items. -/
theorem arrayBody_cases {vs : List Json} (h : Reads (arrayBody item s) vs rest) :
    vs = [] ∨ ∃ t, Reads (items item t) vs rest := by
  obtain ⟨_, h⟩ := h
  rw [arrayBody] at h
  split at h
  · cases h
  · next c t hs =>
    dsimp only at h
    split_ifs at h
    · obtain ⟨rfl, -⟩ := Read.mk.inj (Except.ok.inj h)
      exact .inl rfl
    · split at h
      · cases h
      · next r hr =>
        obtain ⟨rfl, rfl⟩ := Read.mk.inj (Except.ok.inj h)
        exact .inr ⟨c :: t, _, hr⟩

/-- The value of a member is read by the parser of items. -/
theorem member_cases {m : String × Json} (h : Reads (member item s) m rest) :
    ∃ t, Reads (item t) m.2 rest := by
  obtain ⟨_, h⟩ := h
  rw [member] at h
  split at h
  · cases h
  · split at h
    · cases h
    · next c t hs =>
      split_ifs at h
      split at h
      · cases h
      · next r hr =>
        obtain ⟨rfl, rfl⟩ := Read.mk.inj (Except.ok.inj h)
        exact ⟨t, _, hr⟩

/-- Members are read one by one, each time with less text that is left. -/
theorem members_cases {ms : List (String × Json)} (h : Reads (members item s) ms rest) :
    ∃ m t ns, Reads (member item s) m t ∧ ms = m :: ns ∧
      (ns = [] ∨ ∃ u, u.length < s.length ∧ Reads (members item u) ns rest) := by
  obtain ⟨_, h⟩ := h
  rw [members] at h
  split at h
  · cases h
  · next r hr =>
    refine ⟨r.value, r.rest, ?_⟩
    split at h
    · cases h
    · next c t hs =>
      dsimp only at h
      split_ifs at h
      · obtain ⟨rfl, -⟩ := Read.mk.inj (Except.ok.inj h)
        exact ⟨[], ⟨_, hr⟩, rfl, .inl rfl⟩
      · split at h
        · cases h
        · next d u hu =>
          split_ifs at h
          split at h
          · cases h
          · next more hmore =>
            have hus : u.length < s.length :=
              Nat.lt_trans (length_lt_of_skipSpace hu)
                (Nat.lt_trans (length_lt_of_skipSpace hs) r.rest_lt)
            obtain ⟨rfl, rfl⟩ := Read.mk.inj (Except.ok.inj h)
            exact ⟨_, ⟨_, hr⟩, rfl, .inr ⟨u, hus, _, hmore⟩⟩

theorem objectBody_cases {ms : List (String × Json)} (h : Reads (objectBody item s) ms rest) :
    ms = [] ∨ ∃ t, Reads (members item t) ms rest := by
  obtain ⟨_, h⟩ := h
  rw [objectBody] at h
  split at h
  · cases h
  · next c t hs =>
    dsimp only at h
    split_ifs at h
    · obtain ⟨rfl, -⟩ := Read.mk.inj (Except.ok.inj h)
      exact .inl rfl
    · split at h
      · cases h
      · next r hr =>
        obtain ⟨rfl, rfl⟩ := Read.mk.inj (Except.ok.inj h)
        exact .inr ⟨t, _, hr⟩

theorem literal_cases {u v : Json} {word : List Char} {c : Char}
    (h : Reads (literal v word c s) u rest) : u = v := by
  obtain ⟨hlt, h⟩ := h
  rw [literal] at h
  split at h
  · cases h
  · exact ((Read.mk.inj (Except.ok.inj h)).1).symm

/-- A value that is no container has no parts. -/
theorem scalar_cases {c : Char} {v : Json} (h : Reads (scalar c s) v rest) :
    v = .null ∨ (∃ b, v = .bool b) ∨ (∃ t, v = .string t) ∨ ∃ n, v = .number n := by
  obtain ⟨hlt, h⟩ := h
  rw [scalar] at h
  split_ifs at h
  · exact .inl (literal_cases ⟨hlt, h⟩)
  · exact .inr (.inl ⟨true, literal_cases ⟨hlt, h⟩⟩)
  · exact .inr (.inl ⟨false, literal_cases ⟨hlt, h⟩⟩)
  · split at h
    · cases h
    · next r hr =>
      obtain ⟨rfl, -⟩ := Read.mk.inj (Except.ok.inj h)
      exact .inr (.inr (.inl ⟨_, rfl⟩))
  · split at h
    · cases h
    · next r hr =>
      obtain ⟨rfl, -⟩ := Read.mk.inj (Except.ok.inj h)
      exact .inr (.inr (.inr ⟨_, rfl⟩))

/-- A value has an item or a member only if there is depth left. -/
theorem value_cases {d : Nat} {v : Json} (h : Reads (value d s) v rest) :
    (∃ c t, Reads (scalar c t) v rest) ∨
      ∃ e, d = e + 1 ∧ ((∃ t vs, v = .array vs ∧ Reads (arrayBody (value e) t) vs rest) ∨
        ∃ t ms, v = ofMembers ms ∧ Reads (objectBody (value e) t) ms rest) := by
  obtain ⟨_, h⟩ := h
  rw [value.eq_def] at h
  dsimp only at h
  split at h
  · cases h
  · next c t hs =>
    split_ifs at h
    · split at h
      · cases h
      · split at h
        · cases h
        · next e r hr =>
          obtain ⟨rfl, rfl⟩ := Read.mk.inj (Except.ok.inj h)
          exact .inr ⟨_, rfl, .inl ⟨t, r.value, rfl, _, hr⟩⟩
    · split at h
      · cases h
      · split at h
        · cases h
        · next e r hr =>
          obtain ⟨rfl, rfl⟩ := Read.mk.inj (Except.ok.inj h)
          exact .inr ⟨_, rfl, .inr ⟨t, r.value, rfl, _, hr⟩⟩
    · split at h
      · cases h
      · next r hr =>
        obtain ⟨rfl, rfl⟩ := Read.mk.inj (Except.ok.inj h)
        exact .inl ⟨c, t, _, hr⟩

end Cases

/-! ### All that is read -/

variable {item : Parser Json} {P : Json → Prop} {s rest : List Char}

/-- **What holds of each value that is read holds of all items**, by induction on the length of the
text. -/
theorem forall_mem_of_items (hitem : ∀ {s v rest}, Reads (item s) v rest → P v) {vs : List Json}
    (h : Reads (items item s) vs rest) : ∀ v ∈ vs, P v := by
  -- The loop goes on with less text, whose items are had by induction.
  induction hn : s.length using Nat.strongRecOn generalizing s vs with
  | _ n ih =>
    subst hn
    obtain ⟨v, t, ws, hv, rfl, rfl | ⟨u, hlt, hws⟩⟩ := items_cases h
    · simpa using hitem hv
    · exact List.forall_mem_cons.2 ⟨hitem hv, ih u.length hlt hws rfl⟩

/-- And of the values of all members. -/
theorem forall_mem_of_members (hitem : ∀ {s v rest}, Reads (item s) v rest → P v)
    {ms : List (String × Json)} (h : Reads (members item s) ms rest) : ∀ m ∈ ms, P m.2 := by
  induction hn : s.length using Nat.strongRecOn generalizing s ms with
  | _ n ih =>
    subst hn
    obtain ⟨m, t, ns, hm, rfl, hns⟩ := members_cases h
    obtain ⟨_, hv⟩ := member_cases hm
    obtain rfl | ⟨u, hlt, hns⟩ := hns
    · simpa using hitem hv
    · exact List.forall_mem_cons.2 ⟨hitem hv, ih u.length hlt hns rfl⟩

/-- A scalar nests nothing, so it is as it may be at any depth. -/
theorem readable_of_scalar {c : Char} {v : Json} (h : Reads (scalar c s) v rest) (d : Nat) :
    Readable d v := by
  obtain rfl | ⟨b, rfl⟩ | ⟨t, rfl⟩ | ⟨n, rfl⟩ := scalar_cases h
  · exact .null
  · exact .bool b
  · exact .string t
  · exact .number n

/-- **What is read nests no deeper than it may**, and its objects have been put in order. -/
theorem readable_of_value {d : Nat} {v : Json} (h : Reads (value d s) v rest) : Readable d v := by
  induction d generalizing s v rest with
  | zero =>
    obtain ⟨c, t, hv⟩ | ⟨e, he, -⟩ := value_cases h
    · exact readable_of_scalar hv 0
    · cases he
  | succ d ih =>
    obtain ⟨c, t, hv⟩ | ⟨e, he, hcontainer⟩ := value_cases h
    · exact readable_of_scalar hv _
    obtain rfl : d = e := Nat.succ.inj he
    obtain ⟨t, vs, rfl, hvs⟩ | ⟨t, ms, rfl, hms⟩ := hcontainer
    · obtain rfl | ⟨u, hvs⟩ := arrayBody_cases hvs
      · exact .array (by simp)
      · exact .array (forall_mem_of_items (fun hw ↦ ih hw) hvs)
    · have hmembers : ∀ m ∈ ms, Readable d m.2 := by
        obtain rfl | ⟨u, hms⟩ := objectBody_cases hms
        · simp
        · exact forall_mem_of_members (fun hw ↦ ih hw) hms
      obtain ⟨ns, hns, hkeys, hmem⟩ := exists_ofMembers ms
      rw [hns]
      exact .object hkeys fun n hn ↦ hmembers n (hmem n hn)

end Parser

/-- What a whole text stands for nests no deeper than it may. -/
theorem readable_of_parse {text : List Char} {v : Json} (h : parse text = .ok v) :
    Readable Parser.maxDepth v := by
  simp only [parse] at h
  split at h
  · cases h
  · next r hr =>
    split at h
    · obtain rfl := Except.ok.inj h
      exact Parser.readable_of_value ⟨r.rest_lt, hr⟩
    · cases h

end Json

/-! ### Records -/

namespace Record

/-- The details of a record that was decoded are not null, so that no field is lost. -/
theorem DecodedFrom.withoutNull_eq {r : Record} {v : Json} (h : r.DecodedFrom v) :
    r.withoutNull = r := by
  have hdetails := h.details
  rw [withoutNull]
  split
  · next hd =>
    rw [hd] at hdetails
    obtain ⟨w, -, hnull, rfl⟩ := hdetails
    exact absurd rfl hnull
  · rfl

/-- Details are a member of the object, so they nest less deep than it does. -/
theorem DecodedFrom.readable_details {r : Record} {ms : List (String × Json)} {d : Nat}
    (h : r.DecodedFrom (.object ms)) (hms : (Json.object ms).Readable (d + 1)) {v : Json}
    (hv : r.details = some v) : v.Readable d := by
  have hdetails := h.details
  rw [hv] at hdetails
  obtain ⟨w, hget, -, rfl⟩ := hdetails
  obtain ⟨m, hm, rfl⟩ := Option.map_eq_some_iff.1 hget
  cases hms with
  | object keys hmembers => exact hmembers m (List.mem_of_find?_eq_some hm)

end Record

namespace Text

theorem Inline.not_mem {l : List Char} (h : Inline l) : '\n' ∉ l := fun hmem ↦
  absurd (h _ hmem) (by decide)

/-- No byte of a character is less than a blank, if the character is not. -/
theorem Utf8.le_of_mem_utf8EncodeChar {c : Char} (hc : ' ' ≤ c) :
    ∀ b ∈ String.utf8EncodeChar c, 0x20 ≤ b := by
  have hle : 32 ≤ c.val.toNat := hc
  have hbyte {n : Nat} (hlow : 32 ≤ n) (hhigh : n < 256) : (0x20 : UInt8) ≤ UInt8.ofNat n := by
    rw [UInt8.le_iff_toNat_le, toNat_ofNat hhigh]
    exact hlow
  have hcontinuation (n : Nat) : (0x20 : UInt8) ≤ UInt8.ofNat (n % 64 + 128) :=
    hbyte (by omega) (by omega)
  simp only [String.utf8EncodeChar]
  split_ifs with h₁ h₂ h₃ <;> simp only [List.forall_mem_cons]
  · exact ⟨hbyte hle (by omega), by simp⟩
  · exact ⟨hbyte (by omega) (by omega), hcontinuation _, by simp⟩
  · exact ⟨hbyte (by omega) (by omega), hcontinuation _, hcontinuation _, by simp⟩
  · exact ⟨hbyte (by omega) (by omega), hcontinuation _, hcontinuation _, hcontinuation _, by simp⟩

end Text

/-- **Validation normalizes**, whatever text it was given. The record of an accepted line has a line
of its own, which holds nothing below a blank and is accepted as the same record, unless there is a
real number in the details. -/
theorem validateLine_text_of_accepted {n : Nat} {text : List Char} {r : Record}
    (h : validateLine n text = .ok r) (hreal : ∀ v, r.details = some v → ¬v.HasReal) (m : Nat) :
    Text.lines r.text.toList = [r.text.toList] ∧ (∀ b ∈ r.text.toUTF8.toList, 0x20 ≤ b) ∧
      validateLine m r.text.toList = .ok r := by
  rw [validateLine_eq_ok_iff, validateText_eq_ok_iff] at h
  obtain ⟨ms, hparse, hr, hok⟩ := h
  have hplain : ∀ v, r.details = some v → v.Plain 126 := fun v hv ↦
    (hr.readable_details (Json.readable_of_parse hparse) hv).plain (hreal v hv)
  have hframed : Framed r.text.toList := r.framed_text
  refine ⟨Text.lines_of_not_mem hframed.inline.not_mem hframed.ne_nil, fun b hb ↦ ?_, ?_⟩
  · rw [Text.Utf8.toList_toUTF8] at hb
    obtain ⟨c, hc, hb⟩ := List.mem_flatMap.1 hb
    exact Text.Utf8.le_of_mem_utf8EncodeChar (hframed.inline c hc) b hb
  · rw [validateLine_eq_ok_iff, r.validateText_text hplain, if_pos hok, hr.withoutNull_eq]

/-! ### A line that is far from its record -/

/-- Members in no order, with one repeated, one unknown, one null, and names that are objects. -/
def Json.untidy : List (String × Json) :=
  [("trace_id", .string "a::b::1"), ("event", .string "x"), ("key", .null),
    ("level", .object [("warn", .null)]), ("timestamp", .string "t"), ("event", .string "y"),
    ("extra", .bool true), ("outcome", .object [("skip", .null)]), ("details", .array [.null])]

/-- The same members as they are read. -/
def Json.tidied : List (String × Json) :=
  [("details", .array [.null]), ("event", .string "y"), ("extra", .bool true), ("key", .null),
    ("level", .object [("warn", .null)]), ("outcome", .object [("skip", .null)]),
    ("timestamp", .string "t"), ("trace_id", .string "a::b::1")]

/-- The record of these members. -/
def Record.tidied : Record where
  timestamp := "t"
  trace := "a::b::1"
  level := .warn
  event := "y"
  outcome := some .skip
  details := some (.array [.null])

theorem Json.plain_of_mem_untidy : ∀ m ∈ untidy, m.2.Plain 126 := by
  have hname (name : String) : (Json.object [(name, .null)]).Plain 126 :=
    .object (List.pairwise_singleton _ _) (by simp [Plain.null])
  have hdetails : (Json.array [.null]).Plain 126 := .array (by simp [Plain.null])
  simp only [untidy, List.forall_mem_cons]
  exact ⟨.string _, .string _, .null, hname _, .string _, .string _, .bool _, hname _, hdetails,
    by simp⟩

/-- Reading puts the members in order and keeps the last one of each key. -/
theorem Json.ofMembers_untidy : ofMembers untidy = object tidied := rfl

theorem Record.decodedFrom_tidied : tidied.DecodedFrom (.object Json.tidied) := by
  constructor <;>
    simp [tidied, Json.tidied, Json.get?, Json.Holds, Json.Lacks, Json.Spells, Level.name,
      Outcome.name]

/-- The line of the untidy members is accepted, and the line of its record is another one that is
accepted as the same record. -/
theorem validateLine_text_of_accepted_untidy :
    let text := (Json.object Json.untidy).render
    validateLine 1 text = .ok .tidied ∧ (∀ v, Record.tidied.details = some v → ¬v.HasReal) ∧
      Text.lines Record.tidied.text.toList = [Record.tidied.text.toList] ∧
      (∀ b ∈ Record.tidied.text.toUTF8.toList, 0x20 ≤ b) ∧
      validateLine 2 Record.tidied.text.toList = .ok .tidied := by
  intro text
  have hparse : Json.parse text = .ok (.object Json.tidied) :=
    (Json.parse_render_object Json.plain_of_mem_untidy).trans
      (congrArg Except.ok Json.ofMembers_untidy)
  have hline : validateLine 1 text = .ok .tidied := by
    rw [validateLine_eq_ok_iff, validateText_eq_ok_iff]
    exact ⟨_, hparse, Record.decodedFrom_tidied, by decide, by decide, by decide⟩
  have hreal : ∀ v, Record.tidied.details = some v → ¬v.HasReal := by
    rintro v hv hr
    obtain rfl : Json.array [.null] = v := Option.some.inj hv
    cases hr with
    | item hmem hr =>
      rw [List.mem_singleton.1 hmem] at hr
      cases hr
  exact ⟨hline, hreal, validateLine_text_of_accepted hline hreal 2⟩

end Interpose
