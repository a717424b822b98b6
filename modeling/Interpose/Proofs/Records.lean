import Interpose.Proofs.Schema
import Interpose.Proofs.Values
import Mathlib.Data.List.Basic
import Mathlib.Data.List.Induction
import Mathlib.Data.List.Nodup

/-!
# Reading back records

The line of a record is validated with the record as its result, exactly if the record keeps three
rules (`validateLine_text`). All the others are kept by what `Record.toJson` writes.

The members of a record are written in the order of its fields and read in the order of their keys.
Which member belongs to a key is the same in both (`Json.get?_ofMembers_fields`), because no two
fields have one key. Decoding looks at an object only by its keys, so that each field is read off
the list of fields (`Record.fields`), and the record is decoded from the object of its members
(`Record.decodedFrom_parsed`).
-/

namespace Interpose

/-! ### Members by key -/

namespace Json

/-- The first member with a key is the one that is found. -/
theorem get?_cons (l k : String) (w : Json) (ms : List (String × Json)) :
    (object ((l, w) :: ms)).get? k = if l = k then some w else (object ms).get? k := by
  by_cases h : l = k <;> simp [get?, h]

/-- A member that is put in place is found, and the look-up of other keys is as before. -/
theorem get?_insertMember (key k : String) (v : Json) (ms : List (String × Json)) :
    (object (insertMember key v ms)).get? k = if key = k then some v else (object ms).get? k := by
  induction ms with
  | nil => exact get?_cons key k v []
  | cons m ms ih =>
    obtain ⟨l, w⟩ := m
    rw [insertMember]
    by_cases hlt : key < l
    · rw [if_pos hlt]
      exact get?_cons key k v _
    rw [if_neg hlt]
    by_cases heq : key = l
    · subst l
      rw [if_pos rfl, get?_cons, get?_cons]
      split_ifs <;> rfl
    -- The member stays in front, and its key is another one.
    rw [if_neg heq, get?_cons, get?_cons, ih]
    split_ifs with hl hk
    · exact absurd (hk.trans hl.symm) heq
    · rfl
    · rfl
    · rfl

/-- Of the members that an object is made of, the last one with a key is found. -/
theorem get?_ofMembers_concat (ms : List (String × Json)) (m : String × Json) (k : String) :
    (ofMembers (ms ++ [m])).get? k = if m.1 = k then some m.2 else (ofMembers ms).get? k := by
  simp only [ofMembers, List.foldl_append, List.foldl_cons, List.foldl_nil]
  exact get?_insertMember m.1 k m.2 _

/-- A field behind other members hides those of its key if it is set, and nothing else. -/
theorem get?_ofMembers_append (ms : List (String × Json)) (l : String) (w : Option Json)
    (k : String) :
    (ofMembers (ms ++ Record.member? l w)).get? k =
      if l = k then w.or ((ofMembers ms).get? k) else (ofMembers ms).get? k := by
  cases w with
  | none =>
    rw [show Record.member? l none = [] from rfl, List.append_nil, Option.none_or, ite_self]
  | some w =>
    rw [show Record.member? l (some w) = [(l, w)] from rfl, get?_ofMembers_concat, Option.some_or]

/-- Optional members with keys of their own are found again, as far as they are set. -/
theorem get?_ofMembers_fields {fs : List (String × Option Json)} (hkeys : (fs.map (·.1)).Nodup)
    (k : String) :
    (ofMembers (fs.flatMap fun f ↦ Record.member? f.1 f.2)).get? k =
      (fs.find? (·.1 = k)).bind (·.2) := by
  -- The last field is read last, and it takes the place of none before it.
  induction fs using List.reverseRecOn with
  | nil => rfl
  | append_singleton fs f ih =>
    obtain ⟨l, w⟩ := f
    rw [List.map_append, List.nodup_append] at hkeys
    obtain ⟨hfs, -, hne⟩ := hkeys
    rw [List.flatMap_append, List.flatMap_singleton, get?_ofMembers_append, ih hfs,
      List.find?_append]
    by_cases h : l = k
    · have hnone : fs.find? (·.1 = k) = none := by
        rw [List.find?_eq_none]
        intro g hg hgk
        exact hne g.1 (List.mem_map_of_mem hg) l (by simp) ((of_decide_eq_true hgk).trans h.symm)
      simp [hnone, h]
    · simp [h]

end Json

namespace Record

/-- The members of a record by their keys, set or not. -/
def fields (r : Record) : List (String × Option Json) :=
  [("timestamp", some (.string r.timestamp)), ("trace_id", some (.string r.trace)),
    ("level", some (.string r.level.name)), ("event", some (.string r.event)),
    ("key", r.key.map .string), ("library", r.library.map .string), ("module", r.file.map .string),
    ("symbol", r.symbol.map .string), ("reason", r.reason.map .string),
    ("line", r.line.map fun n ↦ .number (.integer (.ofUInt64 n))),
    ("outcome", r.outcome.map fun o ↦ .string o.name), ("details", r.details)]

/-- A record whose details, if they are null, are left out. -/
def withoutNull (r : Record) : Record :=
  match r.details with
  | some .null => { r with details := none }
  | _ => r

/-- A record is written field by field, and a field that is not set is not written. -/
theorem toJson_eq (r : Record) :
    r.toJson = .object (r.fields.flatMap fun f ↦ member? f.1 f.2) := by
  simp [toJson, fields, member?]

/-- The object that the text of a record stands for. -/
def parsed (r : Record) : Json := Json.ofMembers (r.fields.flatMap fun f ↦ member? f.1 f.2)

theorem keys_nodup (r : Record) : (r.fields.map (·.1)).Nodup := by
  simp [fields]

/-- **Each field is found under its key**, since the keys are distinct. -/
theorem get?_parsed (r : Record) {k : String} {x : Option Json} (h : (k, x) ∈ r.fields) :
    r.parsed.get? k = x := by
  have hfind : r.fields.find? (·.1 = k) = some (k, x) := by
    cases hf : r.fields.find? (·.1 = k) with
    | none => simpa using List.find?_eq_none.1 hf (k, x) h
    | some f =>
      have hk : f.1 = k := by simpa using List.find?_some hf
      rw [List.inj_on_of_nodup_map r.keys_nodup (List.mem_of_find?_eq_some hf) h hk]
  rw [parsed, Json.get?_ofMembers_fields r.keys_nodup, hfind, Option.bind_some]

/-- Every field that is set is plain. -/
theorem plain_of_mem_fields {r : Record} (hd : ∀ v, r.details = some v → v.Plain 126) :
    ∀ f ∈ r.fields, ∀ v, f.2 = some v → v.Plain 126 := by
  have hset {w : Json} (hw : w.Plain 126) : ∀ v, some w = some v → v.Plain 126 := by
    intro v hv
    exact Option.some.inj hv ▸ hw
  have hmap {α : Type} {f : α → Json} (hf : ∀ a, (f a).Plain 126) (x : Option α) :
      ∀ v, x.map f = some v → v.Plain 126 := by
    intro v hv
    obtain ⟨a, -, rfl⟩ := Option.map_eq_some_iff.1 hv
    exact hf a
  have htext (x : Option String) : ∀ v, x.map Json.string = some v → v.Plain 126 :=
    hmap .string x
  simp only [fields, List.forall_mem_cons]
  exact ⟨hset (.string _), hset (.string _), hset (.string _), hset (.string _), htext _, htext _,
    htext _, htext _, htext _, hmap (fun _ ↦ .integer _) _, hmap (fun _ ↦ .string _) _, hd, by simp⟩

/-- The text of a record reads back as the object of its fields, if its details are plain. -/
theorem parse_text (r : Record) (hd : ∀ v, r.details = some v → v.Plain 126) :
    Json.parse r.text.toList = .ok r.parsed := by
  have hplain : ∀ m ∈ r.fields.flatMap fun f ↦ member? f.1 f.2, m.2.Plain 126 := by
    intro m hm
    obtain ⟨f, hf, hmem⟩ := List.mem_flatMap.1 hm
    obtain ⟨v, hv, rfl⟩ := List.mem_map.1 hmem
    exact plain_of_mem_fields hd f hf v (Option.mem_toList.1 hv)
  rw [text, Json.compact, String.toList_ofList, toJson_eq]
  exact Json.parse_render_object hplain

end Record

/-- A member that is the encoding of a field holds the field, unless a value could be encoded as
null, which holds nothing. -/
theorem Json.Holds.of_get? {α : Type} {v : Json} {field : String} {Is : Json → α → Prop}
    {encode : α → Json} {x : Option α} (hget : v.get? field = x.map encode)
    (hnull : ∀ a, encode a ≠ .null) (his : ∀ a, Is (encode a) a) : v.Holds field Is x := by
  cases x with
  | none => exact .inl hget
  | some a => exact ⟨encode a, hget, hnull a, his a⟩

namespace Record

/-- Details may be any value, so null as details reads back as none. -/
theorem holds_details (r : Record) : r.parsed.Holds "details" (· = ·) r.withoutNull.details := by
  have hget : r.parsed.get? "details" = r.details := r.get?_parsed (by simp [fields])
  cases hd : r.details with
  | none => simp [withoutNull, Json.Holds, Json.Lacks, hget, hd]
  | some v => cases v <;> simp [withoutNull, Json.Holds, Json.Lacks, hget, hd]

/-- **A record is decoded from its own text**, apart from details that are null. -/
theorem decodedFrom_parsed (r : Record) : r.withoutNull.DecodedFrom r.parsed := by
  -- Each member is found by its key, and holds what the field was written as.
  have htext {k : String} {x : Option String} (h : (k, x.map .string) ∈ r.fields) :
      r.parsed.Holds k (· = .string ·) x :=
    .of_get? (r.get?_parsed h) (by simp) fun _ ↦ rfl
  have hfields : { r with details := r.withoutNull.details } = r.withoutNull := by
    rw [withoutNull]
    split <;> rfl
  rw [← hfields]
  exact {
    timestamp := r.get?_parsed (by simp [fields])
    trace := r.get?_parsed (by simp [fields])
    level := ⟨.string r.level.name, r.get?_parsed (by simp [fields]), .inl rfl⟩
    event := r.get?_parsed (by simp [fields])
    key := htext (by simp [fields])
    library := htext (by simp [fields])
    file := htext (by simp [fields])
    symbol := htext (by simp [fields])
    reason := htext (by simp [fields])
    line := .of_get? (r.get?_parsed (by simp [fields])) (by simp) fun _ ↦ rfl
    outcome := .of_get? (r.get?_parsed (by simp [fields])) (by simp) fun _ ↦ .inl rfl
    details := r.holds_details }

theorem decode_parsed (r : Record) : decode r.parsed = .ok r.withoutNull :=
  decode_eq_ok_iff.2 r.decodedFrom_parsed

/-- No rule is about details. -/
theorem violations_withoutNull (r : Record) : r.withoutNull.violations = r.violations := by
  rw [withoutNull]
  split <;> rfl

theorem exists_parsed (r : Record) : ∃ ms, r.parsed = .object ms := ⟨_, rfl⟩

/-- What becomes of the text of a record is up to the rules. -/
theorem validateText_text (r : Record) (hd : ∀ v, r.details = some v → v.Plain 126) :
    validateText r.text.toList =
      if r.TraceOk ∧ r.KeyOk ∧ r.ReasonOk then .ok r.withoutNull else .error r.violations := by
  -- What was read is an object, so that the schema is looked at.
  obtain ⟨ms, hms⟩ := r.exists_parsed
  have hparse : Json.parse r.text.toList = .ok (.object ms) := hms ▸ r.parse_text hd
  rw [validateText_object hparse (hms ▸ r.decodedFrom_parsed), r.violations_withoutNull]
  exact if_congr r.violations_eq_nil_iff rfl rfl

end Record

/-- **The line of a record validates as the record itself, exactly if it keeps three rules.** Its
trace has three parts, an event about a key has the key, and a failure has one of the known reasons.
Otherwise the findings are the rules that are broken, in this order. Details that are null are lost
on the way, and all others, whatever they hold but real numbers, are kept. -/
theorem validateLine_text (r : Record) (n : Nat) (hd : ∀ v, r.details = some v → v.Plain 126) :
    (validateLine n r.text.toList = .ok r.withoutNull ↔ r.TraceOk ∧ r.KeyOk ∧ r.ReasonOk) ∧
      (¬(r.TraceOk ∧ r.KeyOk ∧ r.ReasonOk) →
        validateLine n r.text.toList = .error (r.violations.map (⟨n, ·⟩))) := by
  rw [validateLine, r.validateText_text hd]
  by_cases hok : r.TraceOk ∧ r.KeyOk ∧ r.ReasonOk
  · rw [if_pos hok]
    exact ⟨iff_of_true rfl hok, fun h ↦ absurd hok h⟩
  · rw [if_neg hok]
    refine ⟨iff_of_false ?_ hok, fun _ ↦ rfl⟩
    intro h
    cases h

/-- A record with null as its details. -/
def Record.sample : Record where
  timestamp := "2026-01-01T00:00:00Z"
  trace := "host::run::7"
  level := .warn
  event := "bind_failed"
  key := some "π\n"
  reason := some "ModuleNotFound"
  line := some 7
  details := some .null

/-- The sample with a trace of two parts and without a reason. -/
def Record.broken : Record := { sample with trace := "host::run", reason := none }

/-- A record that is accepted, though without its details, which are null, and one that breaks two
rules. -/
theorem validateLine_text_sample :
    (∀ v, Record.sample.details = some v → v.Plain 126) ∧
      validateLine 3 Record.sample.text.toList = .ok { Record.sample with details := none } ∧
      validateLine 3 Record.broken.text.toList =
        .error [⟨3, .badTrace "host::run"⟩, ⟨3, .noReason⟩] := by
  have hd (v : Json) (hv : some Json.null = some v) : v.Plain 126 := Option.some.inj hv ▸ .null
  have hok := (validateLine_text Record.sample 3 hd).1.2 (by decide +kernel)
  have hbroken := (validateLine_text Record.broken 3 hd).2 (by decide +kernel)
  have hviolations : Record.broken.violations = [.badTrace "host::run", .noReason] := by
    rw [Record.violations, if_neg (by decide +kernel), if_pos (by decide +kernel),
      if_neg (by decide +kernel)]
    rfl
  rw [hviolations] at hbroken
  exact ⟨hd, hok, hbroken⟩

end Interpose
