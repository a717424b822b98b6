import Interpose.Log.Validation
import Interpose.Proofs.Values
import Mathlib.Data.List.Basic
import Mathlib.Data.List.Induction
import Mathlib.Data.List.Nodup

/-!
# What lines are accepted

A line is accepted if it is the text of an object that keeps the documented schema, where a level
and an outcome may be spelled in two ways (`accepted_lines_documented`). As documented they are
strings, and an accepted line has them so unless one of them is an object. One such line is
accepted (`object_level_accepted`): the rules of the schema look at strings only, and decoding
takes an object with the name for its only key.

Two stages have to agree. Decoding is turned around field by field (`Record.decode_eq_ok_iff`), so
that a record is all there is to know about an object that decodes to it. What the rules find in
such an object is then what they find in the record (`Record.DecodedFrom.schemaViolations_eq`), and
three of them are left (`Record.violations`).

The rule about traces counts parts. What the parts are is the relation `SplitsInto`, and the count
is their number (`SplitsInto.length_eq`).
-/

namespace Interpose

theorem BindError.mem_all (e : BindError) : e ∈ all := by
  cases e <;> decide

/-! ### The parts of a trace -/

/-- A text is cut at the double colons in it, each as far to the left as it can be. -/
inductive SplitsInto : List Char → List (List Char) → Prop
  | last {s : List Char} (h : ¬[':', ':'] <:+: s) : SplitsInto s [s]
  | cons {part s : List Char} {parts : List (List Char)} (h : ¬[':', ':'] <:+: part ++ [':'])
    (hs : SplitsInto s parts) : SplitsInto (part ++ ':' :: ':' :: s) (part :: parts)

/-- A character at which no double colon begins adds no part. -/
theorem traceParts_cons {c : Char} {s : List Char} (h : ¬[':', ':'] <+: c :: s) :
    traceParts (c :: s) = traceParts s := by
  rw [traceParts]
  intro t hc ht
  subst hc ht
  exact h ⟨t, rfl⟩

theorem traceParts_eq_one {s : List Char} (h : ¬[':', ':'] <:+: s) : traceParts s = 1 := by
  induction s with
  | nil => rfl
  | cons c s ih =>
    rw [List.infix_cons_iff, not_or] at h
    rw [traceParts_cons h.1, ih h.2]

/-- A part in front of a double colon is one part more, if no other double colon begins in it. It
might with the colon that follows, so that colon is part of the condition. -/
theorem traceParts_append {part : List Char} (h : ¬[':', ':'] <:+: part ++ [':']) (s : List Char) :
    traceParts (part ++ ':' :: ':' :: s) = traceParts s + 1 := by
  induction part with
  | nil => rfl
  | cons c part ih =>
    rw [List.cons_append, List.infix_cons_iff, not_or] at h
    -- Whether a double colon begins at a character is decided by the one behind it.
    have hprefix : ¬[':', ':'] <+: c :: (part ++ ':' :: ':' :: s) := by
      intro hp
      refine h.1 ?_
      cases part with
      | nil => simpa using hp
      | cons d part => simpa using hp
    rw [List.cons_append, traceParts_cons hprefix, ih h.2]

/-- **The count is the number of parts**, by induction on the splitting. -/
theorem SplitsInto.length_eq {s : List Char} {parts : List (List Char)} (h : SplitsInto s parts) :
    parts.length = traceParts s := by
  induction h with
  | last h => exact (traceParts_eq_one h).symm
  | cons h _ ih => rw [traceParts_append h, List.length_cons, ih]

/-- Every text can be split, along the recursion of the count. -/
theorem exists_splitsInto (s : List Char) : ∃ parts, SplitsInto s parts := by
  induction s using traceParts.induct with
  | case1 => exact ⟨_, .last (by decide)⟩
  | case2 s ih =>
    obtain ⟨parts, hs⟩ := ih
    exact ⟨_, .cons (show ¬[':', ':'] <:+: [] ++ [':'] by decide) hs⟩
  | case3 c s hc ih =>
    have hprefix : ¬[':', ':'] <+: c :: s := by
      rintro ⟨t, ht⟩
      simp only [List.cons_append, List.nil_append, List.cons.injEq] at ht
      exact hc t ht.1.symm ht.2.symm
    have hcons {t : List Char} (ht : ¬[':', ':'] <+: c :: t) (h : ¬[':', ':'] <:+: t) :
        ¬[':', ':'] <:+: c :: t := by
      rw [List.infix_cons_iff, not_or]
      exact ⟨ht, h⟩
    -- The character joins the first part.
    obtain ⟨parts, hs⟩ := ih
    cases hs with
    | last h => exact ⟨_, .last (hcons hprefix h)⟩
    | @cons part t parts h hs =>
      have hpart : ¬[':', ':'] <+: c :: (part ++ [':']) := fun hp ↦
        hprefix (hp.trans ⟨':' :: t, by simp⟩)
      have hfirst : ¬[':', ':'] <:+: (c :: part) ++ [':'] := hcons hpart h
      exact ⟨_, .cons hfirst hs⟩

/-- A trace has three parts just if it is a component, a run and a number with double colons between
them. -/
theorem traceParts_eq_three_iff (s : List Char) :
    traceParts s = 3 ↔ ∃ component run seq, SplitsInto s [component, run, seq] := by
  constructor
  · intro h
    obtain ⟨parts, hs⟩ := exists_splitsInto s
    obtain ⟨a, b, c, rfl⟩ := List.length_eq_three.1 (hs.length_eq.trans h)
    exact ⟨a, b, c, hs⟩
  · rintro ⟨a, b, c, hs⟩
    exact hs.length_eq.symm

/-! ### Results -/

/-- Two steps succeed just if the first does and the second does with its result. -/
theorem Except.bind_eq_ok_iff {ε α β : Type} {x : Except ε α} {f : α → Except ε β} {b : β} :
    (x >>= f) = .ok b ↔ ∃ a, x = .ok a ∧ f a = .ok b := by
  cases x <;> simp [bind, Except.bind]

theorem Except.map_eq_ok_iff {ε α β : Type} {x : Except ε α} {f : α → β} {b : β} :
    x.map f = .ok b ↔ ∃ a, x = .ok a ∧ f a = b := by
  cases x <;> simp [Except.map]

/-! ### Decoding -/

namespace Json

/-- A value spells a name: it is the string of the name, or the object with the name for its only
key and null for its value. -/
def Spells (v : Json) (name : String) : Prop := v = .string name ∨ v = .object [(name, .null)]

/-- A member is missing or null. -/
def Lacks (v : Json) (field : String) : Prop :=
  v.get? field = none ∨ v.get? field = some .null

variable {α : Type} {field : String} {v : Json}

/-- A member that is present holds what stands for a value, and one that stands for no value is
missing or null. -/
def Holds (v : Json) (field : String) (Is : Json → α → Prop) : Option α → Prop
  | none => v.Lacks field
  | some a => ∃ w, v.get? field = some w ∧ w ≠ .null ∧ Is w a

theorem decodeString_eq_ok_iff {s : String} : decodeString v = .ok s ↔ v = .string s := by
  cases v <;> simp [decodeString]

/-- An integer fits a word without sign just if it is the integer of that word. -/
theorem Integer.toUInt64?_eq_some_iff {n : Integer} {w : UInt64} :
    n.toUInt64? = some w ↔ n = .ofUInt64 w := by
  refine ⟨fun h ↦ ?_, fun h ↦ h ▸ toUInt64?_ofUInt64 w⟩
  rw [toUInt64?, Option.ite_none_right_eq_some] at h
  obtain ⟨hnonneg, hw⟩ := h
  obtain rfl := Option.some.inj hw
  -- The integer is less than the number of words, so that its word counts it.
  have hlt : n.val.toNat < 2 ^ 64 := by
    have := n.lt_max
    omega
  have hval : n.val = (UInt64.ofNat n.val.toNat).toNat := by
    rw [UInt64.toNat_ofNat_of_lt' hlt]
    omega
  cases n
  simpa [ofUInt64] using hval

theorem decodeWord_eq_ok_iff {n : UInt64} :
    decodeWord v = .ok n ↔ v = .number (.integer (.ofUInt64 n)) := by
  cases v with
  | number n =>
    cases n with
    | integer i =>
      simp only [number.injEq, Number.integer.injEq, ← Integer.toUInt64?_eq_some_iff, decodeWord]
      cases i.toUInt64? <;> simp
    | real => simp [decodeWord]
  | _ => simp [decodeWord]

section Names

variable {all : List α} {name : α → String} {a : α}

/-- A name is found just if it is the name of the value, provided that the list has each value
before all others of its name. -/
theorem decodeName_find_eq_ok_iff (hall : ∀ a, all.find? (name · = name a) = some a) {s : String} :
    decodeName.find all name s = .ok a ↔ s = name a := by
  rw [decodeName.find]
  constructor
  · intro h
    split at h
    · next b hb =>
      obtain rfl := Except.ok.inj h
      have hname : name b = s := by simpa using List.find?_some hb
      exact hname.symm
    · cases h
  · rintro rfl
    rw [hall]

/-- A name is decoded to the value that has it, if that is the first in the list. -/
theorem decodeName_eq_ok_iff (hall : ∀ a, all.find? (name · = name a) = some a) :
    decodeName all name v = .ok a ↔ v.Spells (name a) := by
  have hfind (s : String) : decodeName.find all name s = .ok a ↔ s = name a :=
    decodeName_find_eq_ok_iff hall
  cases v with
  | string s => simp [decodeName, hfind, Spells]
  | object ms =>
    -- An object spells a name only if it has one member, and that is null.
    cases ms with
    | nil => simp [decodeName, Spells]
    | cons m ms =>
      obtain ⟨s, w⟩ := m
      cases ms with
      | nil =>
        rw [decodeName, Except.bind_eq_ok_iff]
        cases w <;> simp [hfind, Spells]
      | cons n ms => simp [decodeName, Spells]
  | _ => simp [decodeName, Spells]

end Names

theorem spells_string_iff {s name : String} : (string s).Spells name ↔ s = name := by
  simp [Spells]

theorem Spells.ne_null {name : String} (h : v.Spells name) : v ≠ .null := by
  obtain rfl | rfl := h <;> simp

/-- A name that is not spelled as an object is spelled as a string. -/
theorem Spells.eq_string {name : String} (h : v.Spells name) (hobject : ∀ ms, v ≠ .object ms) :
    v = .string name :=
  h.resolve_right (hobject _)

theorem required_eq_ok_iff {decode : Json → Except DecodeError α} {a : α} :
    v.required decode field = .ok a ↔ ∃ w, v.get? field = some w ∧ decode w = .ok a := by
  rw [required]
  cases v.get? field <;> simp

/-- An optional member is decoded as what it holds, where a missing member and null hold nothing. -/
theorem optional_eq_ok_iff {decode : Json → Except DecodeError α} {Is : Json → α → Prop}
    (hdecode : ∀ w a, decode w = .ok a ↔ Is w a) {x : Option α} :
    v.optional decode field = .ok x ↔ v.Holds field Is x := by
  rw [optional]
  split
  · next h =>
    cases x <;> simp [Holds, Lacks, h]
  · next h =>
    cases x <;> simp [Holds, Lacks, h]
  · next w hne h =>
    have hnull : w ≠ .null := hne
    rw [Except.map_eq_ok_iff]
    cases x <;> simp [Holds, Lacks, h, hnull, hdecode]

/-- An optional member can be decoded just if it is missing, or null, or stands for some value. -/
theorem exists_holds_iff {Is : Json → α → Prop} :
    (∃ x, v.Holds field Is x) ↔
      v.Lacks field ∨ ∃ w a, v.get? field = some w ∧ w ≠ .null ∧ Is w a := by
  constructor
  · rintro ⟨_ | a, h⟩
    · exact .inl h
    · obtain ⟨w, h⟩ := h
      exact .inr ⟨w, a, h⟩
  · rintro (h | ⟨w, a, h⟩)
    · exact ⟨none, h⟩
    · exact ⟨some a, w, h⟩

section Texts

variable {x : Option String}

theorem Holds.text?_eq (h : v.Holds field (· = .string ·) x) : v.text? field = x := by
  rw [text?]
  cases x with
  | none => obtain h | h := h <;> simp [h, string?]
  | some s =>
    obtain ⟨w, hget, -, rfl⟩ := h
    simp [hget, string?]

theorem Holds.eq_some {s : String} (h : v.Holds field (· = .string ·) x)
    (hget : v.get? field = some (.string s)) : x = some s := by
  rw [← h.text?_eq, text?, hget]
  rfl

theorem Holds.get?_eq {s : String} (h : v.Holds field (· = .string ·) x) (hx : x = some s) :
    v.get? field = some (.string s) := by
  subst hx
  obtain ⟨w, hget, -, rfl⟩ := h
  exact hget

/-- An optional text can be decoded just if it is missing, or null, or a string. -/
theorem exists_holds_string_iff :
    (∃ x : Option String, v.Holds field (· = .string ·) x) ↔
      v.Lacks field ∨ ∃ s, v.get? field = some (.string s) := by
  rw [exists_holds_iff]
  refine or_congr_right ⟨?_, ?_⟩
  · rintro ⟨w, s, hget, -, rfl⟩
    exact ⟨s, hget⟩
  · rintro ⟨s, hget⟩
    exact ⟨_, s, hget, by simp, rfl⟩

end Texts

end Json

namespace Record

/-- A record is decoded from a value whose members are its fields, one by one. -/
structure DecodedFrom (r : Record) (v : Json) : Prop where
  timestamp : v.get? "timestamp" = some (.string r.timestamp)
  trace : v.get? "trace_id" = some (.string r.trace)
  level : ∃ w, v.get? "level" = some w ∧ w.Spells r.level.name
  event : v.get? "event" = some (.string r.event)
  key : v.Holds "key" (· = .string ·) r.key
  library : v.Holds "library" (· = .string ·) r.library
  file : v.Holds "module" (· = .string ·) r.file
  symbol : v.Holds "symbol" (· = .string ·) r.symbol
  reason : v.Holds "reason" (· = .string ·) r.reason
  line : v.Holds "line" (fun w n ↦ w = .number (.integer (.ofUInt64 n))) r.line
  outcome : v.Holds "outcome" (fun w o ↦ w.Spells o.name) r.outcome
  details : v.Holds "details" (· = ·) r.details

/-- **Decoding turned around**: a record is what a value decodes to just if the members of the value
are its fields. -/
theorem decode_eq_ok_iff {v : Json} {r : Record} : decode v = .ok r ↔ r.DecodedFrom v := by
  have hlevel {l : Level} : v.required (Json.decodeName Level.all Level.name) "level" = .ok l ↔
      ∃ w, v.get? "level" = some w ∧ w.Spells l.name := by
    simp only [Json.required_eq_ok_iff, Json.decodeName_eq_ok_iff Level.ofName?_name]
  have houtcome {o : Option Outcome} :
      v.optional (Json.decodeName Outcome.all Outcome.name) "outcome" = .ok o ↔
        v.Holds "outcome" (fun w o ↦ w.Spells o.name) o :=
    Json.optional_eq_ok_iff fun _ _ ↦ Json.decodeName_eq_ok_iff Outcome.ofName?_name
  have htext {field : String} {s : String} : v.required Json.decodeString field = .ok s ↔
      v.get? field = some (.string s) := by
    simp [Json.required_eq_ok_iff, Json.decodeString_eq_ok_iff]
  have htext? {field : String} {s : Option String} : v.optional Json.decodeString field = .ok s ↔
      v.Holds field (· = .string ·) s :=
    Json.optional_eq_ok_iff fun _ _ ↦ Json.decodeString_eq_ok_iff
  have hline {n : Option UInt64} : v.optional Json.decodeWord "line" = .ok n ↔
      v.Holds "line" (fun w n ↦ w = .number (.integer (.ofUInt64 n))) n :=
    Json.optional_eq_ok_iff fun _ _ ↦ Json.decodeWord_eq_ok_iff
  have hdetails {x : Option Json} : v.optional .ok "details" = .ok x ↔
      v.Holds "details" (· = ·) x :=
    Json.optional_eq_ok_iff fun _ _ ↦ by simp
  simp only [decode, Except.bind_eq_ok_iff, hlevel, houtcome, htext, htext?, hline, hdetails, pure,
    Except.pure, Except.ok.injEq]
  constructor
  · rintro ⟨details, hdetails, event, hevent, key, hkey, level, hlevel, library, hlibrary, line,
      hline, file, hfile, outcome, houtcome, reason, hreason, symbol, hsymbol, timestamp,
      htimestamp, trace, htrace, rfl⟩
    exact ⟨htimestamp, htrace, hlevel, hevent, hkey, hlibrary, hfile, hsymbol, hreason, hline,
      houtcome, hdetails⟩
  · intro h
    exact ⟨_, h.details, _, h.event, _, h.key, _, h.level, _, h.library, _, h.line, _, h.file, _,
      h.outcome, _, h.reason, _, h.symbol, _, h.timestamp, _, h.trace, rfl⟩

/-! ### The rules of the schema -/

/-- The trace of a record has three parts. -/
def TraceOk (r : Record) : Prop :=
  ∃ component run seq, SplitsInto r.trace.toList [component, run, seq]

/-- A record of an event about a key has the key. -/
def KeyOk (r : Record) : Prop :=
  r.event ∈ ["configured", "unknown_key", "bound", "bind_failed"] → r.key.isSome

/-- A record of a failure names the reason. -/
def ReasonOk (r : Record) : Prop :=
  r.event = "bind_failed" → ∃ e : BindError, r.reason = some e.name

instance (r : Record) : Decidable r.TraceOk :=
  decidable_of_iff _ (traceParts_eq_three_iff r.trace.toList)

instance (r : Record) : Decidable r.KeyOk := inferInstanceAs (Decidable (_ → _))

instance (r : Record) : Decidable r.ReasonOk :=
  decidable_of_iff (r.event = "bind_failed" → ∃ e ∈ BindError.all, r.reason = some e.name)
    (by simp [ReasonOk, BindError.mem_all])

/-- The violation of a failure whose reason names none. -/
def reasonViolation (r : Record) : Violation :=
  match r.reason with
  | some text => .badReason text
  | none => .noReason

/-- The rules that a record breaks, in the order in which they are checked. -/
def violations (r : Record) : List Violation :=
  (if r.TraceOk then [] else [.badTrace r.trace]) ++
    (if r.KeyOk then [] else [.noKey r.event]) ++
    (if r.ReasonOk then [] else [r.reasonViolation])

/-- A record breaks no rule just if it keeps each of the three. -/
theorem violations_eq_nil_iff (r : Record) :
    r.violations = [] ↔ r.TraceOk ∧ r.KeyOk ∧ r.ReasonOk := by
  simp [violations]

end Record

/-- A member is not objected to if its text, in case it is a string, keeps the condition. -/
theorem checkText_eq_nil {v : Json} {field : String} {holds : String → Bool}
    {violation : String → Violation} (h : ∀ s, v.get? field = some (.string s) → holds s) :
    checkText v field holds violation = [] := by
  rw [checkText]
  split
  · next s hs =>
    obtain ⟨w, hget, hw⟩ := Option.bind_eq_some_iff.1 hs
    cases w with
    | string t =>
      obtain rfl := Option.some.inj hw
      rw [if_pos (h t hget)]
    | _ => cases hw
  · rfl

namespace Record.DecodedFrom

variable {r : Record} {v : Json}

/-- Decoding has found all required members. -/
theorem missing (h : r.DecodedFrom v) :
    requiredFields.filter (fun f ↦ (v.get? f).isNone) = [] := by
  obtain ⟨w, hlevel, -⟩ := h.level
  simp [requiredFields, h.timestamp, h.trace, hlevel, h.event]

/-- A level that was decoded has the name of a level, or it is an object and is not looked at. -/
theorem badLevel (h : r.DecodedFrom v) :
    checkText v "level" (fun s ↦ (Level.ofName? s).isSome) .badLevel = [] := by
  refine checkText_eq_nil fun s hs ↦ ?_
  obtain ⟨w, hlevel, hw⟩ := h.level
  obtain rfl := Option.some.inj (hlevel.symm.trans hs)
  rw [Json.spells_string_iff.1 hw, Level.ofName?_name]
  rfl

/-- An outcome that was decoded has the name of an outcome, or it is missing, null or an object. -/
theorem badOutcome (h : r.DecodedFrom v) :
    checkText v "outcome" (fun s ↦ (Outcome.ofName? s).isSome) .badOutcome = [] := by
  refine checkText_eq_nil fun s hs ↦ ?_
  have houtcome := h.outcome
  cases ho : r.outcome with
  | none =>
    rw [ho] at houtcome
    obtain hget | hget := houtcome <;> cases hget.symm.trans hs
  | some o =>
    rw [ho] at houtcome
    obtain ⟨w, hget, -, hw⟩ := houtcome
    obtain rfl := Option.some.inj (hget.symm.trans hs)
    rw [Json.spells_string_iff.1 hw, Outcome.ofName?_name]
    rfl

/-- The rule about traces finds in the value what it finds in the record. -/
theorem badTrace (h : r.DecodedFrom v) :
    checkText v "trace_id" (fun s ↦ traceParts s.toList = 3) .badTrace =
      if r.TraceOk then [] else [.badTrace r.trace] := by
  have htrace : traceParts r.trace.toList = 3 ↔ r.TraceOk := traceParts_eq_three_iff _
  rw [checkText, Json.text?, h.trace]
  simp only [Option.bind_some, Json.string?, decide_eq_true_eq, htrace]

/-- The rule about reasons finds in the value what it finds in the record. The member is read as a
text there and was decoded as one here. -/
theorem badReason (h : r.DecodedFrom v) :
    (if r.event = "bind_failed" then reasonViolations v else []) =
      if r.ReasonOk then [] else [r.reasonViolation] := by
  have hreason : reasonViolations v =
      if ∃ e ∈ BindError.all, r.reason = some e.name then [] else [r.reasonViolation] := by
    rw [reasonViolations, h.reason.text?_eq, reasonViolation]
    cases r.reason with
    | none => simp
    | some text =>
      have hname : text ∈ BindError.all.map (·.name) ↔
          ∃ e ∈ BindError.all, some text = some e.name := by simp [eq_comm]
      simp only [hname]
  by_cases hevent : r.event = "bind_failed"
  · have hok : (∃ e ∈ BindError.all, r.reason = some e.name) ↔ r.ReasonOk := by
      simp [ReasonOk, hevent, BindError.mem_all]
    rw [if_pos hevent, hreason]
    exact if_congr hok rfl rfl
  · have hok : r.ReasonOk := fun h ↦ absurd h hevent
    rw [if_neg hevent, if_pos hok]

/-- **The rules of the schema find in a value what its record breaks.** No required member is
missing, and the names of its level and its outcome are known. -/
theorem schemaViolations_eq (h : r.DecodedFrom v) :
    schemaViolations v = r.violations := by
  have hevent : (v.text? "event").getD "" = r.event := by
    simp [Json.text?, h.event, Json.string?]
  have hkey : (r.event ∈ Event.names ∧ (v.text? "key").isNone) ↔ ¬r.KeyOk := by
    rw [h.key.text?_eq, KeyOk, Event.names]
    simp
  simp only [schemaViolations, hevent, h.missing, h.badLevel, h.badOutcome, h.badTrace, h.badReason,
    hkey, ite_not]
  rfl

end Record.DecodedFrom

/-- What becomes of an object that decodes to a record is up to the rules that it breaks. -/
theorem validateText_object {text : List Char} {ms : List (String × Json)} {r : Record}
    (hparse : Json.parse text = .ok (.object ms)) (hr : r.DecodedFrom (.object ms)) :
    validateText text = if r.violations = [] then .ok r else .error r.violations := by
  have hdecode : Record.decode (.object ms) = .ok r := Record.decode_eq_ok_iff.2 hr
  rw [validateText, hparse]
  simp only [hr.schemaViolations_eq, hdecode]
  split
  · next hnil =>
    rw [if_pos hnil]
    rfl
  · next hne => rw [if_neg hne]

/-- **What is accepted, and as what**: the text of an object that decodes to a record, if the record
breaks no rule. -/
theorem validateText_eq_ok_iff {text : List Char} {r : Record} :
    validateText text = .ok r ↔ ∃ ms, Json.parse text = .ok (.object ms) ∧
      r.DecodedFrom (.object ms) ∧ r.TraceOk ∧ r.KeyOk ∧ r.ReasonOk := by
  constructor
  · intro h
    rw [validateText] at h
    split at h
    · cases h
    · next ms hparse =>
      refine ⟨ms, hparse, ?_⟩
      split at h
      · next hschema =>
        have hr : r.DecodedFrom (.object ms) := by
          refine Record.decode_eq_ok_iff.1 ?_
          cases hdecode : Record.decode (.object ms) with
          | error e => rw [hdecode] at h; cases h
          | ok s => rw [hdecode] at h; cases h; rfl
        exact ⟨hr, r.violations_eq_nil_iff.1 (hr.schemaViolations_eq.symm.trans hschema)⟩
      · cases h
    · cases h
  · rintro ⟨ms, hparse, hr, hok⟩
    rw [validateText_object hparse hr, if_pos (r.violations_eq_nil_iff.2 hok)]

/-- The number of a line has no part in whether it is accepted. -/
theorem validateLine_eq_ok_iff {n : Nat} {text : List Char} {r : Record} :
    validateLine n text = .ok r ↔ validateText text = .ok r := by
  rw [validateLine]
  cases validateText text <;> simp [Except.mapError]

/-! ### The documented schema -/

/-- The schema as it is documented, except that it is left open how the level and the outcome may
spell their names. -/
structure Documented (Spelled : Json → String → Prop) (v : Json) : Prop where
  timestamp : ∃ s, v.get? "timestamp" = some (.string s)
  trace : ∃ s component run seq, v.get? "trace_id" = some (.string s) ∧
    SplitsInto s.toList [component, run, seq]
  event : ∃ s, v.get? "event" = some (.string s)
  level : ∃ w, v.get? "level" = some w ∧
    ∃ name ∈ ["trace", "debug", "info", "warn", "error"], Spelled w name
  outcome : v.Lacks "outcome" ∨ ∃ w, v.get? "outcome" = some w ∧
    ∃ name ∈ ["pass", "fail", "skip"], Spelled w name
  key : ∀ e ∈ ["configured", "unknown_key", "bound", "bind_failed"],
    v.get? "event" = some (.string e) → ∃ s, v.get? "key" = some (.string s)
  reason : v.get? "event" = some (.string "bind_failed") →
    ∃ name ∈ ["NoConfig", "NameTooLong", "ModuleNotFound", "SymbolNotFound"],
      v.get? "reason" = some (.string name)
  line : v.Lacks "line" ∨ ∃ n : UInt64, v.get? "line" = some (.number (.integer (.ofUInt64 n)))

/-- The members of a record that are texts if they are present. -/
def Record.textFields : List String := ["key", "library", "module", "symbol", "reason"]

theorem Level.mem_all (l : Level) : l ∈ all := by
  cases l <;> decide

theorem Outcome.mem_all (o : Outcome) : o ∈ all := by
  cases o <;> decide

/-- The documented names of levels are the names of levels. -/
theorem Level.mem_names_iff {name : String} :
    name ∈ ["trace", "debug", "info", "warn", "error"] ↔ ∃ l : Level, l.name = name := by
  show name ∈ all.map Level.name ↔ _
  simp [Level.mem_all]

theorem Outcome.mem_names_iff {name : String} :
    name ∈ ["pass", "fail", "skip"] ↔ ∃ o : Outcome, o.name = name := by
  show name ∈ all.map Outcome.name ↔ _
  simp [Outcome.mem_all]

theorem BindError.mem_names_iff {name : String} :
    name ∈ ["NoConfig", "NameTooLong", "ModuleNotFound", "SymbolNotFound"] ↔
      ∃ e : BindError, e.name = name := by
  show name ∈ all.map BindError.name ↔ _
  simp [BindError.mem_all]

/-- A value is as documented if it decodes to a record that breaks no rule. -/
theorem Record.DecodedFrom.documented {r : Record} {v : Json} (h : r.DecodedFrom v)
    (htrace : r.TraceOk) (hkey : r.KeyOk) (hreason : r.ReasonOk) :
    Documented Json.Spells v where
  timestamp := ⟨_, h.timestamp⟩
  trace := by
    obtain ⟨component, run, seq, hsplit⟩ := htrace
    exact ⟨_, component, run, seq, h.trace, hsplit⟩
  event := ⟨_, h.event⟩
  level := by
    obtain ⟨w, hget, hw⟩ := h.level
    exact ⟨w, hget, _, Level.mem_names_iff.2 ⟨_, rfl⟩, hw⟩
  outcome := by
    refine (Json.exists_holds_iff.1 ⟨_, h.outcome⟩).imp_right ?_
    rintro ⟨w, o, hget, -, hw⟩
    exact ⟨w, hget, _, Outcome.mem_names_iff.2 ⟨o, rfl⟩, hw⟩
  key := by
    intro e he hevent
    obtain rfl : r.event = e := by simpa using h.event.symm.trans hevent
    obtain ⟨s, hs⟩ := Option.isSome_iff_exists.1 (hkey he)
    exact ⟨s, h.key.get?_eq hs⟩
  reason := by
    intro hevent
    obtain ⟨e, he⟩ := hreason (by simpa using h.event.symm.trans hevent)
    exact ⟨_, BindError.mem_names_iff.2 ⟨e, rfl⟩, h.reason.get?_eq he⟩
  line := by
    refine (Json.exists_holds_iff.1 ⟨_, h.line⟩).imp_right ?_
    rintro ⟨w, n, hget, -, rfl⟩
    exact ⟨n, hget⟩

/-- The members that are texts are strings if they are present. -/
theorem Record.DecodedFrom.text_field {r : Record} {v : Json} (h : r.DecodedFrom v) :
    ∀ f ∈ textFields, v.Lacks f ∨ ∃ s, v.get? f = some (.string s) := by
  simp only [textFields, List.forall_mem_cons, ← Json.exists_holds_string_iff]
  exact ⟨⟨_, h.key⟩, ⟨_, h.library⟩, ⟨_, h.file⟩, ⟨_, h.symbol⟩, ⟨_, h.reason⟩, by simp⟩

/-- A value that is as documented decodes to a record, if nothing else is in the way: the other
members are texts where they are present, and details can be anything. -/
theorem Documented.exists_decodedFrom {v : Json} (h : Documented Json.Spells v)
    (htext : ∀ f ∈ Record.textFields, v.Lacks f ∨ ∃ s, v.get? f = some (.string s)) :
    ∃ r : Record, r.DecodedFrom v := by
  simp only [Record.textFields, List.forall_mem_cons, ← Json.exists_holds_string_iff] at htext
  obtain ⟨⟨_, hkey⟩, ⟨_, hlibrary⟩, ⟨_, hfile⟩, ⟨_, hsymbol⟩, ⟨_, hreason⟩, -⟩ := htext
  obtain ⟨_, htimestamp⟩ := h.timestamp
  obtain ⟨_, _, _, _, htrace, -⟩ := h.trace
  obtain ⟨_, hevent⟩ := h.event
  obtain ⟨w, hlevel, name, hname, hw⟩ := h.level
  obtain ⟨level, rfl⟩ := Level.mem_names_iff.1 hname
  have houtcome : ∃ x : Option Outcome, v.Holds "outcome" (fun w o ↦ w.Spells o.name) x := by
    refine Json.exists_holds_iff.2 (h.outcome.imp_right ?_)
    rintro ⟨w, hget, name, hname, hw⟩
    obtain ⟨o, rfl⟩ := Outcome.mem_names_iff.1 hname
    exact ⟨w, o, hget, hw.ne_null, hw⟩
  have hline : ∃ x : Option UInt64,
      v.Holds "line" (fun w n ↦ w = .number (.integer (.ofUInt64 n))) x := by
    refine Json.exists_holds_iff.2 (h.line.imp_right ?_)
    rintro ⟨n, hget⟩
    exact ⟨_, n, hget, by simp, rfl⟩
  have hdetails : ∃ x : Option Json, v.Holds "details" (· = ·) x := by
    rw [Json.exists_holds_iff, Json.Lacks]
    cases v.get? "details" with
    | none => exact .inl (.inl rfl)
    | some w => by_cases hnull : w = .null <;> simp [hnull]
  obtain ⟨_, houtcome⟩ := houtcome
  obtain ⟨_, hline⟩ := hline
  obtain ⟨_, hdetails⟩ := hdetails
  exact ⟨⟨_, _, level, _, _, _, _, _, _, _, _, _⟩, htimestamp, htrace, ⟨w, hlevel, hw⟩, hevent,
    hkey, hlibrary, hfile, hsymbol, hreason, hline, houtcome, hdetails⟩

/-- A record that is decoded from a value that is as documented breaks no rule. -/
theorem Documented.rules {v : Json} (h : Documented Json.Spells v) {r : Record}
    (hr : r.DecodedFrom v) : r.TraceOk ∧ r.KeyOk ∧ r.ReasonOk := by
  refine ⟨?_, fun he ↦ ?_, fun he ↦ ?_⟩
  · obtain ⟨s, component, run, seq, hget, hsplit⟩ := h.trace
    obtain rfl : r.trace = s := by simpa using hr.trace.symm.trans hget
    exact ⟨component, run, seq, hsplit⟩
  · obtain ⟨s, hget⟩ := h.key r.event he hr.event
    rw [hr.key.eq_some hget]
    rfl
  · obtain ⟨name, hname, hget⟩ := h.reason (he ▸ hr.event)
    obtain ⟨e, rfl⟩ := BindError.mem_names_iff.1 hname
    exact ⟨e, hr.reason.eq_some hget⟩

/-- Names are spelled as strings where they are not spelled as objects. -/
theorem Documented.verbatim_iff {v : Json} (h : Documented Json.Spells v) :
    Documented (fun w name ↦ w = .string name) v ↔
      ∀ f ∈ ["level", "outcome"], ∀ inner, v.get? f ≠ some (.object inner) := by
  simp only [List.forall_mem_cons]
  constructor
  · intro hv
    refine ⟨fun inner hget ↦ ?_, fun inner hget ↦ ?_, by simp⟩
    · obtain ⟨w, hlevel, name, -, rfl⟩ := hv.level
      cases hlevel.symm.trans hget
    · obtain (hout | hout) | ⟨w, hout, name, -, rfl⟩ := hv.outcome <;>
        cases hout.symm.trans hget
  · rintro ⟨hlevel, houtcome, -⟩
    refine { h with level := ?_, outcome := ?_ }
    · obtain ⟨w, hget, name, hname, hw⟩ := h.level
      exact ⟨w, hget, name, hname, hw.eq_string fun inner hi ↦ hlevel inner (hi ▸ hget)⟩
    · refine h.outcome.imp_right ?_
      rintro ⟨w, hget, name, hname, hw⟩
      exact ⟨w, hget, name, hname, hw.eq_string fun inner hi ↦ houtcome inner (hi ▸ hget)⟩

/-- **What lines are accepted**, whatever their text and their number.

A line is accepted just if it is the text of an object that keeps the documented schema, with two
spellings for the names of levels and outcomes, and whose other members are texts where they are
present. An accepted line keeps the schema with names that are strings, as it is documented, just if
neither its level nor its outcome is an object. -/
theorem accepted_lines_documented (n : Nat) (text : List Char) :
    ((∃ r, validateLine n text = .ok r) ↔
      ∃ ms, Json.parse text = .ok (.object ms) ∧ Documented Json.Spells (.object ms) ∧
        ∀ f ∈ Record.textFields, (Json.object ms).Lacks f ∨
          ∃ s, (Json.object ms).get? f = some (.string s)) ∧
    ∀ r ms, validateLine n text = .ok r → Json.parse text = .ok (.object ms) →
      (Documented (fun w name ↦ w = .string name) (.object ms) ↔
        ∀ f ∈ ["level", "outcome"], ∀ inner, (Json.object ms).get? f ≠ some (.object inner)) := by
  simp only [validateLine_eq_ok_iff, validateText_eq_ok_iff]
  refine ⟨⟨?_, ?_⟩, ?_⟩
  · rintro ⟨r, ms, hparse, hr, htrace, hkey, hreason⟩
    exact ⟨ms, hparse, hr.documented htrace hkey hreason, hr.text_field⟩
  · rintro ⟨ms, hparse, hdoc, htext⟩
    obtain ⟨r, hr⟩ := hdoc.exists_decodedFrom htext
    exact ⟨r, ms, hparse, hr, hdoc.rules hr⟩
  · rintro r ms ⟨ns, hns, hr, htrace, hkey, hreason⟩ hparse
    obtain rfl : ns = ms := by simpa using hns.symm.trans hparse
    exact (hr.documented htrace hkey hreason).verbatim_iff

/-! ### Two lines -/

/-- The required members of an object, with a given value for the level. -/
def Json.withLevel (level : Json) : List (String × Json) :=
  [("event", .string "x"), ("level", level), ("timestamp", .string "t"),
    ("trace_id", .string "a::b::1")]

/-- A record with a given level. -/
def Record.withLevel (level : Level) : Record where
  timestamp := "t"
  trace := "a::b::1"
  level := level
  event := "x"

/-- The object reads back, since the keys of its members are in order. -/
theorem Json.parse_withLevel {level : Json} (h : level.Plain 126) :
    parse (object (withLevel level)).render = .ok (object (withLevel level)) := by
  have hkeys : ["event", "level", "timestamp", "trace_id"].Pairwise (· < ·) := by decide
  refine parse_render (.object (List.pairwise_map.1 hkeys) ?_)
  simp only [withLevel, List.forall_mem_cons]
  exact ⟨.string _, h, .string _, .string _, by simp⟩

theorem Record.decodedFrom_withLevel {w : Json} {level : Level} (h : w.Spells level.name) :
    (withLevel level).DecodedFrom (.object (Json.withLevel w)) := by
  constructor <;> simp [withLevel, Json.withLevel, Json.get?, Json.Holds, Json.Lacks, h]

/-- A line with such an object is accepted, and as the record. -/
theorem validateLine_withLevel {w : Json} {level : Level} (h : w.Spells level.name)
    (hp : w.Plain 126) :
    validateLine 1 (Json.object (Json.withLevel w)).render = .ok (.withLevel level) := by
  have htrace : (Record.withLevel level).TraceOk :=
    (traceParts_eq_three_iff _).1 (by decide : traceParts "a::b::1".toList = 3)
  have hkey : (Record.withLevel level).KeyOk := by
    simp [Record.KeyOk, Record.withLevel]
  have hreason : (Record.withLevel level).ReasonOk := by
    simp [Record.ReasonOk, Record.withLevel]
  rw [validateLine_eq_ok_iff, validateText_eq_ok_iff]
  exact ⟨_, Json.parse_withLevel hp, Record.decodedFrom_withLevel h, htrace, hkey, hreason⟩

/-- A line whose level is a string is accepted, and it is as documented. -/
theorem accepted_lines_documented_named :
    let members := Json.withLevel (.string "info")
    let text := (Json.object members).render
    validateLine 1 text = .ok (.withLevel .info) ∧ Json.parse text = .ok (.object members) ∧
      Documented (fun w name ↦ w = .string name) (.object members) := by
  intro members text
  have hplain : (Json.string "info").Plain 126 := .string _
  have hline : validateLine 1 text = .ok (.withLevel .info) :=
    validateLine_withLevel (.inl rfl) hplain
  have hparse : Json.parse text = .ok (.object members) := Json.parse_withLevel hplain
  refine ⟨hline, hparse, ((accepted_lines_documented 1 text).2 _ _ hline hparse).2 ?_⟩
  simp [members, Json.withLevel, Json.get?]

/-- **A line is accepted whose level is no string**: it is an object that has the name of a level
for its key. -/
theorem object_level_accepted :
    let text := "\x7b\"event\":\"x\",\"level\":\x7b\"info\":null\x7d," ++
      "\"timestamp\":\"t\",\"trace_id\":\"a::b::1\"\x7d"
    let members := Json.withLevel (.object [("info", .null)])
    Json.parse text.toList = .ok (.object members) ∧
      validateLine 1 text.toList = .ok (.withLevel .info) ∧
      ¬Documented (fun w name ↦ w = .string name) (.object members) := by
  intro text members
  have hplain : (Json.object [("info", .null)]).Plain 126 :=
    .object (List.pairwise_singleton _ _) (by simp [Json.Plain.null])
  have htext : text.toList = (Json.object members).render := by decide +kernel
  rw [htext]
  refine ⟨Json.parse_withLevel hplain, validateLine_withLevel (.inr rfl) hplain, fun hdoc ↦ ?_⟩
  obtain ⟨w, hget, name, -, rfl⟩ := hdoc.level
  simp [members, Json.withLevel, Json.get?] at hget

end Interpose
