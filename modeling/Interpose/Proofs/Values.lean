import Interpose.Proofs.Scalars

/-!
# Reading back values

A value that was printed on one line reads back as itself (`Plain.readsBack`), if its numbers are
integers, its objects have their keys in order, and it does not nest too deep. Members in any other
order read back as the same members in the order of their keys (`parse_render_object`).

Each container has a lemma for each step of the loop that reads it, about any parser of its items.
What the loop reads off a whole text follows by induction on the items (`items_renderItems`,
`members_renderMembers`), and the induction over values uses these with itself as the parser.
-/

namespace Interpose.Json

namespace Parser

/-- A text begins with a value and not with a blank or the end of an array. -/
def Opens (s : List Char) : Prop := ∃ c t, s = c :: t ∧ isSpace c = false ∧ c ≠ ']'

/-- There is nothing to skip in front of a character that is no blank. -/
theorem skipSpace_cons {c : Char} (hc : isSpace c = false) (s : List Char) :
    skipSpace (c :: s) = c :: s := by
  simp [skipSpace, hc]

theorem skipSpace_cons_ne_nil {c : Char} (hc : isSpace c = false) (s : List Char) :
    skipSpace (c :: s) ≠ [] := by
  rw [skipSpace_cons hc]
  exact List.cons_ne_nil c s

theorem skipSpace_cons_eq_cons {c d : Char} (hc : isSpace c = false) {s t : List Char}
    (h : skipSpace (c :: s) = d :: t) : c = d ∧ s = t := by
  rw [skipSpace_cons hc] at h
  exact List.cons.inj h

/-! ### Steps of the loops -/

section Steps

variable {item : Parser Json} {v : Json} {s t rest : List Char}

theorem items_last (h : Reads (item s) v (']' :: rest)) : Reads (items item s) [v] rest := by
  obtain ⟨_, h⟩ := h
  rw [items, h]
  exact ⟨_, rfl⟩

/-- An item with a comma behind it comes before those that follow. The text behind the comma has to
begin with a value, since the loop looks there for a bracket, which would make it a trailing
comma. -/
theorem items_more {vs : List Json} (h : Reads (item s) v (',' :: t)) (ht : Opens t)
    (hvs : Reads (items item t) vs rest) : Reads (items item s) (v :: vs) rest := by
  obtain ⟨_, h⟩ := h
  obtain ⟨_, hvs⟩ := hvs
  rw [items, h]
  dsimp only
  split
  · next hnil => exact absurd hnil (skipSpace_cons_ne_nil rfl _)
  · next hcons =>
    obtain ⟨rfl, rfl⟩ := skipSpace_cons_eq_cons rfl hcons
    -- Behind the comma comes another item, and not the end of the array.
    obtain ⟨c, u, rfl, hspace, hc⟩ := ht
    simp only [skipSpace_cons hspace, hc, hvs]
    exact ⟨_, rfl⟩

theorem arrayBody_nil : Reads (arrayBody item (']' :: rest)) [] rest := ⟨_, rfl⟩

theorem arrayBody_items {vs : List Json} (hs : Opens s) (h : Reads (items item s) vs rest) :
    Reads (arrayBody item s) vs rest := by
  obtain ⟨c, t, rfl, hspace, hc⟩ := hs
  obtain ⟨_, h⟩ := h
  rw [arrayBody]
  split
  · next hnil => exact absurd hnil (skipSpace_cons_ne_nil hspace t)
  · next hcons =>
    obtain ⟨rfl, rfl⟩ := skipSpace_cons_eq_cons hspace hcons
    simp only [hc, h]
    exact ⟨_, rfl⟩

/-- A member is read off its key, as it is escaped, and the text of its value. -/
theorem member_text {k : String} (h : Reads (item t) v rest) :
    Reads (member item (k.toList.flatMap escapeChar ++ '"' :: ':' :: t)) (k, v) rest := by
  obtain ⟨_, hk⟩ := stringBody_flatMap k.toList (':' :: t)
  obtain ⟨_, h⟩ := h
  rw [member, hk]
  dsimp only
  split
  · next hnil => exact absurd hnil (skipSpace_cons_ne_nil rfl _)
  · next hcons =>
    obtain ⟨rfl, rfl⟩ := skipSpace_cons_eq_cons rfl hcons
    simp only [h, String.ofList_toList]
    exact ⟨_, rfl⟩

theorem members_last {m : String × Json} (h : Reads (member item s) m ('\x7d' :: rest)) :
    Reads (members item s) [m] rest := by
  obtain ⟨_, h⟩ := h
  rw [members, h]
  exact ⟨_, rfl⟩

/-- A member with a comma behind it comes before those that follow, each of which begins with a
quote. -/
theorem members_more {m : String × Json} {ms : List (String × Json)}
    (h : Reads (member item s) m (',' :: '"' :: t)) (hms : Reads (members item t) ms rest) :
    Reads (members item s) (m :: ms) rest := by
  obtain ⟨_, h⟩ := h
  obtain ⟨_, hms⟩ := hms
  rw [members, h]
  dsimp only
  split
  · next hnil => exact absurd hnil (skipSpace_cons_ne_nil rfl _)
  · next hcons =>
    obtain ⟨rfl, rfl⟩ := skipSpace_cons_eq_cons rfl hcons
    rw [if_neg (by decide), if_pos rfl]
    split
    · next hnil => exact absurd hnil (skipSpace_cons_ne_nil rfl _)
    · next hcons =>
      obtain ⟨rfl, rfl⟩ := skipSpace_cons_eq_cons rfl hcons
      simp only [hms]
      exact ⟨_, rfl⟩

theorem objectBody_nil : Reads (objectBody item ('\x7d' :: rest)) [] rest := ⟨_, rfl⟩

theorem objectBody_members {ms : List (String × Json)} (h : Reads (members item s) ms rest) :
    Reads (objectBody item ('"' :: s)) ms rest := by
  obtain ⟨_, h⟩ := h
  rw [objectBody]
  split
  · next hnil => exact absurd hnil (skipSpace_cons_ne_nil rfl _)
  · next hcons =>
    obtain ⟨rfl, rfl⟩ := skipSpace_cons_eq_cons rfl hcons
    simp only [h]
    exact ⟨_, rfl⟩

/-- An array is one level deeper than its items. -/
theorem value_array {d : Nat} {vs : List Json} (h : Reads (arrayBody (value d) s) vs rest) :
    Reads (value (d + 1) ('[' :: s)) (.array vs) rest := by
  obtain ⟨_, h⟩ := h
  rw [value]
  split
  · next hnil => exact absurd hnil (skipSpace_cons_ne_nil rfl _)
  · next hcons =>
    obtain ⟨rfl, rfl⟩ := skipSpace_cons_eq_cons rfl hcons
    simp only [h]
    exact ⟨_, rfl⟩

/-- An object is one level deeper than its members, which it takes in the order of their keys. -/
theorem value_object {d : Nat} {ms : List (String × Json)}
    (h : Reads (objectBody (value d) s) ms rest) :
    Reads (value (d + 1) ('\x7b' :: s)) (ofMembers ms) rest := by
  obtain ⟨_, h⟩ := h
  rw [value]
  split
  · next hnil => exact absurd hnil (skipSpace_cons_ne_nil rfl _)
  · next hcons =>
    obtain ⟨rfl, rfl⟩ := skipSpace_cons_eq_cons rfl hcons
    simp only [h]
    exact ⟨_, rfl⟩

/-- A value that begins with no bracket is a scalar, at any depth. -/
theorem value_scalar {c : Char} (hspace : isSpace c = false) (ha : c ≠ '[') (ho : c ≠ '\x7b')
    (h : Reads (scalar c s) v rest) (d : Nat) : Reads (value d (c :: s)) v rest := by
  obtain ⟨_, h⟩ := h
  rw [value]
  split
  · next hnil => exact absurd hnil (skipSpace_cons_ne_nil hspace s)
  · next hcons =>
    obtain ⟨rfl, rfl⟩ := skipSpace_cons_eq_cons hspace hcons
    simp only [ha, ho, h]
    exact ⟨_, rfl⟩

end Steps

/-! ### Scalars -/

theorem expectLetters_append (word rest : List Char) :
    Reads (expectLetters word (word ++ rest)) () rest := by
  induction word with
  | nil => exact ⟨_, rfl⟩
  | cons w word ih =>
    obtain ⟨_, ih⟩ := ih
    simp only [List.cons_append, expectLetters, if_true, ih]
    exact ⟨_, rfl⟩

/-- A literal stands for its value once the rest of its word is found. -/
theorem literal_append (v : Json) (word : List Char) (c : Char) (rest : List Char) :
    Reads (literal v word c (word ++ rest)) v rest := by
  obtain ⟨_, h⟩ := expectLetters_append word rest
  simp only [literal, h]
  exact ⟨_, rfl⟩

/-- A string reads back in front of any text. -/
theorem scalar_string (s : String) (rest : List Char) :
    Reads (scalar '"' (s.toList.flatMap escapeChar ++ '"' :: rest)) (.string s) rest := by
  obtain ⟨hlt, h⟩ := stringBody_flatMap s.toList rest
  simp only [scalar, Char.reduceEq, if_false, if_true, h]
  refine ⟨Nat.lt_succ_of_lt hlt, ?_⟩
  simp only [Read.map, Read.widen, Function.comp_apply, String.ofList_toList]

/-- What an integer begins with, no other text begins with. -/
theorem ne_of_integer {c d : Char} (hc : c = '-' ∨ c.isDigit) (hminus : '-' ≠ d)
    (hdigit : d.isDigit = false) : c ≠ d := by
  rintro rfl
  obtain rfl | hc := hc
  · exact hminus rfl
  · simp [hdigit] at hc

theorem scalar_number {c : Char} {s rest : List Char} {n : Number} (hc : c = '-' ∨ c.isDigit)
    (h : Reads (number (c :: s)) n rest) : Reads (scalar c s) (.number n) rest := by
  obtain ⟨_, h⟩ := h
  have hn : c ≠ 'n' := ne_of_integer hc (by decide) (by decide)
  have ht : c ≠ 't' := ne_of_integer hc (by decide) (by decide)
  have hf : c ≠ 'f' := ne_of_integer hc (by decide) (by decide)
  have hq : c ≠ '"' := ne_of_integer hc (by decide) (by decide)
  simp only [scalar, hn, ht, hf, hq, hc, if_true, if_false, h]
  exact ⟨_, rfl⟩

/-- An integer begins with its sign or with a digit, and with nothing else. -/
theorem integerText_eq_cons (n : Int) :
    ∃ c s, Number.integerText n = c :: s ∧ (c = '-' ∨ c.isDigit) := by
  rw [Number.integerText]
  split_ifs with h
  · exact ⟨'-', _, rfl, .inl rfl⟩
  · cases hd : Nat.toDigits 10 n.natAbs with
    | nil => simp at hd
    | cons d ds =>
      have hdigit : d.isDigit :=
        Nat.isDigit_of_mem_toDigits (by decide) (by decide) (hd ▸ List.mem_cons_self)
      exact ⟨d, ds, rfl, .inr hdigit⟩

/-! ### Texts of values -/

/-- A parser reads a value off its text. -/
structure ReadsBack (item : Parser Json) (v : Json) : Prop where
  opens (rest : List Char) : Opens (v.render ++ rest)
  reads {rest : List Char} : Stops rest → Reads (item (v.render ++ rest)) v rest

/-- A text that begins with no blank and no bracket is read as a scalar, if at all. -/
theorem readsBack_of_scalar {v : Json} {c : Char} {body : List Char} (htext : v.render = c :: body)
    (hc : isSpace c = false ∧ c ≠ '[' ∧ c ≠ ']' ∧ c ≠ '\x7b')
    (h : ∀ rest, Stops rest → Reads (scalar c (body ++ rest)) v rest) (d : Nat) :
    ReadsBack (value d) v := by
  obtain ⟨hspace, ha, hclose, ho⟩ := hc
  refine ⟨fun rest ↦ ⟨c, body ++ rest, ?_, hspace, hclose⟩, fun {rest} hr ↦ ?_⟩
  · rw [htext, List.cons_append]
  · rw [htext, List.cons_append]
    exact value_scalar hspace ha ho (h rest hr) d

/-- An integer reads back off its text, since it begins with neither a blank nor a bracket. -/
theorem readsBack_integer (n : Integer) (d : Nat) : ReadsBack (value d) (.number (.integer n)) := by
  obtain ⟨c, s, hcons, hc⟩ := integerText_eq_cons n.val
  have htext : (Json.number (.integer n)).render = c :: s := hcons
  have hne {e : Char} : '-' ≠ e → e.isDigit = false → c ≠ e := ne_of_integer hc
  have hspace : isSpace c = false := by
    simp [isSpace, hne (show '-' ≠ ' ' by decide), hne (show '-' ≠ '\n' by decide),
      hne (show '-' ≠ '\t' by decide), hne (show '-' ≠ '\r' by decide)]
  have ha : c ≠ '[' := hne (by decide) (by decide)
  have hclose : c ≠ ']' := hne (by decide) (by decide)
  have ho : c ≠ '\x7b' := hne (by decide) (by decide)
  refine readsBack_of_scalar htext ⟨hspace, ha, hclose, ho⟩ (fun rest hr ↦ ?_) d
  refine scalar_number hc ?_
  rw [← List.cons_append, ← hcons]
  exact number_integerText n hr

section Containers

variable {item : Parser Json}

/-- Items that were written begin with the first of them. -/
theorem opens_renderItems {v : Json} (h : ReadsBack item v) (vs : List Json) (rest : List Char) :
    Opens (renderItems (v :: vs) ++ rest) := by
  cases vs with
  | nil => simpa only [renderItems] using h.opens rest
  | cons w vs => simpa only [renderItems, List.append_assoc] using h.opens _

/-- **The items of an array read back**, by induction on the items. Each is stopped by the comma or
the bracket behind it. -/
theorem items_renderItems {v : Json} {vs : List Json} (h : ∀ w ∈ v :: vs, ReadsBack item w)
    (rest : List Char) :
    Reads (items item (renderItems (v :: vs) ++ ']' :: rest)) (v :: vs) rest := by
  induction vs generalizing v with
  | nil =>
    have hv : ReadsBack item v := h v List.mem_cons_self
    simp only [renderItems]
    exact items_last (hv.reads (stops_cons (by decide) _))
  | cons w vs ih =>
    have hv : ReadsBack item v := h v List.mem_cons_self
    have hw : ∀ u ∈ w :: vs, ReadsBack item u := fun u hu ↦ h u (List.mem_cons_of_mem v hu)
    have htext : renderItems (v :: w :: vs) ++ ']' :: rest =
        v.render ++ ',' :: (renderItems (w :: vs) ++ ']' :: rest) := by simp [renderItems]
    rw [htext]
    exact items_more (hv.reads (stops_cons (by decide) _))
      (opens_renderItems (hw w List.mem_cons_self) vs _) (ih hw)

/-- The items of an array read back, also if there are none. -/
theorem arrayBody_renderItems {vs : List Json} (h : ∀ v ∈ vs, ReadsBack item v) (rest : List Char) :
    Reads (arrayBody item (renderItems vs ++ ']' :: rest)) vs rest := by
  cases vs with
  | nil => exact arrayBody_nil
  | cons v vs =>
    have hopens : Opens (renderItems (v :: vs) ++ ']' :: rest) :=
      opens_renderItems (h v List.mem_cons_self) vs _
    exact arrayBody_items hopens (items_renderItems h rest)

/-- **The members of an object read back**, by induction on the members. The loop starts behind the
quote of the first key, so the text is taken apart there. -/
theorem members_renderMembers {m : String × Json} {ms : List (String × Json)}
    (h : ∀ n ∈ m :: ms, ReadsBack item n.2) (rest : List Char) :
    ∃ s, renderMembers (m :: ms) ++ '\x7d' :: rest = '"' :: s ∧
      Reads (members item s) (m :: ms) rest := by
  induction ms generalizing m with
  | nil =>
    have hm : ReadsBack item m.2 := h m List.mem_cons_self
    refine ⟨m.1.toList.flatMap escapeChar ++ '"' :: ':' :: (m.2.render ++ '\x7d' :: rest), ?_,
      members_last (member_text (hm.reads (stops_cons (by decide) _)))⟩
    simp [renderMembers, renderString]
  | cons n ms ih =>
    have hm : ReadsBack item m.2 := h m List.mem_cons_self
    obtain ⟨s, hs, hread⟩ := ih fun u hu ↦ h u (List.mem_cons_of_mem m hu)
    refine ⟨m.1.toList.flatMap escapeChar ++ '"' :: ':' :: (m.2.render ++ ',' :: '"' :: s), ?_,
      members_more (member_text (hm.reads (stops_cons (by decide) _))) hread⟩
    simp [renderMembers, renderString, hs]

/-- The members of an object read back, also if there are none. -/
theorem objectBody_renderMembers {ms : List (String × Json)} (h : ∀ m ∈ ms, ReadsBack item m.2)
    (rest : List Char) : Reads (objectBody item (renderMembers ms ++ '\x7d' :: rest)) ms rest := by
  cases ms with
  | nil => exact objectBody_nil
  | cons m ms =>
    obtain ⟨s, hs, hread⟩ := members_renderMembers h rest
    rw [hs]
    exact objectBody_members hread

end Containers

/-- An object whose members read back is read as these members in the order of their keys. -/
theorem value_renderObject {d : Nat} {ms : List (String × Json)}
    (h : ∀ m ∈ ms, ReadsBack (value d) m.2) (rest : List Char) :
    Reads (value (d + 1) ((object ms).render ++ rest)) (ofMembers ms) rest := by
  have htext : (object ms).render ++ rest = '\x7b' :: (renderMembers ms ++ '\x7d' :: rest) := by
    simp [render]
  rw [htext]
  exact value_object (objectBody_renderMembers h rest)

end Parser

/-! ### Members in order -/

/-- A member whose key is greater than all others is inserted at the end. -/
theorem insertMember_eq_append {k : String} (v : Json) {ms : List (String × Json)}
    (h : ∀ m ∈ ms, m.1 < k) : insertMember k v ms = ms ++ [(k, v)] := by
  induction ms with
  | nil => rfl
  | cons m ms ih =>
    have hm : m.1 < k := h m List.mem_cons_self
    have hlt : ¬k < m.1 := String.lt_asymm hm
    have hne : k ≠ m.1 := fun he ↦ String.lt_irrefl k (he ▸ hm)
    have htail : ∀ n ∈ ms, n.1 < k := fun n hn ↦ h n (List.mem_cons_of_mem m hn)
    simp only [insertMember, hlt, hne, if_false, ih htail, List.cons_append]

/-- Members whose keys increase are kept in their order. -/
theorem ofMembers_of_pairwise {ms : List (String × Json)} (h : ms.Pairwise (·.1 < ·.1)) :
    ofMembers ms = object ms := by
  -- The members that are left are greater than those that are in place.
  suffices hfold : ∀ acc : List (String × Json), (acc ++ ms).Pairwise (·.1 < ·.1) →
      ms.foldl (fun acc m ↦ insertMember m.1 m.2 acc) acc = acc ++ ms by
    exact congrArg object (hfold [] h)
  clear h
  induction ms with
  | nil => exact fun acc _ ↦ (List.append_nil acc).symm
  | cons m ms ih =>
    intro acc hacc
    -- The next member is greater than all in place, so it comes to stand behind them.
    have hlt : ∀ n ∈ acc, n.1 < m.1 := fun n hn ↦
      (List.pairwise_append.1 hacc).2.2 n hn m List.mem_cons_self
    have hsplit : acc ++ m :: ms = (acc ++ [m]) ++ ms := by simp
    rw [List.foldl_cons, insertMember_eq_append m.2 hlt, hsplit]
    exact ih _ (hsplit ▸ hacc)

/-! ### Plain values -/

/-- A value that text can hold as it is: its numbers are integers, the keys of its objects increase,
and no more than the given number of containers nest in it. -/
inductive Plain : Nat → Json → Prop
  | null {d : Nat} : Plain d .null
  | bool {d : Nat} (b : Bool) : Plain d (.bool b)
  | integer {d : Nat} (n : Integer) : Plain d (.number (.integer n))
  | string {d : Nat} (s : String) : Plain d (.string s)
  | array {d : Nat} {vs : List Json} (h : ∀ v ∈ vs, Plain d v) : Plain (d + 1) (.array vs)
  | object {d : Nat} {ms : List (String × Json)} (keys : ms.Pairwise (·.1 < ·.1))
    (h : ∀ m ∈ ms, Plain d m.2) : Plain (d + 1) (.object ms)

/-- **A plain value reads back off its text**, in front of anything that could not continue a
number. -/
theorem Plain.readsBack {d : Nat} {v : Json} (h : Plain d v) :
    Parser.ReadsBack (Parser.value d) v := by
  induction h with
  | null =>
    exact Parser.readsBack_of_scalar rfl (by decide)
      (fun rest _ ↦ Parser.literal_append .null "ull".toList 'n' rest) _
  | bool b =>
    cases b with
    | false =>
      exact Parser.readsBack_of_scalar rfl (by decide)
        (fun rest _ ↦ Parser.literal_append (.bool false) "alse".toList 'f' rest) _
    | true =>
      exact Parser.readsBack_of_scalar rfl (by decide)
        (fun rest _ ↦ Parser.literal_append (.bool true) "rue".toList 't' rest) _
  | integer n => exact Parser.readsBack_integer n _
  | string s =>
    have htext : (Json.string s).render = '"' :: (s.toList.flatMap escapeChar ++ ['"']) := rfl
    refine Parser.readsBack_of_scalar htext (by decide) (fun rest _ ↦ ?_) _
    rw [List.append_assoc]
    exact Parser.scalar_string s rest
  | @array d vs h ih =>
    -- The items are read by this parser at one depth less, for which it reads them back.
    have htext (rest : List Char) : (Json.array vs).render ++ rest =
        '[' :: (renderItems vs ++ ']' :: rest) := by simp [render]
    refine ⟨fun rest ↦ ⟨'[', _, htext rest, by decide, by decide⟩, fun {rest} hr ↦ ?_⟩
    rw [htext]
    exact Parser.value_array (Parser.arrayBody_renderItems ih rest)
  | @object d ms keys h ih =>
    refine ⟨fun rest ↦ ⟨'\x7b', _, rfl, by decide, by decide⟩, fun {rest} hr ↦ ?_⟩
    have hread := Parser.value_renderObject ih rest
    rwa [ofMembers_of_pairwise keys] at hread

/-- A text that holds a value and nothing else is the text of that value. -/
theorem parse_eq_ok {text : List Char} {v : Json}
    (h : Parser.Reads (Parser.value Parser.maxDepth text) v []) : parse text = .ok v := by
  obtain ⟨_, h⟩ := h
  simp only [parse, h]
  rfl

/-- **The text of a plain value stands for the value.** -/
theorem parse_render {v : Json} (h : Plain Parser.maxDepth v) : parse v.render = .ok v := by
  have hread := h.readsBack.reads Parser.stops_nil
  rw [List.append_nil] at hread
  exact parse_eq_ok hread

/-- The text of an object whose members are plain reads back as their object, in which they are in
order. -/
theorem parse_render_object {ms : List (String × Json)} (h : ∀ m ∈ ms, Plain 126 m.2) :
    parse (object ms).render = .ok (ofMembers ms) := by
  have hread := Parser.value_renderObject (fun m hm ↦ (h m hm).readsBack) []
  rw [List.append_nil] at hread
  exact parse_eq_ok hread

end Interpose.Json
