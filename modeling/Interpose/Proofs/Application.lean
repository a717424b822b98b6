import Interpose.Proofs.Moves
import Mathlib.Data.List.Induction
import Mathlib.Data.List.Nodup

/-!
# Applying tables

A table is applied line by line, and a later line overwrites what an earlier one set. The outcome is
the same as if each entry had been looked up in the table (`applyTable_lookup`): the last line for
its key decides, provided that the entry is the first one with its key and is still unresolved.

What a line does is said once, in `Registry.applyLine_cases`. It changes neither the keys nor the
states of the entries, which make up the `Registry.roster`, and whether it is unknown, taken or
refused depends on the roster alone. So what a table tells is read off line by line
(`Registry.events_applyLines`), and the counts of a report are counts of lines and of entries.
-/

namespace Interpose

variable {σ φ : Type}

/-! ### The last line for a key -/

namespace Table

/-- The last of some lines that assigns to a key. -/
def lastLine? (key : String) (lines : List Line) : Option Line :=
  lines.reverse.find? (·.assignment.key = key)

/-- Looking up a key finds the assignment on the last line for it. -/
theorem lookup?_eq (t : Table) (key : String) :
    t.lookup? key = (lastLine? key t.lines).map (·.assignment) := by
  rw [lookup?, lastLine?, List.find?_map]
  rfl

/-- A line is the last one for its key if no later line is. -/
theorem lastLine?_cons (key : String) (line : Line) (lines : List Line) :
    lastLine? key (line :: lines) =
      (lastLine? key lines).or (if line.assignment.key = key then some line else none) := by
  rw [lastLine?, List.reverse_cons, List.find?_append]
  by_cases h : line.assignment.key = key <;> simp [lastLine?, h]

theorem mem_of_lastLine?_eq_some {key : String} {lines : List Line} {line : Line}
    (h : lastLine? key lines = some line) : line ∈ lines ∧ line.assignment.key = key :=
  ⟨List.mem_reverse.mp (List.mem_of_find?_eq_some h), by simpa using List.find?_some h⟩

/-- There is a last line for a key just if there is any. -/
theorem isSome_lastLine?_iff {key : String} {lines : List Line} :
    (lastLine? key lines).isSome ↔ ∃ line ∈ lines, line.assignment.key = key := by
  simp [lastLine?]

end Table

/-- The key that an event tells is unknown. -/
def Event.unknownKey? : Event → Option String
  | .unknownKey key _ => some key
  | _ => none

theorem InitReport.unknownKeys_eq (events : List Event) :
    unknownKeys events = (events.filterMap Event.unknownKey?).length := by
  rw [List.length_filterMap_eq_countP, unknownKeys]
  refine List.countP_congr fun event _ ↦ ?_
  cases event <;> simp [Event.unknownKey?]

/-- One more element is a repetition, or it stays as the last one. -/
theorem eraseDups_concat {α : Type} [DecidableEq α] (l : List α) (a : α) :
    (l ++ [a]).eraseDups = if a ∈ l then l.eraseDups else l.eraseDups ++ [a] := by
  rw [List.eraseDups_append]
  by_cases h : a ∈ l <;> simp [List.removeAll, h, List.eraseDups_cons]

/-- What is left when repetitions are erased is distinct. -/
theorem nodup_eraseDups {α : Type} [DecidableEq α] (l : List α) : l.eraseDups.Nodup := by
  induction l using List.reverseRecOn with
  | nil => simp
  | append_singleton l a ih =>
    rw [eraseDups_concat]
    split
    · exact ih
    · next h =>
      have hnew : ∀ b ∈ l, ¬b = a := fun b hb hba ↦ h (hba ▸ hb)
      simpa [List.nodup_append] using ⟨ih, hnew⟩

namespace Registry

/-! ### Keys and states -/

/-- The keys and the states of the entries. -/
def roster (r : Registry φ) : List (String × State) := r.entries.map fun e ↦ (e.key, e.state)

/-- Where a key is found is read off the keys. -/
theorem find?_eq (r : Registry φ) (key : String) :
    r.find? key = r.roster.findIdx? (·.1 = key) := by
  rw [roster, List.findIdx?_map]
  rfl

/-- A key is not found just if no entry has it. -/
theorem find?_eq_none_iff {r : Registry φ} {key : String} :
    r.find? key = none ↔ key ∉ r.keys := by
  simp [find?, keys]

/-- The index of a key is that of the first entry with the key. -/
theorem find?_eq_some_iff {r : Registry φ} {key : String} {i : Nat} :
    r.find? key = some i ↔
      (∃ e, r.entries[i]? = some e ∧ e.key = key) ∧ key ∉ r.keys.take i := by
  have hfirst (hi : i < r.entries.length) :
      key ∉ r.keys.take i ↔ ∀ j (hj : j < i), r.entries[j].key ≠ key := by
    simp only [keys, List.mem_take_iff_getElem, List.length_map, List.getElem_map, not_exists]
    exact ⟨fun h j hj ↦ h j (by omega), fun h j hj ↦ h j (by omega)⟩
  rw [find?, List.findIdx?_eq_some_iff_getElem]
  constructor
  · rintro ⟨hi, hkey, hbefore⟩
    refine ⟨⟨_, List.getElem?_eq_getElem hi, of_decide_eq_true hkey⟩, (hfirst hi).mpr ?_⟩
    intro j hj
    simpa using hbefore j hj
  · rintro ⟨⟨e, he, rfl⟩, hnew⟩
    obtain ⟨hi, rfl⟩ := List.getElem?_eq_some_iff.mp he
    refine ⟨hi, by simp, fun j hj ↦ ?_⟩
    simpa using (hfirst hi).mp hnew j hj

theorem key_of_find? {r : Registry φ} {key : String} {i : Nat} {e : Entry φ}
    (hi : r.find? key = some i) (he : r.entries[i]? = some e) : e.key = key := by
  obtain ⟨⟨d, hd, hkey⟩, -⟩ := find?_eq_some_iff.mp hi
  obtain rfl := Option.some.inj (hd.symm.trans he)
  exact hkey

/-! ### One line -/

/-- **The first entry with a key** takes the target, or refuses it, and no other entry is
touched. -/
theorem configureFirst_eq (key : String) (target : Target) (es : List (Entry φ)) :
    configureFirst key target es =
      (es.findIdx? (·.key = key)).bind fun i ↦ es[i]?.map fun e ↦
        ((e.configure target).1, es.set i (e.configure target).2) := by
  induction es with
  | nil => rfl
  | cons e es ih =>
    rw [configureFirst, List.findIdx?_cons]
    by_cases h : e.key = key
    · simp [h]
    · rw [if_neg h, ih]
      cases hi : es.findIdx? (·.key = key) with
      | none => simp [h]
      | some i => simp [h, Function.comp_def]

/-- **What a line does.** Its key is unknown, or the first entry with the key takes the target, or
that entry is settled and refuses it. -/
theorem applyLine_cases (r : Registry φ) (line : Table.Line) :
    (r.find? line.assignment.key = none ∧
        r.applyLine line = (r, some (.unknownKey line.assignment.key line.number))) ∨
      ∃ i e, r.find? line.assignment.key = some i ∧ r.entries[i]? = some e ∧
        (e.state = .unresolved ∧
            r.applyLine line =
              (⟨r.entries.set i { e with target := line.assignment.target }⟩,
                some (.configured line.assignment.key line.assignment.target)) ∨
          e.state.isTerminal = true ∧ r.applyLine line = (r, none)) := by
  rw [applyLine, configureFirst_eq, ← find?]
  cases hi : r.find? line.assignment.key with
  | none => exact .inl ⟨rfl, rfl⟩
  | some i =>
    obtain ⟨⟨e, he, -⟩, -⟩ := find?_eq_some_iff.mp hi
    refine .inr ⟨i, e, rfl, he, ?_⟩
    cases ht : e.state.isTerminal with
    | true => exact .inr ⟨rfl, by simp [he, Entry.configure, ht]⟩
    | false =>
      refine .inl ⟨State.isTerminal_eq_false_iff.mp ht, ?_⟩
      simp [he, Entry.configure, ht]

/-- A line changes neither keys nor states. -/
theorem roster_applyLine (r : Registry φ) (line : Table.Line) :
    (r.applyLine line).1.roster = r.roster := by
  obtain ⟨-, h⟩ | ⟨i, e, -, he, ⟨-, h⟩ | ⟨-, h⟩⟩ := r.applyLine_cases line
  · rw [h]
  · obtain ⟨hi, rfl⟩ := List.getElem?_eq_some_iff.mp he
    have hlt : i < r.roster.length := by simpa [roster] using hi
    have hsame : (r.entries[i].key, r.entries[i].state) = r.roster[i] := by simp [roster]
    rw [h, roster, List.map_set, hsame]
    exact List.set_getElem_self hlt
  · rw [h]

/-- A line is about the first entry with its key, as long as that is unresolved. -/
theorem getElem?_applyLine {r : Registry φ} {i : Nat} {e : Entry φ} (he : r.entries[i]? = some e)
    (line : Table.Line) :
    (r.applyLine line).1.entries[i]? =
      some (if r.find? line.assignment.key = some i ∧ e.state = .unresolved then
        { e with target := line.assignment.target } else e) := by
  obtain ⟨hnone, h⟩ | ⟨j, d, hj, hd, ⟨hu, h⟩ | ⟨ht, h⟩⟩ := r.applyLine_cases line
  · simp [h, hnone, he]
  · obtain ⟨hlt, -⟩ := List.getElem?_eq_some_iff.mp hd
    rw [h, hj]
    by_cases hij : j = i
    · subst hij
      obtain rfl := Option.some.inj (hd.symm.trans he)
      simp [hlt, hu]
    · simp [hij, he]
  · rw [h, hj, he]
    by_cases hij : j = i
    · subst hij
      obtain rfl := Option.some.inj (hd.symm.trans he)
      have hn : d.state ≠ .unresolved := fun hu ↦ by simp [hu, State.isTerminal] at ht
      simp [hn]
    · simp [hij]

/-! ### Many lines -/

theorem find?_congr {r r' : Registry φ} (h : r'.roster = r.roster) (key : String) :
    r'.find? key = r.find? key := by
  rw [find?_eq, find?_eq, h]

/-- A table is applied line by line, each line to what the lines before it have left. -/
theorem registry_applyLines_cons (r : Registry φ) (line : Table.Line) (lines : List Table.Line) :
    (r.applyLines (line :: lines)).1 = ((r.applyLine line).1.applyLines lines).1 := rfl

/-- And it tells of them in this order. -/
theorem events_applyLines_cons (r : Registry φ) (line : Table.Line) (lines : List Table.Line) :
    (r.applyLines (line :: lines)).2 =
      (r.applyLine line).2.toList ++ ((r.applyLine line).1.applyLines lines).2 := rfl

/-- So tables change neither keys nor states, and the lines of a table find what its first line
would have found. -/
theorem roster_applyLines (r : Registry φ) (lines : List Table.Line) :
    (r.applyLines lines).1.roster = r.roster := by
  induction lines generalizing r with
  | nil => rfl
  | cons line lines ih => exact (ih (r.applyLine line).1).trans (r.roster_applyLine line)

theorem keys_applyLine (r : Registry φ) (line : Table.Line) :
    (r.applyLine line).1.keys = r.keys := by
  simpa [roster, keys, Function.comp_def] using
    congrArg (List.map Prod.fst) (r.roster_applyLine line)

theorem length_applyLines (r : Registry φ) (lines : List Table.Line) :
    (r.applyLines lines).1.entries.length = r.entries.length := by
  simpa [roster] using congrArg List.length (r.roster_applyLines lines)

/-- An entry that is not the first one with its key, or is settled, keeps what it has. -/
theorem getElem?_applyLines_of_not {r : Registry φ} {i : Nat} {e : Entry φ}
    (he : r.entries[i]? = some e) (hn : ¬(r.find? e.key = some i ∧ e.state = .unresolved))
    (lines : List Table.Line) : (r.applyLines lines).1.entries[i]? = some e := by
  induction lines generalizing r with
  | nil => exact he
  | cons line lines ih =>
    have hkeep : ¬(r.find? line.assignment.key = some i ∧ e.state = .unresolved) := by
      rintro ⟨hi, hu⟩
      rw [← key_of_find? hi he] at hi
      exact hn ⟨hi, hu⟩
    have he' : (r.applyLine line).1.entries[i]? = some e := by
      rw [getElem?_applyLine he, if_neg hkeep]
    rw [registry_applyLines_cons]
    refine ih he' ?_
    rwa [find?_congr (r.roster_applyLine line)]

/-- The first entry with a key ends up with the target on the last line for the key, if there is
such a line. -/
theorem getElem?_applyLines {r : Registry φ} {i : Nat} {e : Entry φ}
    (he : r.entries[i]? = some e) (hi : r.find? e.key = some i) (hu : e.state = .unresolved)
    (lines : List Table.Line) :
    (r.applyLines lines).1.entries[i]? =
      some { e with
        target := ((Table.lastLine? e.key lines).map (·.assignment.target)).getD e.target } := by
  induction lines generalizing r e with
  | nil => exact he
  | cons line lines ih =>
    -- What this line sets is what is left if no later line is for the key.
    have hstep := getElem?_applyLine he line
    have hfind : (r.applyLine line).1.find? e.key = some i := by
      rwa [find?_congr (r.roster_applyLine line)]
    rw [registry_applyLines_cons, Table.lastLine?_cons]
    by_cases hkey : line.assignment.key = e.key
    · rw [hkey, if_pos ⟨hi, hu⟩] at hstep
      have hlater := ih hstep hfind hu
      rw [if_pos hkey, hlater]
      cases Table.lastLine? e.key lines <;> rfl
    · have hother : ¬(r.find? line.assignment.key = some i ∧ e.state = .unresolved) := by
        rintro ⟨hline, -⟩
        exact hkey (key_of_find? hline he).symm
      rw [if_neg hother] at hstep
      have hlater := ih hstep hfind hu
      rw [if_neg hkey, Option.or_none]
      exact hlater

/-! ### What a table tells -/

/-- What applying a line tells. -/
def eventOf? (r : Registry φ) (line : Table.Line) : Option Event :=
  match r.find? line.assignment.key with
  | none => some (.unknownKey line.assignment.key line.number)
  | some i =>
    if r.roster[i]?.map (·.2) = some .unresolved then
      some (.configured line.assignment.key line.assignment.target)
    else none

theorem getElem?_roster {r : Registry φ} {i : Nat} {e : Entry φ} (he : r.entries[i]? = some e) :
    r.roster[i]? = some (e.key, e.state) := by
  simp [roster, he]

/-- A line tells what the keys and the states say. -/
theorem event_applyLine (r : Registry φ) (line : Table.Line) :
    (r.applyLine line).2 = r.eventOf? line := by
  obtain ⟨hnone, h⟩ | ⟨i, e, hi, he, ⟨hu, h⟩ | ⟨ht, h⟩⟩ := r.applyLine_cases line
  · simp [h, eventOf?, hnone]
  · simp [h, eventOf?, hi, getElem?_roster he, hu]
  · have hn : e.state ≠ .unresolved := fun hu ↦ by simp [hu, State.isTerminal] at ht
    simp [h, eventOf?, hi, getElem?_roster he, hn]

/-- **What a table tells**, line by line: none of the events depends on the lines before. -/
theorem events_applyLines (r : Registry φ) (lines : List Table.Line) :
    (r.applyLines lines).2 = lines.filterMap r.eventOf? := by
  induction lines generalizing r with
  | nil => rfl
  | cons line lines ih =>
    have hsame : (r.applyLine line).1.eventOf? = r.eventOf? := by
      funext l
      rw [eventOf?, eventOf?, find?_congr (r.roster_applyLine line), r.roster_applyLine line]
    rw [events_applyLines_cons, ih, hsame, event_applyLine]
    cases h : r.eventOf? line <;> simp [h]

/-- An entry, at an index, gets its target from a table. -/
def Receives (r : Registry φ) (t : Table) (i : Nat) (e : Entry φ) : Prop :=
  e.key ∉ r.keys.take i ∧ e.state = .unresolved ∧ (t.lookup? e.key).isSome

instance (r : Registry φ) (t : Table) (i : Nat) (e : Entry φ) : Decidable (r.Receives t i e) :=
  inferInstanceAs (Decidable (_ ∧ _))

/-- A line with a known key is told if it takes effect. -/
theorem eventOf?_of_find? {r : Registry φ} {line : Table.Line} {i : Nat} {e : Entry φ}
    (hi : r.find? line.assignment.key = some i) (he : r.entries[i]? = some e) :
    r.eventOf? line = if e.state = .unresolved then
      some (.configured line.assignment.key line.assignment.target) else none := by
  simp [eventOf?, hi, getElem?_roster he]

/-- A line is told if its key is unknown, or if the first entry of its key is unresolved. -/
theorem eventOf?_cases (r : Registry φ) (line : Table.Line) :
    (line.assignment.key ∉ r.keys ∧
        r.eventOf? line = some (.unknownKey line.assignment.key line.number)) ∨
      line.assignment.key ∈ r.keys ∧
        ∃ i e, r.entries[i]? = some e ∧ e.key = line.assignment.key ∧
          line.assignment.key ∉ r.keys.take i ∧
          r.eventOf? line = if e.state = .unresolved then
            some (.configured line.assignment.key line.assignment.target) else none := by
  cases hi : r.find? line.assignment.key with
  | none => exact .inl ⟨find?_eq_none_iff.mp hi, by rw [eventOf?, hi]⟩
  | some i =>
    obtain ⟨⟨e, he, hkey⟩, hfirst⟩ := find?_eq_some_iff.mp hi
    exact .inr ⟨List.mem_map.mpr ⟨e, List.mem_of_getElem? he, hkey⟩, i, e, he, hkey, hfirst,
      eventOf?_of_find? hi he⟩

/-- **The keys that are told to be configured** are those of the entries that receive a target. -/
theorem mem_configuredKeys_iff {r : Registry φ} {t : Table} {key : String} :
    key ∈ InitReport.configuredKeys (r.applyLines t.lines).2 ↔
      ∃ i e, r.entries[i]? = some e ∧ e.key = key ∧ r.Receives t i e := by
  rw [events_applyLines, InitReport.configuredKeys, List.mem_filterMap]
  constructor
  · rintro ⟨event, hevent, hkey⟩
    obtain ⟨line, hline, hof⟩ := List.mem_filterMap.mp hevent
    obtain ⟨-, htold⟩ | ⟨-, i, e, he, hekey, hfirst, htold⟩ := r.eventOf?_cases line
    · rw [htold] at hof
      obtain rfl := Option.some.inj hof
      simp at hkey
    · rw [htold] at hof
      split at hof
      · next hu =>
        obtain rfl := Option.some.inj hof
        obtain rfl : line.assignment.key = key := by simpa using hkey
        refine ⟨i, e, he, hekey, hekey ▸ hfirst, hu, ?_⟩
        rw [Table.lookup?_eq, Option.isSome_map, Table.isSome_lastLine?_iff]
        exact ⟨line, hline, hekey.symm⟩
      · cases hof
  · rintro ⟨i, e, he, rfl, hfirst, hu, hlookup⟩
    rw [Table.lookup?_eq, Option.isSome_map, Table.isSome_lastLine?_iff] at hlookup
    obtain ⟨line, hline, hkey⟩ := hlookup
    have hi : r.find? line.assignment.key = some i :=
      find?_eq_some_iff.mpr ⟨⟨e, he, hkey.symm⟩, hkey ▸ hfirst⟩
    refine ⟨.configured e.key line.assignment.target, List.mem_filterMap.mpr ⟨line, hline, ?_⟩, rfl⟩
    rw [eventOf?_of_find? hi he, if_pos hu, hkey]

/-- The entries that receive a target have distinct keys. -/
theorem nodup_map_filter_receives (r : Registry φ) (t : Table) :
    ((r.entries.zipIdx.filter fun p ↦ r.Receives t p.2 p.1).map fun p ↦ p.1.key).Nodup := by
  refine List.Nodup.map_on ?_ (List.Nodup.filter _ (List.Nodup.of_map (·.2) ?_))
  · rintro ⟨d, i⟩ hd ⟨e, j⟩ he hkey
    simp only [List.mem_filter, List.mem_zipIdx_iff_getElem?, decide_eq_true_eq] at hd he hkey
    have hi := find?_eq_some_iff.mpr ⟨⟨d, hd.1, rfl⟩, hd.2.1⟩
    have hj := find?_eq_some_iff.mpr ⟨⟨e, he.1, rfl⟩, he.2.1⟩
    obtain rfl : i = j := Option.some.inj (hi.symm.trans ((congrArg r.find? hkey).trans hj))
    exact congrArg (·, i) (Option.some.inj (hd.1.symm.trans he.1))
  · rw [show r.entries.zipIdx.map (·.2) = _ from List.zipIdx_map_snd 0 _]
    exact List.nodup_range'

/-- **The number of configured keys** is that of the entries that receive a target. A key may be
told more than once, and entries may share one, of which only the first counts. -/
theorem length_configuredKeys (r : Registry φ) (t : Table) :
    (InitReport.configuredKeys (r.applyLines t.lines).2).eraseDups.length =
      r.entries.zipIdx.countP fun p ↦ r.Receives t p.2 p.1 := by
  have hperm := (List.perm_ext_iff_of_nodup (nodup_eraseDups _)
    (r.nodup_map_filter_receives t)).mpr fun key ↦ by
      rw [List.mem_eraseDups, mem_configuredKeys_iff]
      simp only [List.mem_map, List.mem_filter, Prod.exists, List.mem_zipIdx_iff_getElem?,
        decide_eq_true_eq]
      exact ⟨fun ⟨i, e, he, hkey, hr⟩ ↦ ⟨e, i, ⟨he, hr⟩, hkey⟩,
        fun ⟨e, i, ⟨he, hr⟩, hkey⟩ ↦ ⟨i, e, he, hkey, hr⟩⟩
  rw [hperm.length_eq, List.length_map, List.countP_eq_length_filter]

/-- Unknown keys are told in the order of their lines, once for each line. -/
theorem filterMap_unknownKey?_applyLines (r : Registry φ) (lines : List Table.Line) :
    (r.applyLines lines).2.filterMap Event.unknownKey? =
      (lines.filter fun line ↦ line.assignment.key ∉ r.keys).map (·.assignment.key) := by
  rw [events_applyLines, List.filterMap_filterMap, ← List.filterMap_eq_map, List.filterMap_filter]
  refine List.filterMap_congr fun line _ ↦ ?_
  obtain ⟨hunknown, htold⟩ | ⟨hknown, _, e, -, -, -, htold⟩ := r.eventOf?_cases line
  · simp [htold, hunknown, Event.unknownKey?]
  · by_cases hu : e.state = .unresolved <;> simp [htold, hknown, hu, Event.unknownKey?]

/-- The number of unknown lines counts lines and not keys. -/
theorem unknownKeys_applyLines (r : Registry φ) (lines : List Table.Line) :
    InitReport.unknownKeys (r.applyLines lines).2 =
      lines.countP fun line ↦ line.assignment.key ∉ r.keys := by
  rw [InitReport.unknownKeys_eq, filterMap_unknownKey?_applyLines, List.length_map,
    List.countP_eq_length_filter]

/-! ### Valid registries -/

/-- No key occurs before just if the keys are distinct, and none was seen. -/
theorem firstRepeated?_eq_none_iff {keys seen : List String} :
    firstRepeated? seen keys = none ↔ keys.Nodup ∧ ∀ key ∈ keys, key ∉ seen := by
  induction keys generalizing seen with
  | nil => simp [firstRepeated?]
  | cons key keys ih =>
    rw [firstRepeated?, List.nodup_cons, List.forall_mem_cons]
    by_cases hseen : key ∈ seen
    · simp [hseen]
    · rw [if_neg hseen, ih]
      simp only [List.mem_cons, not_or, hseen, not_false_eq_true, true_and]
      constructor
      · rintro ⟨hkeys, hrest⟩
        exact ⟨⟨fun hmem ↦ (hrest key hmem).1 rfl, hkeys⟩,
          fun other hother ↦ (hrest other hother).2⟩
      · rintro ⟨⟨hnew, hkeys⟩, hrest⟩
        exact ⟨hkeys, fun other hother ↦ ⟨fun h ↦ hnew (h ▸ hother), hrest other hother⟩⟩

/-- A registry of distinct keys is valid. -/
theorem validate_ofKeys {keys : List String} (hkeys : keys.Nodup) :
    (ofKeys keys : Registry φ).validate = .ok () := by
  rw [validate, keys_ofKeys, firstRepeated?_eq_none_iff.mpr ⟨hkeys, by simp⟩]

/-- A registry in which a key is repeated is refused. -/
theorem validate_ofKeys_of_not_nodup {keys : List String} (hkeys : ¬keys.Nodup) :
    ∃ key, (ofKeys keys : Registry φ).validate = .error (.duplicateKey key) := by
  rw [validate, keys_ofKeys]
  cases hfirst : firstRepeated? [] keys with
  | none => exact absurd (firstRepeated?_eq_none_iff.mp hfirst).1 hkeys
  | some key => exact ⟨key, rfl⟩

end Registry

/-- A host with a valid registry applies the table in a file that can be read. -/
theorem Host.init_of_validate (h : Host σ φ) (hvalid : h.registry.validate = .ok ()) (path : String)
    (bytes : List UInt8) :
    h.init (some ⟨path, .ok bytes⟩) = (h.applyTable (.ofBytes h.policy bytes)).map .ok := by
  simp only [init, hvalid]
  rfl

/-- **Applying a table is looking each key up**, for any host and any table.

An entry that receives a target, because it is the first one with its key, is unresolved and has a
line in the table, gets the target that the table has for its key. Every other entry stays as it is,
and nothing else about the host changes; in particular, its loader is not asked. The report counts
the entries that received a target, the lines whose key no entry carries, and the skipped lines. -/
theorem applyTable_lookup (h : Host σ φ) (t : Table) :
    let r := h.registry
    let step := h.applyTable t
    (∀ i e, h.entryAt i = some e →
        (r.Receives t i e → ∀ a, t.lookup? e.key = some a →
          step.host.entryAt i = some { e with target := a.target }) ∧
        (¬r.Receives t i e → step.host.entryAt i = some e)) ∧
      step.host = { h with registry := step.host.registry } ∧
      step.host.registry.entries.length = r.entries.length ∧
      step.result = .configured (r.entries.zipIdx.countP fun p ↦ r.Receives t p.2 p.1)
        (t.lines.countP fun line ↦ line.assignment.key ∉ r.keys) t.skipped.length := by
  intro r step
  have hresult : step.result = .ofEvents t (r.applyLines t.lines).2 := rfl
  refine ⟨fun i e he ↦ ⟨fun hr a ha ↦ ?_, fun hn ↦ ?_⟩, rfl, r.length_applyLines t.lines, ?_⟩
  · obtain ⟨hfirst, hu, -⟩ := hr
    have hi : r.find? e.key = some i := Registry.find?_eq_some_iff.mpr ⟨⟨e, he, rfl⟩, hfirst⟩
    have htarget : (Table.lastLine? e.key t.lines).map (·.assignment.target) = some a.target := by
      rw [Table.lookup?_eq] at ha
      obtain ⟨line, hline, rfl⟩ := Option.map_eq_some_iff.mp ha
      rw [hline, Option.map_some]
    exact (Registry.getElem?_applyLines he hi hu t.lines).trans (by rw [htarget, Option.getD_some])
  · -- Without a line for its key, an entry that would heed one keeps the target it has.
    by_cases hheeds : r.find? e.key = some i ∧ e.state = .unresolved
    · obtain ⟨hi, hu⟩ := hheeds
      have hnone : Table.lastLine? e.key t.lines = none := by
        have hfirst := (Registry.find?_eq_some_iff.mp hi).2
        have hlookup : (t.lookup? e.key).isSome ≠ true := fun hs ↦ hn ⟨hfirst, hu, hs⟩
        rwa [Table.lookup?_eq, Option.isSome_map, ne_eq, Option.not_isSome_iff_eq_none] at hlookup
      exact (Registry.getElem?_applyLines he hi hu t.lines).trans (by rw [hnone]; rfl)
    · exact Registry.getElem?_applyLines_of_not he hheeds t.lines
  · rw [hresult, InitReport.ofEvents, r.length_configuredKeys, r.unknownKeys_applyLines]

/-- Of two entries with one key, the first one gets the target on the last line for the key. -/
theorem applyTable_lookup_shadowed :
    let h : Host Unit Nat := .fresh ["sum", "sum"] () .truncate
    let t : Table :=
      { lines :=
          [⟨1, "sum", "liba", "f"⟩, ⟨2, "mean", "liba", "g"⟩, ⟨4, "sum", "libb", "h"⟩]
        skipped := [⟨3, .wordCount 2⟩] }
    (h.applyTable t).host.entryAt 0 = some { key := "sum", target := ⟨"libb", "h"⟩ } ∧
      (h.applyTable t).host.entryAt 1 = some { key := "sum" } ∧
      (h.applyTable t).result = .configured 1 1 1 := by
  intro h t
  obtain ⟨hentries, -, -, hresult⟩ := applyTable_lookup h t
  refine ⟨(hentries 0 { key := "sum" } rfl).1 (by decide) ⟨"sum", "libb", "h"⟩ (by decide),
    (hentries 1 { key := "sum" } rfl).2 (by decide), hresult.trans (by decide)⟩

end Interpose
