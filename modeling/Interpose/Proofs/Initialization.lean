import Interpose.Proofs.Impacts
import Interpose.Proofs.Ledger

/-!
# Initializing is all or nothing

A host is initialized from a table in a file. Three things can stand in the way: two of its entries
carry one key, no file is named, or the file cannot be read. Then nothing happens at all, and
otherwise the table is applied as a whole (`Host.init_cases`, `init_all_or_nothing`). Which key is
at fault is decided by the order of the entries: it is that of the first entry whose key was there
before (`Registry.FirstRepetition`).

Initializing neither asks the loader nor settles an entry, whatever the table says: all that it can
change about an entry is its target (`Registry.exists_target_applyLines`).
-/

namespace Interpose

variable {σ φ : Type}

namespace Registry

/-! ### Repeated keys -/

/-- A key is that of the first entry whose key is carried by an entry before it. -/
def FirstRepetition (r : Registry φ) (key : String) : Prop :=
  ∃ before after, r.keys = before ++ key :: after ∧ before.Nodup ∧ key ∈ before

/-- The first key that is repeated ends the longest part of the keys that holds no repetition. -/
theorem firstRepeated?_eq_some_iff {keys seen : List String} {key : String} :
    firstRepeated? seen keys = some key ↔
      ∃ before after, keys = before ++ key :: after ∧ before.Nodup ∧ (∀ k ∈ before, k ∉ seen) ∧
        (key ∈ seen ∨ key ∈ before) := by
  induction keys generalizing seen with
  | nil => simp [firstRepeated?]
  | cons first keys ih =>
    rw [firstRepeated?]
    by_cases hseen : first ∈ seen
    · rw [if_pos hseen]
      constructor
      · rintro ⟨⟩
        exact ⟨[], keys, rfl, List.nodup_nil, by simp, .inl hseen⟩
      · rintro ⟨_ | ⟨k, before⟩, after, hkeys, -, hnew, -⟩
        · exact congrArg some (List.cons.inj hkeys).1
        · obtain ⟨rfl, -⟩ := List.cons.inj hkeys
          exact absurd hseen (hnew first List.mem_cons_self)
    · rw [if_neg hseen, ih]
      constructor
      · rintro ⟨before, after, rfl, hnodup, hnew, hkey⟩
        have hfirst : first ∉ before := fun h ↦ hnew first h List.mem_cons_self
        refine ⟨first :: before, after, rfl, List.nodup_cons.mpr ⟨hfirst, hnodup⟩,
          List.forall_mem_cons.mpr ⟨hseen, fun k hk h ↦ hnew k hk (List.mem_cons_of_mem _ h)⟩, ?_⟩
        simpa [or_assoc, or_left_comm] using hkey
      · rintro ⟨_ | ⟨k, before⟩, after, hkeys, hnodup, hnew, hkey⟩
        · obtain ⟨rfl, -⟩ := List.cons.inj hkeys
          exact absurd (hkey.resolve_right List.not_mem_nil) hseen
        · obtain ⟨rfl, rfl⟩ := List.cons.inj hkeys
          obtain ⟨hfirst, hnodup⟩ := List.nodup_cons.mp hnodup
          refine ⟨before, after, rfl, hnodup, fun k hk h ↦ ?_, ?_⟩
          · obtain rfl | h := List.mem_cons.mp h
            · exact hfirst hk
            · exact hnew k (List.mem_cons_of_mem _ hk) h
          · simpa [or_assoc, or_left_comm] using hkey

theorem validate_eq_ok_iff {r : Registry φ} : r.validate = .ok () ↔ r.keys.Nodup := by
  have hnone : firstRepeated? [] r.keys = none ↔ r.keys.Nodup := by
    simp [firstRepeated?_eq_none_iff]
  rw [← hnone, validate]
  cases firstRepeated? [] r.keys <;> simp

theorem validate_eq_error_iff {r : Registry φ} {key : String} :
    r.validate = .error (.duplicateKey key) ↔ r.FirstRepetition key := by
  have hsome : firstRepeated? [] r.keys = some key ↔ r.FirstRepetition key := by
    simp [firstRepeated?_eq_some_iff, FirstRepetition]
  rw [← hsome, validate]
  cases firstRepeated? [] r.keys <;> simp

theorem exists_firstRepetition_iff {r : Registry φ} :
    (∃ key, r.FirstRepetition key) ↔ ¬r.keys.Nodup := by
  simp only [← validate_eq_error_iff, ← validate_eq_ok_iff]
  cases r.validate with
  | error e =>
    obtain ⟨key⟩ := e
    simp
  | ok => simp

/-- Keys that are not distinct are carried by two entries. -/
theorem not_nodup_keys_iff {r : Registry φ} :
    ¬r.keys.Nodup ↔ ∃ (i j : ℕ) (d e : Entry φ), i < j ∧ r.entries[i]? = some d ∧
      r.entries[j]? = some e ∧ d.key = e.key := by
  rw [List.nodup_iff_getElem?_ne_getElem?]
  simp only [keys, List.length_map, List.getElem?_map, not_forall, not_not]
  constructor
  · rintro ⟨i, j, hij, hj, hsame⟩
    rw [List.getElem?_eq_getElem hj, List.getElem?_eq_getElem (Nat.lt_trans hij hj)] at hsame
    exact ⟨i, j, _, _, hij, List.getElem?_eq_getElem _, List.getElem?_eq_getElem hj,
      Option.some.inj hsame⟩
  · rintro ⟨i, j, d, e, hij, hd, he, hkey⟩
    refine ⟨i, j, hij, (List.getElem?_eq_some_iff.mp he).1, ?_⟩
    rw [hd, he, Option.map_some, Option.map_some, hkey]

/-! ### What lines leave alone -/

/-- Lines change nothing about an entry but its target. -/
theorem exists_target_applyLines {r : Registry φ} {i : Nat} {e : Entry φ}
    (he : r.entries[i]? = some e) (lines : List Table.Line) :
    ∃ target, (r.applyLines lines).1.entries[i]? = some { e with target } := by
  by_cases hmet : r.find? e.key = some i ∧ e.state = .unresolved
  · exact ⟨_, getElem?_applyLines he hmet.1 hmet.2 lines⟩
  · exact ⟨e.target, getElem?_applyLines_of_not he hmet lines⟩

end Registry

/-! ### Initializing -/

/-- A file was named and could be read. -/
def Readable (file : Option TableFile) : Prop := ∃ path bytes, file = some ⟨path, .ok bytes⟩

namespace Host

/-- **What initializing comes to**: it is refused for the first repeated key, or there is no table
to apply, or the table in the file is applied. -/
theorem init_cases (h : Host σ φ) (file : Option TableFile) :
    (∃ key, h.registry.FirstRepetition key ∧
        h.init file = { result := .error (.duplicateKey key), host := h }) ∨
      h.registry.keys.Nodup ∧
        (¬Readable file ∧ h.init file = { result := .ok .configMissing, host := h } ∨
          ∃ path bytes, file = some ⟨path, .ok bytes⟩ ∧
            h.init file = (h.applyTable (.ofBytes h.policy bytes)).map .ok) := by
  cases hvalid : h.registry.validate with
  | error e =>
    obtain ⟨key⟩ := e
    exact .inl ⟨key, Registry.validate_eq_error_iff.mp hvalid, by simp only [init, hvalid]⟩
  | ok =>
    refine .inr ⟨Registry.validate_eq_ok_iff.mp hvalid, ?_⟩
    rcases file with - | ⟨path, cause | bytes⟩
    · exact .inl ⟨by simp [Readable], by simp only [init, hvalid]⟩
    · refine .inl ⟨by simp [Readable], ?_⟩
      simp only [init, hvalid]
      rfl
    · exact .inr ⟨path, bytes, rfl, h.init_of_validate hvalid path bytes⟩

theorem result_init_eq_error_iff {h : Host σ φ} {file : Option TableFile} {key : String} :
    (h.init file).result = .error (.duplicateKey key) ↔ h.registry.FirstRepetition key := by
  constructor
  · intro hr
    obtain ⟨first, hfirst, hinit⟩ | ⟨-, ⟨-, hinit⟩ | ⟨path, bytes, -, hinit⟩⟩ := h.init_cases file
    · rw [hinit] at hr
      cases hr
      exact hfirst
    · rw [hinit] at hr
      cases hr
    · rw [hinit] at hr
      cases hr
  · intro hfirst
    have hvalid : h.registry.validate = _ := Registry.validate_eq_error_iff.mpr hfirst
    simp only [init, hvalid]

/-- The configuration is missing just if the registry is valid and no file can be read. -/
theorem result_init_eq_configMissing_iff {h : Host σ φ} {file : Option TableFile} :
    (h.init file).result = .ok .configMissing ↔ h.registry.keys.Nodup ∧ ¬Readable file := by
  obtain ⟨key, hfirst, hinit⟩ | ⟨hkeys, ⟨hfile, hinit⟩ | ⟨path, bytes, hfile, hinit⟩⟩ :=
    h.init_cases file
  · have hkeys : ¬h.registry.keys.Nodup := Registry.exists_firstRepetition_iff.mp ⟨key, hfirst⟩
    simp [hinit, hkeys]
  · simp [hinit, hkeys, hfile]
  · -- Applying a table is always reported with its counts.
    have happlied : (h.init file).result ≠ .ok .configMissing := by
      rw [hinit]
      exact nofun
    exact iff_of_false happlied fun hmissing ↦ hmissing.2 ⟨path, bytes, hfile⟩

/-- Unless a table is applied, nothing happens. -/
theorem init_idle {h : Host σ φ} {file : Option TableFile}
    (hnot : ¬(h.registry.keys.Nodup ∧ Readable file)) :
    (h.init file).host = h ∧ (h.init file).events = [] := by
  obtain ⟨key, -, hinit⟩ | ⟨hkeys, ⟨-, hinit⟩ | ⟨path, bytes, hfile, -⟩⟩ := h.init_cases file
  · rw [hinit]
    exact ⟨rfl, rfl⟩
  · rw [hinit]
    exact ⟨rfl, rfl⟩
  · exact absurd ⟨hkeys, path, bytes, hfile⟩ hnot

theorem init_of_readable {h : Host σ φ} (hkeys : h.registry.keys.Nodup) (path : String)
    (bytes : List UInt8) :
    h.init (some ⟨path, .ok bytes⟩) = (h.applyTable (.ofBytes h.policy bytes)).map .ok :=
  h.init_of_validate (Registry.validate_eq_ok_iff.mpr hkeys) path bytes

/-- A table that cannot be loaded has no effect. -/
theorem loadConfig_of_error {h : Host σ φ} {file : TableFile} {e : ConfigError}
    (he : (h.loadConfig file).result = .error e) :
    h.loadConfig file = { result := .error e, host := h } := by
  unfold loadConfig at he ⊢
  cases hload : Table.load h.policy file with
  | ok t =>
    rw [hload] at he
    cases he
  | error e' =>
    rw [hload] at he
    rw [Except.error.inj he]

end Host

/-- **Initializing is all or nothing**, for any host, whatever state its entries are in, and any
file or none.

* It is refused exactly if two entries carry one key. The key that is told is the first that is
  repeated: those before it are distinct, and it is among them.
* Without such entries the configuration is missing exactly if no file is named or it cannot be
  read. Unless the table is applied, the host stays as it is and nothing is told, and so it is where
  loading the table by itself fails.
* Otherwise the answer, the host and the events are those of applying the table in the file.
* In no case is the loader used: it is neither changed nor looked at, so that any other in its place
  makes no difference. No entry is added or taken away, and none of them changes but for its target.
  In particular, its state stays as it is. -/
theorem init_all_or_nothing (h : Host σ φ) (file : Option TableFile) :
    let step := h.init file
    ((∃ key, step.result = .error (.duplicateKey key)) ↔
        ∃ (i j : ℕ) (d e : Entry φ), i < j ∧ h.entryAt i = some d ∧ h.entryAt j = some e ∧
          d.key = e.key) ∧
      (∀ key, step.result = .error (.duplicateKey key) ↔ h.registry.FirstRepetition key) ∧
      (step.result = .ok .configMissing ↔ h.registry.keys.Nodup ∧ ¬Readable file) ∧
      (¬(h.registry.keys.Nodup ∧ Readable file) → step.host = h ∧ step.events = []) ∧
      (∀ f e, (h.loadConfig f).result = .error e →
        (h.loadConfig f).host = h ∧ (h.loadConfig f).events = []) ∧
      (∀ path bytes, h.registry.keys.Nodup → file = some ⟨path, .ok bytes⟩ →
        step = (h.applyTable (.parse h.policy (Text.Utf8.decodeLossy bytes))).map .ok) ∧
      step.host.loader = h.loader ∧
      (∀ (τ : Type) (f : σ → τ), (h.mapLoader f).init file = step.mapLoader f) ∧
      step.host.registry.entries.length = h.registry.entries.length ∧
      ∀ i e, h.entryAt i = some e → ∃ target, step.host.entryAt i = some { e with target } := by
  intro step
  obtain ⟨hhost, -⟩ : step.Applied h (h.linesOf (.init file)) := h.applied_init file
  refine ⟨?_, fun key ↦ Host.result_init_eq_error_iff, Host.result_init_eq_configMissing_iff,
    Host.init_idle, fun f e he ↦ ?_, ?_, ?_, fun τ f ↦ h.init_mapLoader f file, ?_,
    fun i e he ↦ ?_⟩
  · simp only [step, Host.result_init_eq_error_iff]
    exact Registry.exists_firstRepetition_iff.trans Registry.not_nodup_keys_iff
  · rw [Host.loadConfig_of_error he]
    exact ⟨rfl, rfl⟩
  · rintro path bytes hkeys rfl
    exact Host.init_of_readable hkeys path bytes
  · rw [hhost]
  · rw [hhost]
    exact Registry.length_applyLines _ _
  · rw [hhost]
    exact Registry.exists_target_applyLines he _

/-- Of two keys that are carried twice, the one is told whose repetition comes first. Without the
repetitions, the same file is applied as a whole. -/
theorem init_all_or_nothing_two_repetitions :
    let twice : Host Unit Nat := .fresh ["mean", "sum", "sum", "mean"] () .truncate
    let once : Host Unit Nat := .fresh ["mean", "sum"] () .truncate
    let bytes := "sum liba f\nmax libb g".toUTF8.toList
    let t := Table.parse .truncate (Text.Utf8.decodeLossy bytes)
    (twice.init (some ⟨"t", .ok bytes⟩)).result = .error (.duplicateKey "sum") ∧
      (twice.init (some ⟨"t", .ok bytes⟩)).host = twice ∧
      once.init (some ⟨"t", .ok bytes⟩) = (once.applyTable t).map .ok ∧
      (once.loadConfig ⟨"t", .error .notFound⟩).host = once := by
  intro twice once bytes t
  obtain ⟨-, hrefused, -, hidle, -⟩ := init_all_or_nothing twice (some ⟨"t", .ok bytes⟩)
  obtain ⟨-, -, -, -, hload, happlied, -⟩ := init_all_or_nothing once (some ⟨"t", .ok bytes⟩)
  have hdistinct : once.registry.keys.Nodup := by decide
  have hrepeated : ¬twice.registry.keys.Nodup := by decide
  exact ⟨(hrefused "sum").mpr ⟨["mean", "sum"], ["mean"], rfl, by decide, by decide⟩,
    (hidle fun hnot ↦ hrepeated hnot.1).1, happlied "t" bytes hdistinct rfl,
    (hload ⟨"t", .error .notFound⟩ ⟨"t", .notFound⟩ rfl).1⟩

end Interpose
