import Interpose.Lint
import Interpose.Loader.Platform
import Interpose.Proofs.Application
import Interpose.Proofs.Ledger
import Interpose.Proofs.Lifecycle
import Interpose.Proofs.ParsedLines

/-!
# What linting predicts

A lint looks at a table and at the keys of a host, and loads nothing. A host that is loaded from the
same table bears it out (`lint_predicts`): the unknown keys and the skipped lines are those of the
lint, an entry is configured by the one line for its key that is not superseded, and the file that
is opened for the entry is the one that the lint names for that line.

Both sides come down to the last line for a key. A line is superseded when its number is not that of
the last line for its key, and since no two lines share a number, the lines for a key that are left
are the last one, if there is one (`Lint.live_ofTable`). An entry of a fresh registry ends up with
the target on that same line (`Registry.entries_applyLines_ofKeys`).

Which files are opened is seen by a loader that keeps a list of them (`Watched`).
-/

namespace Interpose

variable {σ φ : Type}

/-! ### Watched loaders -/

/-- A loader with the names of the files that it was asked to open, in order. -/
structure Watched (σ : Type) where
  base : σ
  asked : List String := []

namespace Watched

variable [Loader σ φ]

/-- The watched loader after an attempt to open a file. -/
def openModule (file : String) (w : Watched σ) : Except BindError Handle × Watched σ :=
  let (given, base) := Loader.openModule file w.base
  (given, { base, asked := w.asked ++ [file] })

/-- The watched loader after an attempt to find a symbol. -/
def resolve (handle : Handle) (symbol : String) (w : Watched σ) : Except BindError φ × Watched σ :=
  let (found, base) := Loader.resolve handle symbol w.base
  (found, { w with base })

/-- The watched loader after a module was closed. -/
def close (handle : Handle) (w : Watched σ) : Watched σ :=
  { w with base := Loader.close handle w.base }

instance : Loader (Watched σ) φ where
  openModule := openModule
  resolve := resolve
  close := close

/-- A watched loader answers like the loader under it. -/
theorem loaderMap_base : LoaderMap (φ := φ) (Watched.base : Watched σ → σ) where
  openModule _ _ := rfl
  resolve _ _ _ := rfl
  close _ _ := rfl

/-- **Watching changes nothing**: neither an answer nor what becomes of the host. -/
theorem run_base (h : Host (Watched σ) φ) (ops : List Operation) :
    (h.mapLoader base).run ops = (h.run ops).mapLoader base :=
  Host.run_mapLoader loaderMap_base h ops

end Watched

/-! ### What a target asks for -/

namespace Target

/-- The file that a target asks for, if it is configured and the file's name is possible. -/
def file? (t : Target) : Option String :=
  if t.isConfigured then (moduleFileName t.library).toOption else none

variable [Loader σ φ]

/-- Without a file to ask for, the names decide. -/
theorem bind_of_file?_eq_none {t : Target} (h : t.file? = none) (loader : σ) :
    t.bind loader = (.error (if t.isConfigured then .nameTooLong else .noConfig), loader) := by
  rw [file?] at h
  rw [bind]
  cases ht : t.isConfigured with
  | false => rfl
  | true =>
    rw [ht, if_pos rfl] at h
    cases hf : moduleFileName t.library with
    | error reason =>
      obtain ⟨-, rfl⟩ := composeFileName_eq_error_iff.mp hf
      rfl
    | ok file => simp [hf, Except.toOption] at h

/-- With a file to ask for, the loader decides. -/
theorem bind_of_file?_eq_some {t : Target} {file : String} (h : t.file? = some file) (loader : σ) :
    t.bind loader =
      match Loader.openModule file loader with
      | (.error reason, opened) => (.error reason, opened)
      | (.ok handle, opened) =>
        match Loader.resolve handle t.symbol opened with
        | (.error reason, asked) => (.error reason, Loader.close handle asked)
        | (.ok function, asked) => (.ok { handle, function, file }, asked) := by
  rw [file?] at h
  cases ht : t.isConfigured with
  | false => simp [ht] at h
  | true =>
    rw [ht, if_pos rfl] at h
    cases hf : moduleFileName t.library with
    | error reason => simp [hf, Except.toOption] at h
    | ok found =>
      obtain rfl : found = file := by simpa [hf, Except.toOption] using h
      rw [bind, ht, hf]
      rfl

/-- An attempt to bind a target opens the file that the target asks for, and no other. -/
theorem asked_bind (t : Target) (w : Watched σ) :
    (t.bind w).2.asked = w.asked ++ t.file?.toList := by
  cases hf : t.file? with
  | none => simp [bind_of_file?_eq_none hf]
  | some file =>
    rw [bind_of_file?_eq_some hf]
    have hopen : Loader.openModule file w =
        ((Loader.openModule file w.base).1,
          (⟨(Loader.openModule file w.base).2, w.asked ++ [file]⟩ : Watched σ)) := rfl
    rw [hopen]
    rcases Loader.openModule file w.base with ⟨reason | handle, base⟩
    · rfl
    · -- Neither the search for the symbol nor the closing adds to the list.
      have hresolve : Loader.resolve handle t.symbol (⟨base, w.asked ++ [file]⟩ : Watched σ) =
          ((Loader.resolve handle t.symbol base).1,
            (⟨(Loader.resolve handle t.symbol base).2, w.asked ++ [file]⟩ : Watched σ)) := rfl
      dsimp only
      rw [hresolve]
      rcases Loader.resolve handle t.symbol base with ⟨reason | function, base'⟩ <;> rfl

end Target

namespace Entry

theorem asked_get [Loader σ φ] {e : Entry φ} (hu : e.state = .unresolved) (w : Watched σ) :
    (e.get w).loader.asked = w.asked ++ e.target.file?.toList := by
  rw [← e.target.asked_bind w]
  rcases hb : e.target.bind w with ⟨reason | b, w'⟩
  · rw [get_of_bind_error hu hb]
  · rw [get_of_bind_ok hu hb]

end Entry

theorem asked_getAll [Loader σ φ] {es : List (Entry φ)} (hu : ∀ e ∈ es, e.state = .unresolved)
    (w : Watched σ) :
    (Registry.getAll es w).loader.asked = w.asked ++ es.flatMap fun e ↦ e.target.file?.toList := by
  induction es generalizing w with
  | nil => simp [Registry.getAll]
  | cons e es ih =>
    rw [List.forall_mem_cons] at hu
    rw [Registry.getAll, ih hu.2, Entry.asked_get hu.1, List.flatMap_cons, List.append_assoc]

/-! ### Loaders whose faults say what went wrong -/

/-- Opening a module fails only for lack of the module, and finding a symbol only for lack of the
symbol. -/
structure Loader.Honest (σ : Type) {φ : Type} [Loader σ φ] : Prop where
  openModule : ∀ {file : String} {loader : σ} {reason : BindError},
    (Loader.openModule file loader).1 = .error reason → reason = .moduleNotFound
  resolve : ∀ {handle : Handle} {symbol : String} {loader : σ} {reason : BindError},
    (Loader.resolve handle symbol loader).1 = .error reason → reason = .symbolNotFound

theorem Catalog.reason_openAt {c : Catalog φ} {i : Nat} {reason : BindError}
    (h : (c.openAt i).1 = .error reason) : reason = .moduleNotFound := by
  rw [openAt] at h
  cases hw : Handle.ofWord? (wordOf (c.opened + 1) i) with
  | none =>
    rw [hw] at h
    exact (Except.error.inj h).symm
  | some handle =>
    rw [hw] at h
    cases h

theorem Catalog.honest : Loader.Honest (Catalog φ) where
  openModule {file c reason} h := by
    have hopen : (c.openModule file).1 = .error reason := h
    rw [Catalog.openModule] at hopen
    cases hm : c.modules.findIdx? (·.file = file) with
    | none =>
      rw [hm] at hopen
      exact (Except.error.inj hopen).symm
    | some i =>
      rw [hm] at hopen
      exact reason_openAt hopen
  resolve {handle symbol c reason} h := by
    have hresolve : (c.resolve handle symbol).1 = .error reason := h
    rw [Catalog.resolve] at hresolve
    cases hf : (c.moduleOf? handle).bind (·.function? symbol) with
    | none =>
      rw [hf] at hresolve
      exact (Except.error.inj hresolve).symm
    | some function =>
      rw [hf] at hresolve
      cases hresolve

theorem Platform.honest : Loader.Honest (Platform φ) where
  openModule {file p reason} h := by
    change p.openModule file = .error reason at h
    rw [Platform.openModule] at h
    split at h
    · exact (Except.error.inj h).symm
    · split at h
      · cases h
      · exact (Except.error.inj h).symm
  resolve {handle symbol p reason} h := by
    change p.resolve handle symbol = .error reason at h
    rw [Platform.resolve] at h
    split at h
    · cases h
    · exact (Except.error.inj h).symm

theorem Watched.honest [Loader σ φ] (h : Loader.Honest σ) : Loader.Honest (Watched σ) where
  openModule hw := h.openModule hw
  resolve hw := h.resolve hw

/-- What an unresolved entry is settled to, as far as its names decide. -/
theorem Entry.state_get [Loader σ φ] (h : Loader.Honest σ) {e : Entry φ}
    (hu : e.state = .unresolved) (loader : σ) :
    ((e.get loader).entry.state = .failed .noConfig ↔ e.target.isConfigured = false) ∧
      ((e.get loader).entry.state = .failed .nameTooLong ↔
        e.target.isConfigured = true ∧ e.target.file? = none) := by
  cases hf : e.target.file? with
  | none =>
    rw [get_of_bind_error hu (e.target.bind_of_file?_eq_none hf loader)]
    cases e.target.isConfigured <;> simp [Entry.fail]
  | some file =>
    have hconfigured : e.target.isConfigured = true := by
      by_contra hn
      simp [Target.file?, hn] at hf
    -- What is left are the faults of the loader, and neither is about names.
    have hstate : (e.get loader).entry.state ≠ .failed .noConfig ∧
        (e.get loader).entry.state ≠ .failed .nameTooLong := by
      have hbind := e.target.bind_of_file?_eq_some hf loader
      rcases ho : Loader.openModule file loader with ⟨reason | handle, opened⟩
      · rw [ho] at hbind
        obtain rfl := h.openModule (congrArg Prod.fst ho)
        rw [get_of_bind_error hu hbind]
        simp [Entry.fail]
      · rw [ho] at hbind
        dsimp only at hbind
        rcases hr : Loader.resolve handle e.target.symbol opened with ⟨reason | function, asked⟩
        · rw [hr] at hbind
          obtain rfl := h.resolve (congrArg Prod.fst hr)
          rw [get_of_bind_error hu hbind]
          simp [Entry.fail]
        · rw [hr] at hbind
          rw [get_of_bind_ok hu hbind]
          simp [Entry.bindTo]
    simp [hstate, hconfigured]

/-! ### Annotations -/

namespace Lint

/-- The lines for a key that are not superseded. -/
def live (key : String) (l : Lint) : List Line :=
  l.lines.filter fun line ↦ line.assignment.key = key && !line.superseded

theorem lastNumber?_eq (key : String) (lines : List Table.Line) :
    lastNumber? key lines = (Table.lastLine? key lines).map (·.number) := rfl

/-- If no two lines share a number, the last line for each key is the only one not superseded. -/
theorem superseded_of (keys : Option (List String)) {lines : List Table.Line}
    (hnumbers : (lines.map (·.number)).Nodup) {line : Table.Line} (hline : line ∈ lines) :
    (Line.of keys lines line).superseded = false ↔
      Table.lastLine? line.assignment.key lines = some line := by
  have hsup : (Line.of keys lines line).superseded = false ↔
      lastNumber? line.assignment.key lines = some line.number := by
    simp [Line.of]
  rw [hsup, lastNumber?_eq]
  constructor
  · intro h
    obtain ⟨last, hlast, hnumber⟩ := Option.map_eq_some_iff.mp h
    have hmem := (Table.mem_of_lastLine?_eq_some hlast).1
    rw [hlast, List.inj_on_of_nodup_map hnumbers hmem hline hnumber]
  · intro h
    rw [h, Option.map_some]

/-- **What is not superseded** is the last line for each key. -/
theorem live_ofTable {t : Table} (hnumbers : (t.lines.map (·.number)).Nodup)
    (keys : Option (List String)) (key : String) :
    (ofTable keys t).live key =
      ((Table.lastLine? key t.lines).map (Line.of keys t.lines)).toList := by
  have hlive : (ofTable keys t).live key =
      (t.lines.filter fun line ↦ Table.lastLine? key t.lines = some line).map
        (Line.of keys t.lines) := by
    rw [live, ofTable, annotate, List.filter_map]
    refine congrArg _ (List.filter_congr fun line hline ↦ ?_)
    have hsup := superseded_of keys hnumbers hline
    rw [Bool.eq_iff_iff]
    simp only [Function.comp_apply, Bool.and_eq_true, decide_eq_true_eq, Bool.not_eq_true']
    rw [hsup]
    constructor
    · rintro ⟨hkey, hlast⟩
      exact hkey ▸ hlast
    · intro hlast
      have hkey := (Table.mem_of_lastLine?_eq_some hlast).2
      exact ⟨hkey, hkey ▸ hlast⟩
  rw [hlive]
  cases hlast : Table.lastLine? key t.lines with
  | none => simp
  | some last =>
    have hmem := (Table.mem_of_lastLine?_eq_some hlast).1
    have hone : (t.lines.filter fun line ↦ some last = some line) = [last] := by
      simp only [Option.some.injEq, eq_comm (a := last)]
      rw [List.filter_eq, List.count_eq_one_of_mem (List.Nodup.of_map _ hnumbers) hmem]
      rfl
    rw [hone]
    rfl

theorem unknownKeys_ofTable (keys : List String) (t : Table) :
    (ofTable (some keys) t).unknownKeys =
      (t.lines.filter fun line ↦ line.assignment.key ∉ keys).map (·.assignment.key) := by
  rw [unknownKeys, ofTable, annotate, List.filter_map, List.map_map]
  simp [Line.of, Function.comp_def]

end Lint

/-! ### Loading the same table -/

/-- The target that a table has for a key, which is not configured if there is no line for it. -/
def Table.targetOf (key : String) (t : Table) : Target :=
  ((lastLine? key t.lines).map (·.assignment.target)).getD {}

/-- The unresolved entry of a key with the target that a table has for it. -/
def Table.entryOf (key : String) (t : Table) : Entry φ := { key, target := t.targetOf key }

/-- What a lint finds for a key in a table. -/
inductive Lint.Finding (l : Lint) (t : Table) (key : String) : Prop
  /-- There is no line for the key. -/
  | unassigned (live : l.live key = []) (last : Table.lastLine? key t.lines = none)
    (target : t.targetOf key = {})
  /-- The last line for the key is the only one that is not superseded, and it is annotated with the
  file that its target asks for. -/
  | assigned (line : Line) (mem : line ∈ l.lines) (live : l.live key = [line])
    (last : (Table.lastLine? key t.lines).isSome) (target : t.targetOf key = line.assignment.target)
    (configured : (t.targetOf key).isConfigured = true) (file : (t.targetOf key).file? = line.file)

theorem Lint.finding_parse (keys : Option (List String)) (policy : NamePolicy) (text : List Char)
    (key : String) :
    (ofTable keys (.parse policy text)).Finding (.parse policy text) key := by
  have hlive := live_ofTable (t := .parse policy text) Table.nodup_numbers_parse keys key
  cases hlast : Table.lastLine? key (Table.parse policy text).lines with
  | none =>
    rw [hlast] at hlive
    exact .unassigned hlive hlast (by rw [Table.targetOf, hlast]; rfl)
  | some last =>
    have hmem := (Table.mem_of_lastLine?_eq_some hlast).1
    have hconfigured := Table.isConfigured_of_mem_parse hmem
    have htarget : (Table.parse policy text).targetOf key = last.assignment.target := by
      rw [Table.targetOf, hlast]
      rfl
    rw [hlast] at hlive
    exact .assigned (Line.of keys _ last) (List.mem_map_of_mem hmem) hlive (by rw [hlast]; rfl)
      htarget (htarget ▸ hconfigured) (htarget ▸ if_pos hconfigured)

namespace Registry

/-- Distinct keys are found where they are. -/
theorem find?_ofKeys {keys : List String} (hkeys : keys.Nodup) {i : Nat} {key : String}
    (hkey : keys[i]? = some key) :
    (ofKeys keys : Registry φ).entries[i]? = some { key } ∧
      (ofKeys keys : Registry φ).find? key = some i := by
  have he : (ofKeys keys : Registry φ).entries[i]? = some { key } := by simp [ofKeys, hkey]
  refine ⟨he, find?_eq_some_iff.mpr ⟨⟨_, he, rfl⟩, ?_⟩⟩
  obtain ⟨hi, rfl⟩ := List.getElem?_eq_some_iff.mp hkey
  rw [keys_ofKeys, List.mem_take_iff_getElem]
  rintro ⟨j, hj, hsame⟩
  have hji := (List.Nodup.getElem_inj_iff hkeys).mp hsame
  omega

/-- **A fresh registry with a table applied**: each entry has the target on the last line for its
key. -/
theorem entries_applyLines_ofKeys {keys : List String} (hkeys : keys.Nodup) (t : Table) :
    ((ofKeys keys : Registry φ).applyLines t.lines).1.entries =
      keys.map fun key ↦ t.entryOf key := by
  refine List.ext_getElem? fun i ↦ ?_
  rw [List.getElem?_map]
  cases hkey : keys[i]? with
  | none =>
    rw [Option.map_none, List.getElem?_eq_none_iff, length_applyLines]
    simpa [ofKeys] using hkey
  | some key =>
    obtain ⟨he, hfirst⟩ := find?_ofKeys (φ := φ) hkeys hkey
    exact getElem?_applyLines he hfirst rfl t.lines

/-- A key is configured from a table if the table has a line for it. -/
theorem mem_configuredKeys_ofKeys {keys : List String} (hkeys : keys.Nodup) {i : Nat} {key : String}
    (hkey : keys[i]? = some key) (t : Table) :
    key ∈ InitReport.configuredKeys ((ofKeys keys : Registry φ).applyLines t.lines).2 ↔
      (Table.lastLine? key t.lines).isSome := by
  rw [mem_configuredKeys_iff]
  constructor
  · rintro ⟨j, e, -, rfl, -, -, hlookup⟩
    rwa [Table.lookup?_eq, Option.isSome_map] at hlookup
  · intro hlast
    obtain ⟨he, hfirst⟩ := find?_ofKeys (φ := φ) hkeys hkey
    refine ⟨i, _, he, rfl, (find?_eq_some_iff.mp hfirst).2, rfl, ?_⟩
    rwa [Table.lookup?_eq, Option.isSome_map]

end Registry

/-! ### Predictions -/

namespace Lint.Finding

variable {l : Lint} {t : Table} {key : String}

/-- The file that a target asks for is that of the line. -/
theorem file?_eq (h : l.Finding t key) :
    (t.targetOf key).file?.toList = (l.live key).filterMap (·.file) := by
  cases h with
  | unassigned live _ target =>
    rw [live, target]
    rfl
  | assigned line _ live _ _ _ file =>
    rw [live, file]
    cases hf : line.file <;> simp [hf]

theorem live_ne_nil_iff (h : l.Finding t key) :
    (l.live key).length ≤ 1 ∧ (l.live key ≠ [] ↔ (Table.lastLine? key t.lines).isSome) ∧
      (l.live key ≠ [] ↔ (t.targetOf key).isConfigured = true) := by
  cases h with
  | unassigned live last target => simp [live, last, target, Target.isConfigured]
  | assigned line _ live last _ configured _ => simp [live, last, configured]

/-- What becomes of the entry of a key. -/
theorem settled [Loader σ φ] (h : l.Finding t key) (hl : Loader.Honest σ) (loader : σ) :
    let e : Entry φ := ((t.entryOf key).get loader).entry
    (∀ line ∈ l.live key, t.targetOf key = line.assignment.target ∧
      e.state ≠ .failed .noConfig ∧ (e.state = .failed .nameTooLong ↔ line.file = none)) ∧
    ((∀ line ∈ l.lines, line.file.isSome) → e.state ≠ .failed .nameTooLong) := by
  intro e
  obtain ⟨hnoConfig, htooLong⟩ := (t.entryOf (φ := φ) key).state_get hl rfl loader
  cases h with
  | unassigned live _ target =>
    have hno : (t.entryOf (φ := φ) key).target.isConfigured ≠ true := by
      simp [Table.entryOf, target, Target.isConfigured]
    exact ⟨by simp [live], fun _ hlong ↦ hno (htooLong.mp hlong).1⟩
  | assigned line mem live _ target configured file =>
    have hlong : e.state = .failed .nameTooLong ↔ line.file = none := by
      rw [← file]
      exact htooLong.trans (and_iff_right configured)
    have hnames : e.state ≠ .failed .noConfig := fun hn ↦
      absurd (hnoConfig.mp hn) (by simpa [Table.entryOf] using configured)
    refine ⟨?_, fun hall hn ↦ ?_⟩
    · rw [live, List.forall_mem_singleton]
      exact ⟨target, hnames, hlong⟩
    · have hsome := hall line mem
      rw [hlong.mp hn] at hsome
      cases hsome

end Lint.Finding

/-- A clean lint has no unknown key, no skipped line, and a file for each line. -/
theorem Lint.of_isClean {l : Lint} (h : l.isClean = true) :
    l.unknownKeys = [] ∧ l.skipped = [] ∧ ∀ line ∈ l.lines, line.file.isSome := by
  obtain ⟨hskipped, hlines⟩ : l.skipped = [] ∧
      ∀ line ∈ l.lines, line.file.isSome = true ∧ line.knownKey ≠ some false := by
    simpa [isClean] using h
  have hknown : l.lines.filter (·.knownKey = some false) = [] :=
    List.filter_eq_nil_iff.mpr fun line hline ↦ by simpa using (hlines line hline).2
  exact ⟨by rw [unknownKeys, hknown, List.map_nil], hskipped,
    fun line hline ↦ (hlines line hline).1⟩

/-- **A lint predicts what a host does** with the same table.

Let a fresh host with distinct keys be loaded from a table and then resolve all its entries. The
unknown keys and the number of skipped lines are those of the lint. For each key there is at most
one line that is not superseded, there is one just if the entry is configured, and then the entry
has its target; the entry is not settled for lack of names, and it is settled for a file name that
is too long just if the line has no file. The files that are opened are the files of those lines, in
the order of the keys. So a clean table leaves no unknown key, no skipped line and no such entry. -/
theorem lint_predicts [Loader σ φ] (hl : Loader.Honest σ) {keys : List String}
    (hkeys : keys.Nodup) (policy : NamePolicy) (path : String) (bytes : List UInt8) (loader : σ) :
    let lint := Lint.ofTable (some keys) (.ofBytes policy bytes)
    let start : Host (Watched σ) φ := .fresh keys { base := loader } policy
    let loaded := start.init (some ⟨path, .ok bytes⟩)
    let settled := loaded.host.resolveAll.host
    loaded.events.filterMap Event.unknownKey? = lint.unknownKeys ∧
      (∃ n, loaded.result = .ok (.configured n lint.unknownKeys.length lint.skipped.length)) ∧
      (∀ i key, keys[i]? = some key →
        (lint.live key).length ≤ 1 ∧
        ∃ e e', loaded.host.entryAt i = some e ∧ settled.entryAt i = some e' ∧
          e.key = key ∧ e'.key = key ∧ e'.target = e.target ∧
          (lint.live key ≠ [] ↔ key ∈ InitReport.configuredKeys loaded.events) ∧
          (lint.live key ≠ [] ↔ e.target.isConfigured = true) ∧
          ∀ line ∈ lint.live key, e.target = line.assignment.target ∧
            e'.state ≠ .failed .noConfig ∧
            (e'.state = .failed .nameTooLong ↔ line.file = none)) ∧
      settled.loader.asked = keys.flatMap (fun key ↦ (lint.live key).filterMap (·.file)) ∧
      (lint.isClean = true →
        (∃ n, loaded.result = .ok (.configured n 0 0)) ∧
          ∀ e ∈ settled.registry.entries, e.state ≠ .failed .nameTooLong) := by
  intro lint start loaded settled
  let t := Table.ofBytes policy bytes
  let r : Registry φ := .ofKeys keys
  have hinit : loaded = (start.applyTable t).map .ok :=
    start.init_of_validate (Registry.validate_ofKeys hkeys) path bytes
  have hevents : loaded.events = (r.applyLines t.lines).2 := by
    rw [hinit]
    rfl
  have hentries : loaded.host.registry.entries = keys.map fun key ↦ t.entryOf key := by
    rw [hinit]
    exact Registry.entries_applyLines_ofKeys hkeys t
  have hunknown : loaded.events.filterMap Event.unknownKey? = lint.unknownKeys := by
    rw [hevents, r.filterMap_unknownKey?_applyLines, Lint.unknownKeys_ofTable, Registry.keys_ofKeys]
  have hreport : ∃ n, loaded.result =
      .ok (.configured n lint.unknownKeys.length lint.skipped.length) := by
    refine ⟨(InitReport.configuredKeys (r.applyLines t.lines).2).eraseDups.length, ?_⟩
    have hcount : lint.unknownKeys.length = InitReport.unknownKeys (r.applyLines t.lines).2 := by
      rw [InitReport.unknownKeys_eq, ← hevents, hunknown]
    rw [hinit, hcount]
    rfl
  have hasked : settled.loader.asked = keys.flatMap fun key ↦ (t.targetOf key).file?.toList := by
    have hall : settled.loader.asked = loaded.host.loader.asked ++ _ :=
      asked_getAll (by simp [hentries, Table.entryOf]) _
    rw [hall, hentries, hinit, List.flatMap_map]
    rfl
  have hfinding (key : String) : lint.Finding t key := Lint.finding_parse (some keys) policy _ key
  have hentry (i : Nat) (key : String) (hkey : keys[i]? = some key) :
      ∃ w : Watched σ, loaded.host.entryAt i = some (t.entryOf key) ∧
        settled.entryAt i = some ((t.entryOf key).get w).entry := by
    have he : loaded.host.entryAt i = some (t.entryOf key) := by
      rw [Host.entryAt, hentries, List.getElem?_map, hkey, Option.map_some]
    obtain ⟨w, -, hw⟩ :=
      exists_getElem?_getAll (P := fun _ : Watched σ ↦ True) (fun _ _ _ ↦ trivial) trivial he
    exact ⟨w, he, hw⟩
  refine ⟨hunknown, hreport, fun i key hkey ↦ ?_, hasked.trans ?_, fun hclean ↦ ?_⟩
  · obtain ⟨w, he, he'⟩ := hentry i key hkey
    obtain ⟨hone, hlast, hconfigured⟩ := (hfinding key).live_ne_nil_iff
    rw [hevents, Registry.mem_configuredKeys_ofKeys (φ := φ) hkeys hkey t]
    exact ⟨hone, _, _, he, he', rfl, (Entry.key_get _ w).1, (Entry.key_get _ w).2, hlast,
      hconfigured, ((hfinding key).settled (Watched.honest hl) w).1⟩
  · exact congrArg keys.flatMap (funext fun key ↦ (hfinding key).file?_eq)
  · obtain ⟨hknown, hskipped, hfiles⟩ := Lint.of_isClean hclean
    obtain ⟨n, hn⟩ := hreport
    refine ⟨⟨n, by rw [hn, hknown, hskipped]; rfl⟩, fun e he ↦ ?_⟩
    obtain ⟨i, hi, rfl⟩ := List.mem_iff_getElem.mp he
    have hlength : settled.registry.entries.length = keys.length := by
      have hsame : settled.registry.entries.length = loaded.host.registry.entries.length :=
        loaded.host.moves_resolveAll.length_eq
      rw [hsame, hentries, List.length_map]
    obtain ⟨w, -, hw⟩ := hentry i keys[i] (List.getElem?_eq_getElem (hlength ▸ hi))
    have hsettled : settled.registry.entries[i] = ((t.entryOf keys[i]).get w).entry :=
      Option.some.inj ((List.getElem?_eq_getElem hi).symm.trans hw)
    rw [hsettled]
    exact ((hfinding _).settled (Watched.honest hl) w).2 hfiles

/-- A table with a line that is superseded, one for an unknown key, and one that is skipped. -/
theorem lint_predicts_superseded :
    let bytes := "sum a f\nsum libsum sum\nmean a g\nsum\n".toUTF8.toList
    let start : Host (Watched (Catalog Nat)) Nat := .fresh ["sum"] { base := .single } .truncate
    let loaded := start.init (some ⟨"table", .ok bytes⟩)
    Loader.Honest (Catalog Nat) ∧ ["sum"].Nodup ∧
      loaded.events.filterMap Event.unknownKey? = ["mean"] ∧
      (∃ n, loaded.result = .ok (.configured n 1 1)) ∧
      loaded.host.resolveAll.host.loader.asked = ["libsum.so"] := by
  intro bytes start loaded
  have hkeys : ["sum"].Nodup := by decide
  have hlint : Lint.ofTable (some ["sum"]) (.ofBytes .truncate bytes) =
      { lines :=
          [⟨1, ⟨"sum", "a", "f"⟩, some "a.so", some true, true⟩,
            ⟨2, ⟨"sum", "libsum", "sum"⟩, some "libsum.so", some true, false⟩,
            ⟨3, ⟨"mean", "a", "g"⟩, some "a.so", some false, false⟩]
        skipped := [⟨4, .wordCount 1⟩] } := by
    decide +kernel
  obtain ⟨hunknown, hreport, -, hasked, -⟩ :=
    lint_predicts Catalog.honest hkeys .truncate "table" bytes Catalog.single
  rw [hlint] at hunknown hreport hasked
  exact ⟨Catalog.honest, hkeys, hunknown, hreport, hasked⟩

end Interpose
