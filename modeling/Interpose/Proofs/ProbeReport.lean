import Interpose.Probe
import Interpose.Proofs.Classification
import Interpose.Proofs.Prediction
import Interpose.Proofs.Reporting

/-!
# The report of a probe

What a probe returns is put together from several moments of its run: what the application of the
table told, the entries as they were once all of them were settled, and the number of modules that
were closed after that. `probe_report_consistent` states that these agree with each other and with
the table, and that the probe leaves nothing open.

All of it is read off one list of entries, `Table.settle`: those of the keys, with the targets that
the table has for them, after each was asked for its function (`Host.probe_of_nodup`). They start
out unresolved and empty, so they end up terminal and well bound, and then the handles to close are
those of the bound entries, and an entry is failed just if it is not bound. Over a catalog, what
settling opened and did not close again are the same handles (`Table.live_settle`).
-/

namespace Interpose

variable {σ φ : Type}

/-! ### Entries that are well bound -/

/-- The status is one in the bound state only. -/
theorem State.status_eq_one_iff {s : State} : s.status = 1 ↔ s = .bound := by
  cases s with
  | failed reason => cases reason <;> decide
  | _ => decide

namespace Entry.WellBound

variable {e : Entry φ}

theorem isBound_iff (h : e.WellBound) : e.isBound = true ↔ e.state = .bound := by
  constructor
  · intro hheld
    by_contra hb
    simp [isBound, (h.empty hb).1] at hheld
  · exact fun hb ↦ (h.full hb).1

theorem isSome_function_iff (h : e.WellBound) : e.function.isSome = true ↔ e.state = .bound := by
  constructor
  · intro hheld
    by_contra hb
    simp [(h.empty hb).2] at hheld
  · exact fun hb ↦ (h.full hb).2

/-- The snapshot of a settled entry shows a module and a function in the bound state. -/
theorem holds_iff (h : e.WellBound) (ht : e.state.isTerminal = true) :
    ((Snapshot.ofEntry e).holdsFunction = true ↔ e.state = .bound) ∧
      ((Snapshot.ofEntry e).holdsModule = true ↔ e.state = .bound) := by
  have hfunction : (Snapshot.ofEntry e).holdsFunction = e.function.isSome := by
    simp [Snapshot.ofEntry, settled?, ht]
  rw [hfunction]
  exact ⟨h.isSome_function_iff, h.isBound_iff⟩

end Entry.WellBound

/-- The handles that well bound entries hold are as many as the bound entries. -/
theorem length_handlesOf_of_wellBound {es : List (Entry φ)} (h : ∀ e ∈ es, e.WellBound) :
    (handlesOf es).length = inState .bound es := by
  rw [length_handlesOf, inState]
  refine List.countP_congr fun e he ↦ ?_
  rw [(h e he).isBound_iff, decide_eq_true_eq]

/-- If all entries are settled, one of them is failed just if not all are bound. -/
theorem Report.anyFailed_iff {r : Registry φ} (ht : ∀ e ∈ r.entries, e.state.isTerminal = true) :
    (Report.ofRegistry r).anyFailed = true ↔ inState .bound r.entries < r.entries.length := by
  have hall : (Report.ofRegistry r).anyFailed = false ↔
      inState .bound r.entries = r.entries.length := by
    rw [Report.anyFailed_eq_false_iff ht, inState, List.countP_eq_length]
    simp only [decide_eq_true_eq]
  have hle : inState .bound r.entries ≤ r.entries.length := List.countP_le_length
  rw [← Bool.not_eq_false, hall]
  omega

/-! ### Reading the table -/

namespace Table

/-- The table in a file, which is empty if the file cannot be read. -/
def loadOrEmpty (policy : NamePolicy) (file : TableFile) : Table :=
  (load policy file).toOption.getD {}

theorem loadOrEmpty_of_ok {policy : NamePolicy} {file : TableFile} {t : Table}
    (h : load policy file = .ok t) : loadOrEmpty policy file = t := by
  rw [loadOrEmpty, h]
  rfl

theorem loadOrEmpty_of_error {policy : NamePolicy} {file : TableFile} {e : ConfigError}
    (h : load policy file = .error e) : loadOrEmpty policy file = {} := by
  rw [loadOrEmpty, h]
  rfl

theorem targetOf_eq (t : Table) (key : String) :
    t.targetOf key = ((t.lookup? key).map (·.target)).getD {} := by
  rw [targetOf, lookup?_eq, Option.map_map]
  rfl

end Table

/-- On fresh entries with distinct keys, the keys that a table configures are those it has a line
for. -/
theorem Registry.length_configuredKeys_ofKeys {keys : List String} (hkeys : keys.Nodup)
    (t : Table) :
    (InitReport.configuredKeys ((ofKeys keys : Registry φ).applyLines t.lines).2).eraseDups.length =
      keys.countP fun key ↦ (t.lookup? key).isSome := by
  have hmem (key : String) :
      key ∈ InitReport.configuredKeys ((ofKeys keys : Registry φ).applyLines t.lines).2 ↔
        key ∈ keys ∧ (t.lookup? key).isSome := by
    constructor
    · intro hconfigured
      obtain ⟨i, e, he, rfl, -, -, hlookup⟩ := mem_configuredKeys_iff.mp hconfigured
      have hkey : e.key ∈ (ofKeys keys : Registry φ).keys :=
        List.mem_map_of_mem (List.mem_of_getElem? he)
      exact ⟨keys_ofKeys (φ := φ) keys ▸ hkey, hlookup⟩
    · rintro ⟨hkey, hlookup⟩
      obtain ⟨i, hi⟩ := List.mem_iff_getElem?.mp hkey
      rwa [mem_configuredKeys_ofKeys hkeys hi, ← Option.isSome_map, ← Table.lookup?_eq]
  have hperm := (List.perm_ext_iff_of_nodup (nodup_eraseDups _)
    (hkeys.filter fun key ↦ (t.lookup? key).isSome)).mpr fun key ↦ by
      rw [List.mem_eraseDups, hmem, List.mem_filter]
  rw [hperm.length_eq, List.countP_eq_length_filter]

/-- What configuring fresh entries with distinct keys comes to, by the outcome of reading the
table. -/
def InitReport.ofLoad (keys : List String) : Except ConfigError Table → InitReport
  | .ok t =>
    .configured (keys.countP fun key ↦ (t.lookup? key).isSome)
      (t.lines.countP fun line ↦ line.assignment.key ∉ keys) t.skipped.length
  | .error _ => .configMissing

/-- **Configuring fresh entries** with distinct keys from a file gives each the target that the
table has for its key. -/
theorem Host.init_ofKeys {h : Host σ φ} {keys : List String} (hkeys : keys.Nodup)
    (hfresh : h.registry = .ofKeys keys) (file : TableFile) :
    let t := Table.loadOrEmpty h.policy file
    ∃ events,
      h.init (some file) =
        { result := .ok (.ofLoad keys (Table.load h.policy file))
          host := { h with registry := ⟨keys.map fun key ↦ t.entryOf key⟩ }
          events } := by
  intro t
  obtain ⟨registry, loader, policy, phase⟩ := h
  obtain rfl : registry = .ofKeys keys := hfresh
  have hvalid : (Registry.ofKeys keys : Registry φ).validate = .ok () :=
    Registry.validate_ofKeys hkeys
  cases hload : Table.load policy file with
  | error e =>
    -- The entries stay as they are, which is what an empty table leads to.
    have ht : t = {} := Table.loadOrEmpty_of_error hload
    refine ⟨[], ?_⟩
    simp only [init, hvalid, loadConfig, hload, ht]
    rfl
  | ok table =>
    have ht : t = table := Table.loadOrEmpty_of_ok hload
    let applied := (Registry.ofKeys keys : Registry φ).applyLines table.lines
    have hreport : InitReport.ofEvents table applied.2 = .ofLoad keys (.ok table) := by
      rw [InitReport.ofEvents, Registry.length_configuredKeys_ofKeys hkeys,
        Registry.unknownKeys_applyLines, Registry.keys_ofKeys]
      rfl
    refine ⟨applied.2, ?_⟩
    simp only [init, hvalid, loadConfig, hload, ht]
    rw [← Registry.entries_applyLines_ofKeys hkeys table, ← hreport]
    rfl

/-! ### Settling all keys -/

namespace Table

variable [Loader σ φ] (t : Table) (keys : List String) (loader : σ)

/-- The entries of some keys, each with the target that a table has for its key, after all of them
were asked for their functions in order. -/
def settle : Registry.Resolved σ φ :=
  Registry.getAll (keys.map fun key ↦ t.entryOf key) loader

/-- Settling keeps the order of the keys, and the targets. -/
theorem targets_settle :
    (t.settle keys loader).registry.entries.map (fun e ↦ (e.key, e.target)) =
      keys.map fun key ↦ (key, t.targetOf key) := by
  induction keys generalizing loader with
  | nil => rfl
  | cons key keys ih =>
    obtain ⟨hkey, htarget⟩ := (t.entryOf key : Entry φ).key_get loader
    rw [settle, List.map_cons, Registry.getAll, List.map_cons, List.map_cons, hkey, htarget]
    exact congrArg _ (ih _)

theorem keys_settle : (t.settle keys loader).registry.entries.map (·.key) = keys := by
  have hkeys := congrArg (List.map Prod.fst) (t.targets_settle keys loader)
  rw [List.map_map, List.map_map] at hkeys
  exact hkeys.trans (List.map_id' keys)

theorem length_settle : (t.settle keys loader).registry.entries.length = keys.length := by
  simpa using congrArg List.length (t.keys_settle keys loader)

variable {t keys loader} {e : Entry φ}

theorem target_of_mem_settle (he : e ∈ (t.settle keys loader).registry.entries) :
    e.target = t.targetOf e.key := by
  have hmem : (e.key, e.target) ∈ keys.map fun key ↦ (key, t.targetOf key) := by
    rw [← t.targets_settle keys loader]
    exact List.mem_map_of_mem he
  obtain ⟨key, -, hkey⟩ := List.mem_map.mp hmem
  obtain ⟨rfl, htarget⟩ := Prod.mk.inj hkey
  exact htarget.symm

/-- The entries start unresolved and empty, so that settling leaves them terminal and well bound. -/
theorem settled_of_mem_settle (he : e ∈ (t.settle keys loader).registry.entries) :
    e.state.isTerminal = true ∧ e.WellBound := by
  refine Registry.forall_mem_getAll (P := fun e ↦ e.state.isTerminal = true ∧ e.WellBound)
    (fun d hd loader ↦ ⟨d.isTerminal_get loader, ?_⟩) loader e he
  obtain ⟨key, -, rfl⟩ := List.mem_map.mp hd
  exact Entry.Empty.wellBound_get ⟨rfl, rfl⟩ rfl loader

end Table

/-! ### Probing -/

namespace Host

variable [Loader σ φ] (h : Host σ φ)

theorem probe_nil (file : TableFile) : h.probe [] file = { result := .error .noKeys, host := h } :=
  rfl

theorem probe_of_not_nodup {keys : List String} (hkeys : ¬keys.Nodup) (file : TableFile) :
    ∃ key, h.probe keys file = { result := .error (.registry (.duplicateKey key)), host := h } := by
  have hempty : ¬keys.isEmpty = true := by
    intro hnil
    exact hkeys (List.isEmpty_iff.mp hnil ▸ List.nodup_nil)
  obtain ⟨key, hvalidate⟩ := Registry.validate_ofKeys_of_not_nodup (φ := φ) hkeys
  refine ⟨key, ?_⟩
  rw [probe, if_neg hempty]
  simp only [init, hvalidate]

/-- **A probe of distinct keys** reports on the settled entries, and releases them. -/
theorem probe_of_nodup {keys : List String} (hne : keys ≠ []) (hkeys : keys.Nodup)
    (file : TableFile) :
    let settled := (Table.loadOrEmpty h.policy file).settle keys h.loader
    let held := handlesOf settled.registry.entries
    ∃ events,
      h.probe keys file =
        { result :=
            .ok ⟨.ofLoad keys (Table.load h.policy file), .ofRegistry settled.registry,
              held.length⟩
          host :=
            { h with
              registry := ⟨settled.registry.entries.map fun e ↦ e.release.2⟩
              loader := held.foldl (fun loader handle ↦ Loader.close handle loader) settled.loader }
          events } := by
  intro settled held
  have hempty : ¬keys.isEmpty = true := by simpa using hne
  let fresh : Host σ φ := { h with registry := .ofKeys keys }
  obtain ⟨events, hinit⟩ := init_ofKeys (h := fresh) hkeys rfl file
  refine ⟨events ++ settled.events, ?_⟩
  rw [probe, if_neg hempty]
  dsimp only
  rw [hinit]
  -- The release is written out, since the report was made before it.
  simp only [info, resolveAll, dispose, Registry.dispose, releaseAll_eq]
  rfl

end Host

/-! ### Counts of the catalog -/

/-- Closing handles in order counts them. -/
theorem Catalog.foldl_close (handles : List Handle) (c : Catalog φ) :
    handles.foldl (fun c handle ↦ Loader.close handle c) c =
      { c with closes := c.closes + handles.length } := by
  induction handles generalizing c with
  | nil => rfl
  | cons handle handles ih =>
    rw [List.foldl_cons, ih, List.length_cons, Nat.add_comm handles.length 1, ← Nat.add_assoc]
    rfl

/-- **What settling leaves open is what the entries hold**: once that is closed, as many handles are
live as before. -/
theorem Table.live_settle (t : Table) (keys : List String) {c : Catalog φ}
    (hroom : c.modules.length < Catalog.slots) :
    let settled := t.settle keys c
    let held := handlesOf settled.registry.entries
    (held.foldl (fun c handle ↦ Loader.close handle c) settled.loader).live = c.live := by
  intro settled held
  let start : List (Entry φ) := keys.map fun key ↦ t.entryOf key
  have htally : Tally ⟨start, c⟩ ⟨settled.registry.entries, settled.loader⟩ :=
    .of_moves hroom (moves_getAll start c)
  have hnone {s : State} (hs : s ≠ .unresolved) : inState s start = 0 := by
    rw [inState, List.countP_eq_zero]
    intro e he
    obtain ⟨key, -, rfl⟩ := List.mem_map.mp he
    exact fun hu ↦ hs (of_decide_eq_true hu).symm
  have hopened : settled.loader.opened = c.opened + located settled.registry.entries := by
    simpa [located, hnone] using htally.opened
  have hcloses : settled.loader.closes =
      c.closes + inState (.failed .symbolNotFound) settled.registry.entries := by
    simpa [hnone] using htally.closes
  have hheld : held.length = inState .bound settled.registry.entries :=
    length_handlesOf_of_wellBound fun e he ↦ (settled_of_mem_settle he).2
  rw [Catalog.foldl_close]
  simp only [Catalog.live, hopened, hcloses, hheld, located]
  omega

/-! ### Reports -/

/-- **The report on settled entries** has one entry for each key, and its verdict and the number of
handles to close follow from the states that it shows. -/
theorem Table.report_settle [Loader σ φ] (t : Table) (keys : List String) (loader : σ) :
    let es := (t.settle keys loader).registry.entries
    let report := Report.ofRegistry (t.settle keys loader).registry
    report.entries.map (·.key) = keys ∧
      (∀ e ∈ report.entries,
        e.state ≠ .unresolved ∧ e.target = t.targetOf e.key ∧
          (e.holdsFunction = true ↔ e.state.status = 1) ∧
          (e.holdsModule = true ↔ e.state.status = 1)) ∧
      (handlesOf es).length = report.entries.countP (·.state.status = 1) ∧
      (report.anyFailed = true ↔ (handlesOf es).length < keys.length) := by
  intro es report
  have hentries : report.entries = es.map Snapshot.ofEntry := rfl
  have hterminal (e : Entry φ) (he : e ∈ es) : e.state.isTerminal = true :=
    (settled_of_mem_settle he).1
  have hheld : (handlesOf es).length = inState .bound es :=
    length_handlesOf_of_wellBound fun e he ↦ (settled_of_mem_settle he).2
  refine ⟨?_, ?_, ?_, ?_⟩
  · rw [hentries, List.map_map]
    exact t.keys_settle keys loader
  · rw [hentries, List.forall_mem_map]
    intro e he
    obtain ⟨hmodule, hfunction⟩ := (settled_of_mem_settle he).2.holds_iff (hterminal e he)
    refine ⟨fun hu ↦ ?_, target_of_mem_settle he, ?_, ?_⟩
    · have hnot : e.state.isTerminal = false := State.isTerminal_eq_false_iff.mpr hu
      exact absurd (hterminal e he) (by simp [hnot])
    · rwa [State.status_eq_one_iff]
    · rwa [State.status_eq_one_iff]
  · simp only [hheld, hentries, List.countP_map, inState, Function.comp_def,
      State.status_eq_one_iff]
    rfl
  · rw [Report.anyFailed_iff hterminal, hheld, t.length_settle keys loader]

/-- A probe that the host refuses leaves the session as it is. -/
theorem Session.probe_of_refused [Loader σ φ] {s : Session σ φ} {keys : List String}
    {file : TableFile} {e : ProbeError}
    (h : s.host.probe keys file = { result := .error e, host := s.host }) :
    s.probe keys file = (.error e, s) := by
  rw [probe, h]
  simp [visible]

/-- **A probe report is consistent, and a probe leaves nothing open**, whatever the keys, the table,
the policy and the observer.

A probe without keys and one with a key given twice are refused, and then nothing happened at all.
Any other probe returns a report with one entry for each key, in order. All of them are settled,
with the target on the last line for the key, which is empty if there is no such line or no table,
and a module and a function are there exactly at status one. As many modules were closed as entries
have that status, and some entry failed if that is not all of them. The report on the table counts
the keys that have a line, and the catalog has as many live handles as it had, so none if none were
live. -/
theorem probe_report_consistent (s : Session (Catalog φ) φ)
    (hroom : s.host.loader.modules.length < Catalog.slots) (keys : List String)
    (file : TableFile) :
    let t := Table.loadOrEmpty s.host.policy file
    let result := (s.probe keys file).1
    let last := (s.probe keys file).2
    (result = .error .noKeys ↔ keys = []) ∧
      ((∃ key, result = .error (.registry (.duplicateKey key))) ↔ ¬keys.Nodup) ∧
      (keys = [] ∨ ¬keys.Nodup → last = s ∧ (s.host.probe keys file).events = []) ∧
      (keys ≠ [] → keys.Nodup → ∃ p, result = .ok p ∧
        p.report.entries.map (·.key) = keys ∧
        (∀ e ∈ p.report.entries,
          e.state ≠ .unresolved ∧ e.target = ((t.lookup? e.key).map (·.target)).getD {} ∧
            (e.holdsFunction = true ↔ e.state.status = 1) ∧
            (e.holdsModule = true ↔ e.state.status = 1)) ∧
        p.closed = p.report.entries.countP (·.state.status = 1) ∧
        (p.report.anyFailed = true ↔ p.closed < keys.length) ∧
        (∀ e, Table.load s.host.policy file = .error e → p.init = .configMissing) ∧
        (∀ table, Table.load s.host.policy file = .ok table →
          p.init = .configured (keys.countP fun key ↦ (table.lookup? key).isSome)
            (table.lines.countP fun line ↦ line.assignment.key ∉ keys) table.skipped.length) ∧
        last.host.loader.live = s.host.loader.live) := by
  intro t result last
  by_cases hne : keys = []
  · subst hne
    have hprobe := Session.probe_of_refused (s.host.probe_nil file)
    have hresult : result = .error .noKeys := congrArg Prod.fst hprobe
    refine ⟨⟨fun _ ↦ rfl, fun _ ↦ hresult⟩, ⟨?_, fun hn ↦ absurd List.nodup_nil hn⟩,
      fun _ ↦ ⟨congrArg Prod.snd hprobe, rfl⟩, fun hn ↦ absurd rfl hn⟩
    rintro ⟨key, hkey⟩
    cases hresult.symm.trans hkey
  by_cases hkeys : keys.Nodup
  · obtain ⟨events, hprobe⟩ := s.host.probe_of_nodup hne hkeys file
    obtain ⟨horder, hentries, hclosed, hfailed⟩ := t.report_settle keys s.host.loader
    have hresult : result = .ok _ := congrArg Step.result hprobe
    have hlive : last.host.loader.live = s.host.loader.live := by
      rw [show last.host = _ from Session.host_foldl_observe _ _, hprobe]
      exact t.live_settle keys hroom
    refine ⟨⟨fun h ↦ ?_, fun h ↦ absurd h hne⟩, ⟨?_, fun hn ↦ absurd hkeys hn⟩, fun h ↦ ?_,
      fun _ _ ↦ ⟨_, hresult, horder, fun e he ↦ ?_, hclosed, hfailed, fun e he ↦ ?_,
        fun table htable ↦ ?_, hlive⟩⟩
    · cases hresult.symm.trans h
    · rintro ⟨key, hkey⟩
      cases hresult.symm.trans hkey
    · exact (h.elim hne fun hn ↦ hn hkeys).elim
    · rw [← t.targetOf_eq]
      exact hentries e he
    · exact congrArg (InitReport.ofLoad keys) he
    · exact congrArg (InitReport.ofLoad keys) htable
  · obtain ⟨key, hrefused⟩ := s.host.probe_of_not_nodup hkeys file
    have hprobe := Session.probe_of_refused hrefused
    have hresult : result = .error (.registry (.duplicateKey key)) := congrArg Prod.fst hprobe
    refine ⟨⟨fun h ↦ ?_, fun h ↦ absurd h hne⟩, ⟨fun _ ↦ hkeys, fun _ ↦ ⟨key, hresult⟩⟩,
      fun _ ↦ ⟨congrArg Prod.snd hprobe, congrArg Step.events hrefused⟩,
      fun _ h ↦ absurd h hkeys⟩
    cases hresult.symm.trans h

/-- Of two keys, the table has a line for one, whose function is found: one module is closed again,
and the verdict is that some entry failed. With one key given twice nothing happens. -/
theorem probe_report_consistent_one_bound :
    let s : Session (Catalog Nat) Nat :=
      { host := .fresh [] .single .truncate
        journal := { component := "probe", run := "run" } }
    let once := s.probe ["sum", "product"] .single
    let twice := s.probe ["sum", "sum"] .single
    s.host.loader.modules.length < Catalog.slots ∧
      (∃ p, once.1 = .ok p ∧ p.init = .configured 1 0 0 ∧ p.closed = 1 ∧
        p.report.anyFailed = true) ∧
      once.2.host.loader.live = 0 ∧
      (∃ key, twice.1 = .error (.registry (.duplicateKey key))) ∧ twice.2 = s := by
  intro s once twice
  have hroom : s.host.loader.modules.length < Catalog.slots := by decide
  obtain ⟨-, -, -, honce⟩ := probe_report_consistent s hroom ["sum", "product"] .single
  obtain ⟨-, hduplicate, hrefused, -⟩ := probe_report_consistent s hroom ["sum", "sum"] .single
  obtain ⟨p, hp, -, -, -, hfailed, -, hinit, hlive⟩ := honce (by decide) (by decide)
  have hone : p.closed = 1 := by
    have hcount : once.1.toOption.map (·.closed) = some 1 := by decide +kernel
    rw [show once.1 = .ok p from hp] at hcount
    exact Option.some.inj hcount
  refine ⟨hroom, ⟨p, hp, (hinit _ rfl).trans (by decide +kernel), hone, ?_⟩, hlive, ?_, ?_⟩
  · exact hfailed.mpr (hone ▸ by decide)
  · exact hduplicate.mpr (by decide)
  · exact (hrefused (.inr (by decide))).1

end Interpose
