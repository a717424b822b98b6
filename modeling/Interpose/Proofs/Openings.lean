import Interpose.Proofs.Application
import Interpose.Proofs.Handles
import Interpose.Proofs.Ledger

/-!
# Openings of a catalog that grows

Modules can be listed in a catalog at any time, also after others were opened. A handle leads to the
module of the file that was opened all the same (`handles_lead_back`), for two reasons. What is
listed later goes behind what is there, so a module keeps its place and its file (`Kept`). And a
listing is refused when all places are taken, so each place fits the part of the word that is kept
for it (`Kept.exists_serveAll?_iff`).

What a catalog lists is a function of the requests that it served (`modulesOf`): the files in the
order in which they were first listed, each with everything that was listed for it, in order. The
handles that were given out are in a ledger.
-/

namespace Interpose.Catalog

variable {φ : Type}

/-! ### Requests -/

/-- What a catalog can be asked for. -/
inductive Request (φ : Type)
  /-- To list a library. -/
  | listModule (library : String)
  /-- To list a symbol of a library. -/
  | listSymbol (library symbol : String) (function : Option φ)
  | openModule (file : String)
  | resolve (handle : Handle) (symbol : String)
  | close (handle : Handle)

/-- A catalog, with a ledger of its handles, after a request. There is none if that was to list a
new module while all places were taken. -/
def serve? (k : Ledger (Catalog φ)) : Request φ → Option (Ledger (Catalog φ))
  | .listModule library => (k.base.withModule? library).map fun base ↦ { k with base }
  | .listSymbol library symbol function =>
    (k.base.withSymbol? library symbol function).map fun base ↦ { k with base }
  | .openModule file => some (k.openModule file).2
  | .resolve handle symbol => some (k.resolve handle symbol).2
  | .close handle => some (k.close handle)

/-- A catalog after requests in order. -/
def serveAll? (k : Ledger (Catalog φ)) (requests : List (Request φ)) :
    Option (Ledger (Catalog φ)) :=
  requests.foldlM serve? k

/-! ### What is listed -/

namespace Request

/-- The file under which something is listed. -/
def file? : Request φ → Option String
  | listModule library | listSymbol library _ _ => some (fileOf library)
  | _ => none

/-- The symbol that is listed for a file. -/
def export? (file : String) : Request φ → Option (String × Option φ)
  | listSymbol library symbol function =>
    if fileOf library = file then some (symbol, function) else none
  | _ => none

theorem file?_of_export? {file : String} {r : Request φ} {entry : String × Option φ}
    (h : r.export? file = some entry) : r.file? = some file := by
  unfold export? at h
  split at h
  · obtain ⟨rfl, -⟩ := Option.ite_none_right_eq_some.mp h
    rfl
  · cases h

end Request

/-- The files under which something was listed, in the order in which they were first. -/
def filesOf (requests : List (Request φ)) : List String :=
  (requests.filterMap Request.file?).eraseDups

/-- The symbols that were listed for a file, in order. -/
def exportsOf (file : String) (requests : List (Request φ)) : List (String × Option φ) :=
  requests.filterMap (Request.export? file)

/-- What is found under a symbol: the function of its first listing, if that comes with one. -/
def firstListed (symbol : String) (listings : List (String × Option φ)) : Except BindError φ :=
  match listings.find? (·.1 = symbol) with
  | some (_, some function) => .ok function
  | _ => .error .symbolNotFound

/-- The modules that were listed. -/
def modulesOf (requests : List (Request φ)) : List (Module φ) :=
  (filesOf requests).map fun file ↦ { file, exports := exportsOf file requests }

section Listing

variable {requests later : List (Request φ)} {r : Request φ} {file : String}

theorem isPrefix_filesOf_append (requests later : List (Request φ)) :
    filesOf requests <+: filesOf (requests ++ later) := by
  rw [filesOf, filesOf, List.filterMap_append, List.eraseDups_append]
  exact List.prefix_append _ _

theorem filesOf_concat_of_file?_eq_none (h : r.file? = none) :
    filesOf (requests ++ [r]) = filesOf requests := by
  rw [filesOf, filesOf, List.filterMap_append, List.filterMap_cons_none h, List.filterMap_nil,
    List.append_nil]

theorem filesOf_concat_of_file?_eq_some (h : r.file? = some file) :
    filesOf (requests ++ [r]) =
      if file ∈ filesOf requests then filesOf requests else filesOf requests ++ [file] := by
  have hmem : file ∈ filesOf requests ↔ file ∈ requests.filterMap Request.file? :=
    List.mem_eraseDups
  simp only [hmem]
  rw [filesOf, filesOf, List.filterMap_append, List.filterMap_cons_some h, List.filterMap_nil,
    eraseDups_concat]

theorem exportsOf_concat (file : String) (requests : List (Request φ)) (r : Request φ) :
    exportsOf file (requests ++ [r]) = exportsOf file requests ++ (r.export? file).toList := by
  rw [exportsOf, List.filterMap_append]
  rcases h : r.export? file with - | entry
  · rw [List.filterMap_cons_none h]
    rfl
  · rw [List.filterMap_cons_some h]
    rfl

/-- Nothing was listed for a file that was not listed. -/
theorem exportsOf_eq_nil (h : file ∉ filesOf requests) : exportsOf file requests = [] := by
  rw [exportsOf, List.filterMap_eq_nil_iff]
  intro r hr
  rw [filesOf, List.mem_eraseDups, List.mem_filterMap] at h
  exact Option.eq_none_iff_forall_ne_some.mpr fun entry hentry ↦
    h ⟨r, hr, Request.file?_of_export? hentry⟩

theorem any_modulesOf (file : String) (requests : List (Request φ)) :
    (modulesOf requests).any (·.file = file) = decide (file ∈ filesOf requests) := by
  rw [Bool.eq_iff_iff]
  simp [modulesOf]

/-- The module of a file is put behind those that are there, unless it is one of them. -/
theorem ensure_modulesOf (h : r.file? = some file) :
    ensure file (modulesOf requests) =
      (filesOf (requests ++ [r])).map fun file ↦ { file, exports := exportsOf file requests } := by
  rw [ensure, any_modulesOf, filesOf_concat_of_file?_eq_some h]
  by_cases hfile : file ∈ filesOf requests
  · simp [hfile, modulesOf]
  · simp [hfile, modulesOf, exportsOf_eq_nil hfile]

/-- A request that lists nothing for any file leaves the exports as they are. -/
theorem modulesOf_concat_of_export?_eq_none (h : ∀ file, r.export? file = none) :
    modulesOf (requests ++ [r]) =
      (filesOf (requests ++ [r])).map fun file ↦ { file, exports := exportsOf file requests } := by
  simp only [modulesOf, exportsOf_concat, h, Option.toList_none, List.append_nil]

theorem modulesOf_listModule (requests : List (Request φ)) (library : String) :
    modulesOf (requests ++ [.listModule library]) =
      ensure (fileOf library) (modulesOf requests) := by
  rw [modulesOf_concat_of_export?_eq_none fun _ ↦ rfl,
    ensure_modulesOf (r := .listModule library) rfl]

theorem modulesOf_listSymbol (requests : List (Request φ)) (library symbol : String)
    (function : Option φ) :
    modulesOf (requests ++ [.listSymbol library symbol function]) =
      addExport (fileOf library) (symbol, function)
        (ensure (fileOf library) (modulesOf requests)) := by
  rw [ensure_modulesOf (r := .listSymbol library symbol function) rfl, addExport, List.map_map]
  refine List.map_congr_left fun file _ ↦ ?_
  rw [exportsOf_concat, Request.export?]
  by_cases hfile : fileOf library = file
  · simp [hfile]
  · simp [hfile, Ne.symm hfile]

theorem modulesOf_concat_of_file?_eq_none (h : r.file? = none) :
    modulesOf (requests ++ [r]) = modulesOf requests := by
  have hexport (file : String) : r.export? file = none :=
    Option.eq_none_iff_forall_ne_some.mpr fun entry hentry ↦ by
      rw [Request.file?_of_export? hentry] at h
      cases h
  rw [modulesOf_concat_of_export?_eq_none hexport, filesOf_concat_of_file?_eq_none h, modulesOf]

end Listing

/-! ### What a catalog keeps -/

/-- What is known of a catalog that began empty, after some requests. -/
structure Kept (requests : List (Request φ)) (k : Ledger (Catalog φ)) : Prop where
  modules : k.base.modules = modulesOf requests
  room : (filesOf requests).length < slots
  opened : k.base.opened = k.given.length
  numbered : Numbered k.given

variable {requests : List (Request φ)} {r : Request φ} {k k' : Ledger (Catalog φ)} {file : String}

theorem kept_empty : Kept ([] : List (Request φ)) { base := {} } :=
  ⟨rfl, Nat.zero_lt_succ _, rfl, .nil⟩

namespace Kept

theorem length_modules (h : Kept requests k) :
    k.base.modules.length = (filesOf requests).length := by
  rw [h.modules, modulesOf, List.length_map]

/-- A library is listed if there is a place for each of the files. -/
theorem withModule?_eq (h : Kept requests k) {library : String}
    (hr : r.file? = some (fileOf library)) :
    k.base.withModule? library =
      if (filesOf (requests ++ [r])).length < slots then some (k.base.withModule library)
      else none := by
  have hroom := h.room
  rw [withModule?, h.length_modules, h.modules, any_modulesOf, filesOf_concat_of_file?_eq_some hr]
  by_cases hfile : fileOf library ∈ filesOf requests
  · simp [hfile, hroom]
  · have hplace : (filesOf requests).length < slots - 1 ↔
        (filesOf requests ++ [fileOf library]).length < slots := by
      rw [List.length_append, List.length_singleton]
      omega
    simp only [hfile, decide_false, Bool.false_or, decide_eq_true_eq, if_false, hplace]

theorem findIdx?_modules (h : Kept requests k) (file : String) :
    k.base.modules.findIdx? (·.file = file) = (filesOf requests).findIdx? (· = file) := by
  rw [h.modules, modulesOf, List.findIdx?_map]
  rfl

/-- The places that are counted from one fit into a word. -/
theorem place_lt_slots (h : Kept requests k) (hfile : file ∈ filesOf requests) :
    (filesOf requests).idxOf file + 1 < slots :=
  Nat.lt_of_le_of_lt (List.idxOf_lt_length_of_mem hfile) h.room

/-- A file that is listed is opened, and the handle gets the place of the file. -/
theorem openModule_of_mem (h : Kept requests k) (hfile : file ∈ filesOf requests) :
    ∃ handle : Handle,
      handle.word = wordOf (k.given.length + 1) ((filesOf requests).idxOf file) ∧
      k.openModule file = (.ok handle,
        { k with
          base := { k.base with opens := k.base.opens + 1, opened := k.base.opened + 1 }
          given := k.given ++ [handle] }) := by
  have hroom : k.base.modules.length < slots := h.length_modules.symm ▸ h.room
  have hplace : k.base.modules.findIdx? (·.file = file) = some ((filesOf requests).idxOf file) := by
    rw [h.findIdx?_modules, List.findIdx?_eq_some_iff_findIdx_eq]
    exact ⟨List.idxOf_lt_length_of_mem hfile, by simp only [List.idxOf, beq_eq_decide]⟩
  obtain ⟨-, handle, hword, hopen⟩ := openModule_of_findIdx?_eq_some hroom hplace
  exact ⟨handle, h.opened ▸ hword, Ledger.openModule_of_ok hopen⟩

theorem openModule_of_not_mem (h : Kept requests k) (hfile : file ∉ filesOf requests) :
    k.openModule file = (.error .moduleNotFound,
      { k with base := { k.base with opens := k.base.opens + 1 } }) := by
  have hnone : k.base.modules.findIdx? (·.file = file) = none := by
    rw [h.findIdx?_modules, List.findIdx?_eq_none_iff]
    intro other hother
    exact decide_eq_false fun heq ↦ hfile (heq ▸ hother)
  refine Ledger.openModule_of_error ?_
  show k.base.openModule file = _
  simp only [Catalog.openModule, hnone]

/-- A request that lists nothing. -/
theorem of_file?_eq_none (h : Kept requests k) (hr : r.file? = none)
    (hmodules : k'.base.modules = k.base.modules) (hopened : k'.base.opened = k'.given.length)
    (hnumbered : Numbered k'.given) : Kept (requests ++ [r]) k' := by
  refine ⟨?_, ?_, hopened, hnumbered⟩
  · rw [hmodules, h.modules, modulesOf_concat_of_file?_eq_none hr]
  · rw [filesOf_concat_of_file?_eq_none hr]
    exact h.room

/-- **One request.** -/
theorem serve (h : Kept requests k) (hserve : serve? k r = some k') :
    Kept (requests ++ [r]) k' := by
  rcases r with library | ⟨library, symbol, function⟩ | file | ⟨handle, symbol⟩ | handle
  · rw [serve?, h.withModule?_eq (r := .listModule library) rfl] at hserve
    split at hserve
    · next hroom =>
      obtain rfl := Option.some.inj hserve
      refine ⟨?_, hroom, h.opened, h.numbered⟩
      rw [modulesOf_listModule, ← h.modules]
      rfl
    · cases hserve
  · rw [serve?, withSymbol?, h.withModule?_eq (r := .listSymbol library symbol function) rfl]
      at hserve
    split at hserve
    · next hroom =>
      obtain rfl := Option.some.inj hserve
      refine ⟨?_, hroom, h.opened, h.numbered⟩
      rw [modulesOf_listSymbol, ← h.modules]
      rfl
    · cases hserve
  · obtain rfl := Option.some.inj hserve
    by_cases hfile : file ∈ filesOf requests
    · obtain ⟨handle, hword, hopen⟩ := h.openModule_of_mem hfile
      rw [hopen]
      refine h.of_file?_eq_none rfl rfl ?_ (h.numbered.concat (h.place_lt_slots hfile) hword)
      rw [List.length_append, List.length_singleton, h.opened]
    · rw [h.openModule_of_not_mem hfile]
      exact h.of_file?_eq_none rfl rfl h.opened h.numbered
  · obtain rfl := Option.some.inj hserve
    exact h.of_file?_eq_none rfl rfl h.opened h.numbered
  · obtain rfl := Option.some.inj hserve
    exact h.of_file?_eq_none rfl rfl h.opened h.numbered

theorem exists_serve?_iff (h : Kept requests k) (r : Request φ) :
    (∃ k', serve? k r = some k') ↔ (filesOf (requests ++ [r])).length < slots := by
  have hserved {k' : Ledger (Catalog φ)} (hr : r.file? = none) (hserve : serve? k r = some k') :
      (∃ k', serve? k r = some k') ↔ (filesOf (requests ++ [r])).length < slots := by
    rw [filesOf_concat_of_file?_eq_none hr]
    exact iff_of_true ⟨k', hserve⟩ h.room
  rcases r with library | ⟨library, symbol, function⟩ | file | ⟨handle, symbol⟩ | handle
  · rw [serve?, h.withModule?_eq (r := .listModule library) rfl]
    split
    · next hroom => exact iff_of_true ⟨_, rfl⟩ hroom
    · next hfull => exact iff_of_false (by simp) hfull
  · rw [serve?, withSymbol?, h.withModule?_eq (r := .listSymbol library symbol function) rfl]
    split
    · next hroom => exact iff_of_true ⟨_, rfl⟩ hroom
    · next hfull => exact iff_of_false (by simp) hfull
  · exact hserved rfl rfl
  · exact hserved rfl rfl
  · exact hserved rfl rfl

/-- **A run.** -/
theorem serveAll (h : Kept requests k) {later : List (Request φ)}
    (hserve : serveAll? k later = some k') : Kept (requests ++ later) k' := by
  induction later generalizing requests k with
  | nil =>
    obtain rfl := Option.some.inj hserve
    rwa [List.append_nil]
  | cons r later ih =>
    rw [serveAll?, List.foldlM_cons] at hserve
    obtain ⟨next, hnext, hlater⟩ := Option.bind_eq_some_iff.mp hserve
    have hmore := ih (h.serve hnext) hlater
    rwa [List.append_assoc, List.singleton_append] at hmore

/-- **No request is refused** as long as there is a place for each of the files. -/
theorem exists_serveAll?_iff (h : Kept requests k) (later : List (Request φ)) :
    (∃ k', serveAll? k later = some k') ↔ (filesOf (requests ++ later)).length < slots := by
  induction later generalizing requests k with
  | nil =>
    rw [List.append_nil]
    exact iff_of_true ⟨k, rfl⟩ h.room
  | cons r later ih =>
    have happend : requests ++ r :: later = requests ++ [r] ++ later := by simp
    rw [serveAll?, List.foldlM_cons, happend]
    rcases hserve : serve? k r with - | next
    · have hfull : ¬(filesOf (requests ++ [r])).length < slots := by
        rw [← h.exists_serve?_iff, hserve]
        simp
      have hle := (isPrefix_filesOf_append (requests ++ [r]) later).length_le
      exact iff_of_false (by simp) (by omega)
    · exact ih (h.serve hserve)

/-- The module of a file that was listed is where the file is, whatever was listed later. -/
theorem getElem?_modules (h : Kept (requests ++ later) k) (hfile : file ∈ filesOf requests) :
    k.base.modules[(filesOf requests).idxOf file]? =
      some { file, exports := exportsOf file (requests ++ later) } := by
  have hplace : (filesOf (requests ++ later))[(filesOf requests).idxOf file]? = some file := by
    obtain ⟨more, hmore⟩ := isPrefix_filesOf_append requests later
    rw [← hmore, List.getElem?_append_left (List.idxOf_lt_length_of_mem hfile)]
    exact List.getElem?_idxOf hfile
  rw [h.modules, modulesOf, List.getElem?_map, hplace]
  rfl

end Kept

/-- Opening lists nothing. -/
theorem exportsOf_openModule (file other : String) (before later : List (Request φ)) :
    exportsOf file (before ++ .openModule other :: later) = exportsOf file (before ++ later) := by
  simp only [exportsOf, List.filterMap_append]
  rfl

/-- A symbol is found by its first listing. -/
theorem resolve_of_moduleOf? {c : Catalog φ} {handle : Handle} {m : Module φ}
    (h : c.moduleOf? handle = some m) (symbol : String) :
    (c.resolve handle symbol).1 = firstListed symbol m.exports := by
  rw [resolve, h, Option.bind_some, Module.function?, firstListed]
  generalize m.exports.find? (·.1 = symbol) = listing
  rcases listing with - | ⟨-, - | function⟩ <;> rfl

/-- **Handles lead back to what was opened.**

Let an empty catalog be asked to list modules and symbols, to open and close modules and to find
symbols, in any order. All requests are served if and only if they list no more than 65535 files.

Let a file be opened after some requests, and let fewer than 2^48 handles be given by then. It opens
if and only if it is listed. Its handle is none of those that were given before. The word of the
handle holds the number of the opening and, in its lower 16 bits, the place of the file, counted
from one; so it is not zero. After any later requests the handle leads to the module of that file,
with the symbols that were listed for it and no others, and a symbol is found by its first
listing. -/
theorem handles_lead_back {before later : List (Request φ)} {k k' : Ledger (Catalog φ)}
    {file : String} (hbefore : serveAll? { base := {} } before = some k)
    (hlater : serveAll? (k.openModule file).2 later = some k')
    (hfit : k.given.length + 1 < 2 ^ 48) :
    (∀ requests : List (Request φ), (∃ k, serveAll? { base := {} } requests = some k) ↔
        (filesOf requests).length ≤ 65535) ∧
      ((∃ handle, (k.openModule file).1 = .ok handle) ↔ file ∈ filesOf before) ∧
      (∀ reason, (k.openModule file).1 = .error reason → reason = .moduleNotFound) ∧
      ∀ handle, (k.openModule file).1 = .ok handle →
        handle ∉ k.given ∧ (k.openModule file).2.given = k.given ++ [handle] ∧
        handle.word = UInt64.ofNat (k.given.length + 1) <<< 16 |||
          UInt64.ofNat ((filesOf before).idxOf file + 1) ∧
        (handle.word &&& 0xFFFF).toNat = (filesOf before).idxOf file + 1 ∧
        k'.base.moduleOf? handle = some { file, exports := exportsOf file (before ++ later) } ∧
        ∀ symbol, (k'.base.resolve handle symbol).1 =
          firstListed symbol (exportsOf file (before ++ later)) := by
  have hk : Kept before k := kept_empty.serveAll hbefore
  have hk' : Kept (before ++ .openModule file :: later) k' := by
    have hserve : serve? k (.openModule file) = some (k.openModule file).2 := rfl
    have hall := (hk.serve hserve).serveAll hlater
    rwa [List.append_assoc, List.singleton_append] at hall
  refine ⟨fun requests ↦ ?_, ?_⟩
  · rw [kept_empty.exists_serveAll?_iff, List.nil_append, slots, Nat.lt_succ_iff]
  by_cases hfile : file ∈ filesOf before
  · obtain ⟨handle, hword, hopen⟩ := hk.openModule_of_mem hfile
    have hplace := hk.place_lt_slots hfile
    have hnumbered := hk.numbered.concat hplace hword
    have hnodup := hnumbered.nodup (by rwa [List.length_append, List.length_singleton])
    have hmodule : k'.base.moduleOf? handle =
        some { file, exports := exportsOf file (before ++ later) } := by
      rw [moduleOf?_of_word hplace hword, hk'.getElem?_modules hfile, exportsOf_openModule]
    rw [hopen]
    refine ⟨iff_of_true ⟨handle, rfl⟩ hfile, fun reason hreason ↦ absurd hreason (by simp), ?_⟩
    intro given hgiven
    obtain rfl := Except.ok.inj hgiven
    refine ⟨?_, rfl, ?_, ?_, hmodule, resolve_of_moduleOf? hmodule⟩
    · exact fun hmem ↦ (List.nodup_append.mp hnodup).2.2 _ hmem _ (List.mem_singleton_self _) rfl
    · rw [hword, wordOf_eq_or hfit hplace]
    · rw [toNat_and_mask, hword, toNat_wordOf_mod _ hplace]
  · rw [hk.openModule_of_not_mem hfile]
    refine ⟨iff_of_false (by simp) hfile, fun reason hreason ↦ (Except.error.inj hreason).symm, ?_⟩
    intro handle hhandle
    cases hhandle

/-- The second opening of the second module: its handle also leads to a symbol that is listed later,
but neither to a later listing of the same symbol nor to the module that is opened in between. -/
theorem handles_lead_back_reopened :
    let before : List (Request ℕ) :=
      [.listModule "sum", .listSymbol "product" "times" (some 2), .openModule "product.so"]
    let later : List (Request ℕ) :=
      [.listSymbol "power" "times" (some 3), .openModule "power.so",
        .listSymbol "product" "times" (some 4), .listSymbol "product" "square" (some 5)]
    ∃ (k k' : Ledger (Catalog ℕ)) (handle : Handle),
      serveAll? { base := {} } before = some k ∧
        serveAll? (k.openModule "product.so").2 later = some k' ∧ k.given.length + 1 < 2 ^ 48 ∧
        (k.openModule "product.so").1 = .ok handle ∧ handle ∉ k.given ∧ handle.word = 0x20002 ∧
        (k'.base.resolve handle "times").1 = .ok 2 ∧
        (k'.base.resolve handle "square").1 = .ok 5 := by
  intro before later
  obtain ⟨k, hbefore⟩ : ∃ k, serveAll? { base := {} } before = some k :=
    (kept_empty.exists_serveAll?_iff before).mpr (by decide +kernel)
  have hk : Kept before k := kept_empty.serveAll hbefore
  obtain ⟨k', hlater⟩ : ∃ k', serveAll? (k.openModule "product.so").2 later = some k' :=
    ((hk.serve (r := .openModule "product.so") rfl).exists_serveAll?_iff later).mpr
      (by decide +kernel)
  have hgiven : k.given.length = 1 := by
    have hmap : (serveAll? { base := {} } before).map (·.given.length) = some 1 := by
      decide +kernel
    rw [hbefore] at hmap
    exact Option.some.inj hmap
  have hfit : k.given.length + 1 < 2 ^ 48 := by omega
  obtain ⟨-, hopens, -, hleads⟩ := handles_lead_back hbefore hlater hfit
  obtain ⟨handle, hopen⟩ := hopens.mpr (by decide +kernel)
  obtain ⟨hnew, -, hword, -, -, hresolve⟩ := hleads handle hopen
  refine ⟨k, k', handle, hbefore, hlater, hfit, hopen, hnew, ?_, ?_, ?_⟩
  · rw [hword, hgiven]
    decide +kernel
  · rw [hresolve]
    rfl
  · rw [hresolve]
    rfl

end Interpose.Catalog
