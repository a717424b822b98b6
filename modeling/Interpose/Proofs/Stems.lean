import Interpose.ModuleName
import Mathlib.Data.List.Infix

/-!
# The stem of a library and the table of its stem

Which table belongs to a loaded library is found out from the library's path, which can be any text.
Two things are said about it.

The table stays in the directory for temporary files (`tablePath_confined`): its name begins with a
stem, and a stem is never empty and holds no separator, because it is a prefix of the file name. The
paths without a stem are those whose file name is empty or an extension and nothing else.

The stem does not depend on which version of the library was loaded, or on the kind of its module
(`stem_of_version`). Whether a versioned extension is found at its place is a question about the
name in front of it alone, since an extension has one dot and that is its first character
(`not_versioned_append_extension`).

Each rule for cutting a text down has one lemma that says when it applies and what is left.
-/

namespace Interpose

variable {path directory file name stem : List Char}

/-! ### File names -/

/-- A text that can stand in front of a file name: it is empty or ends with a separator. -/
def IsDirectory (directory : List Char) : Prop := ∀ c ∈ directory.getLast?, c = '/' ∨ c = '\\'

/-- A text without separators. -/
def IsFileName (file : List Char) : Prop := ∀ c ∈ file, c ≠ '/' ∧ c ≠ '\\'

-- The instances are named, because a quantifier over characters can also be decided by trying all.
instance (directory : List Char) : Decidable (IsDirectory directory) :=
  Option.decidableForallMem directory.getLast?

instance (file : List Char) : Decidable (IsFileName file) :=
  List.decidableBAll (fun c ↦ c ≠ '/' ∧ c ≠ '\\') file

theorem isSeparator_iff {c : Char} : isSeparator c = true ↔ c = '/' ∨ c = '\\' := by
  simp [isSeparator]

/-- No separator is in a file name. -/
theorem isFileName_iff : IsFileName file ↔ file.any isSeparator = false := by
  simp [IsFileName, isSeparator]

theorem IsFileName.append {s t : List Char} (hs : IsFileName s) (ht : IsFileName t) :
    IsFileName (s ++ t) :=
  List.forall_mem_append.mpr ⟨hs, ht⟩

/-- Nothing is cut off a file name. -/
theorem fileNamePart_of_isFileName (h : IsFileName file) : fileNamePart file = file := by
  cases file with
  | nil => rfl
  | cons c s =>
    obtain ⟨hc, hs⟩ : isSeparator c = false ∧ s.any isSeparator = false := by
      rw [← Bool.or_eq_false_iff, ← List.any_cons]
      exact isFileName_iff.mp h
    simp [fileNamePart, hc, hs]

/-- The file name is what is behind a directory. -/
theorem fileNamePart_append (hd : IsDirectory directory) (hf : IsFileName file) :
    fileNamePart (directory ++ file) = file := by
  induction directory with
  | nil => exact fileNamePart_of_isFileName hf
  | cons c d ih =>
    rw [List.cons_append, fileNamePart]
    cases d with
    | nil =>
      have hc : isSeparator c = true := isSeparator_iff.mpr (hd c rfl)
      simp [hc, isFileName_iff.mp hf]
    | cons c' d =>
      -- The directory ends with a separator, so that there is one behind its first character.
      have hd' : IsDirectory (c' :: d) := fun x hx ↦ hd x (by simpa using hx)
      have hlast := hd' _ (List.getLast?_eq_some_getLast (List.cons_ne_nil c' d))
      have hany : (c' :: d ++ file).any isSeparator = true :=
        List.any_eq_true.mpr
          ⟨_, List.mem_append_left _ (List.getLast_mem _), isSeparator_iff.mpr hlast⟩
      rw [if_pos hany, ih hd']

/-- Every path is a directory and a file name. -/
theorem exists_directory (path : List Char) :
    ∃ directory, path = directory ++ fileNamePart path ∧ IsDirectory directory ∧
      IsFileName (fileNamePart path) := by
  induction path with
  | nil => exact ⟨[], rfl, by decide, by decide⟩
  | cons c s ih =>
    rw [fileNamePart]
    split
    · next hany =>
      obtain ⟨d, hs, hd, hf⟩ := ih
      have hne : d ≠ [] := by
        rintro rfl
        rw [hs, List.nil_append, isFileName_iff.mp hf] at hany
        cases hany
      refine ⟨c :: d, congrArg (c :: ·) hs, fun x hx ↦ hd x ?_, hf⟩
      rwa [List.getLast?_cons_of_ne_nil hne] at hx
    · next hany =>
      have hf : IsFileName s := isFileName_iff.mpr (by simpa using hany)
      split
      · next hc => exact ⟨[c], rfl, by simpa [IsDirectory] using isSeparator_iff.mp hc, hf⟩
      · next hc =>
        rw [isSeparator_iff, not_or] at hc
        exact ⟨[], rfl, by decide, List.forall_mem_cons.mpr ⟨hc, hf⟩⟩

/-! ### Cutting down -/

section Cutting

variable {pattern suffix s : List Char}

theorem beforeFirst?_cons (c : Char) :
    beforeFirst? pattern (c :: s) =
      if pattern <+: c :: s then some [] else (beforeFirst? pattern s).map (c :: ·) := by
  simp only [beforeFirst?, List.isPrefixOf_iff_prefix]

/-- Nothing is found in a text in which the pattern does not occur. -/
theorem beforeFirst?_eq_none_iff : beforeFirst? pattern s = none ↔ ¬pattern <:+: s := by
  induction s with
  | nil => cases pattern <;> simp [beforeFirst?]
  | cons c s ih =>
    rw [beforeFirst?_cons, List.infix_cons_iff, not_or, ← ih]
    split <;> simp_all

/-- A pattern does not occur in itself short of its last character. -/
theorem not_infix_dropLast (h : pattern ≠ []) : ¬pattern <:+: pattern.dropLast := by
  intro hinfix
  have hle := hinfix.length_le
  have hpos := List.length_pos_iff.mpr h
  rw [List.length_dropLast] at hle
  omega

/-- An occurrence that begins before another one ends before the other's last character. -/
theorem prefix_append_dropLast_iff (hpattern : pattern ≠ []) (c : Char) (s rest : List Char) :
    pattern <+: c :: (s ++ pattern.dropLast) ↔ pattern <+: c :: (s ++ pattern ++ rest) := by
  have hshorter : c :: (s ++ pattern.dropLast) <+: c :: (s ++ pattern ++ rest) := by
    rw [List.append_assoc]
    exact (List.prefix_append_right_inj (c :: s)).mpr
      (pattern.dropLast_prefix.trans (List.prefix_append _ rest))
  refine ⟨fun h ↦ h.trans hshorter, fun h ↦ List.prefix_of_prefix_length_le h hshorter ?_⟩
  have := List.length_pos_iff.mpr hpattern
  simp only [List.length_cons, List.length_append, List.length_dropLast]
  omega

/-- The first occurrence is the one before whose last character there is no other. -/
theorem beforeFirst?_eq_some_iff (hpattern : pattern ≠ []) :
    beforeFirst? pattern s = some stem ↔
      stem ++ pattern <+: s ∧ ¬pattern <:+: stem ++ pattern.dropLast := by
  constructor
  · intro h
    induction s generalizing stem with
    | nil => simp [beforeFirst?, hpattern] at h
    | cons c s ih =>
      rw [beforeFirst?_cons] at h
      split at h
      · next hhere =>
        obtain rfl := Option.some.inj h
        exact ⟨hhere, not_infix_dropLast hpattern⟩
      · next hhere =>
        obtain ⟨before, hbefore, rfl⟩ := Option.map_eq_some_iff.mp h
        obtain ⟨⟨rest, rfl⟩, hfirst⟩ := ih hbefore
        refine ⟨⟨rest, rfl⟩, ?_⟩
        rw [List.cons_append, List.infix_cons_iff, not_or, prefix_append_dropLast_iff hpattern]
        exact ⟨hhere, hfirst⟩
  · rintro ⟨⟨rest, rfl⟩, hfirst⟩
    induction stem with
    | nil =>
      obtain ⟨c, p, rfl⟩ := List.exists_cons_of_ne_nil hpattern
      exact (beforeFirst?_cons c).trans (if_pos (List.prefix_append (c :: p) rest))
    | cons c stem ih =>
      rw [List.cons_append, List.infix_cons_iff, not_or,
        prefix_append_dropLast_iff hpattern c stem rest] at hfirst
      rw [List.cons_append, List.cons_append, beforeFirst?_cons, if_neg hfirst.1, ih hfirst.2]
      rfl

/-- A suffix is cut off where it is. -/
theorem beforeSuffix?_eq_some_iff : beforeSuffix? suffix s = some stem ↔ s = stem ++ suffix := by
  rw [beforeSuffix?]
  split
  · next h =>
    obtain ⟨t, rfl⟩ := List.isSuffixOf_iff_suffix.mp h
    simp [eq_comm]
  · next h =>
    refine iff_of_false (by simp) ?_
    rintro rfl
    exact h (List.isSuffixOf_iff_suffix.mpr (List.suffix_append _ _))

theorem beforeSuffix?_eq_none_iff : beforeSuffix? suffix s = none ↔ ¬suffix <:+ s := by
  rw [beforeSuffix?, ← List.isSuffixOf_iff_suffix]
  split <;> simp_all

theorem beforeLastDot?_eq_none_iff : beforeLastDot? s = none ↔ '.' ∉ s := by
  induction s with
  | nil => simp [beforeLastDot?]
  | cons c s ih =>
    rw [beforeLastDot?, List.mem_cons, not_or, ← ih]
    cases beforeLastDot? s <;> simp [eq_comm]

/-- The last dot is the one behind which there is no other. -/
theorem beforeLastDot?_eq_some_iff :
    beforeLastDot? s = some stem ↔ ∃ ext, '.' ∉ ext ∧ s = stem ++ '.' :: ext := by
  constructor
  · intro h
    induction s generalizing stem with
    | nil => cases h
    | cons c s ih =>
      rw [beforeLastDot?] at h
      split at h
      · next t ht =>
        obtain rfl := Option.some.inj h
        obtain ⟨ext, hext, rfl⟩ := ih ht
        exact ⟨ext, hext, rfl⟩
      · next hnone =>
        split at h
        · next hc =>
          obtain rfl := Option.some.inj h
          exact ⟨s, beforeLastDot?_eq_none_iff.mp hnone, by rw [hc, List.nil_append]⟩
        · cases h
  · rintro ⟨ext, hext, rfl⟩
    induction stem with
    | nil => rw [List.nil_append, beforeLastDot?, beforeLastDot?_eq_none_iff.mpr hext, if_pos rfl]
    | cons c stem ih => rw [List.cons_append, beforeLastDot?, ih]

end Cutting

/-! ### Extensions -/

/-- What is left of a file name without its extension. -/
inductive Strips : List Char → List Char → Prop
  /-- The first versioned suffix ends the stem. -/
  | versioned {stem : List Char} (version : List Char) :
    ¬".so.".toList <:+: stem ++ ".so".toList → Strips (stem ++ ".so.".toList ++ version) stem
  /-- Without a versioned suffix, a plain one is cut off. -/
  | plain {stem suffix : List Char} :
    suffix ∈ [".so".toList, ".dylib".toList] → ¬".so.".toList <:+: stem ++ suffix →
      Strips (stem ++ suffix) stem
  /-- Without either, whatever follows the last dot is cut off, if something is before it. -/
  | other {stem ext : List Char} :
    stem ≠ [] → '.' ∉ ext → ext ∉ ["so".toList, "dylib".toList] →
      ¬".so.".toList <:+: stem ++ '.' :: ext → Strips (stem ++ '.' :: ext) stem
  /-- A name with no dot behind its first character is left alone. -/
  | bare {file : List Char} :
    '.' ∉ file.tail → file ∉ [".so".toList, ".dylib".toList] → Strips file file

namespace Strips

theorem isPrefix (h : Strips file stem) : stem <+: file := by
  cases h with
  | versioned version => rw [List.append_assoc]; exact List.prefix_append _ _
  | plain => exact List.prefix_append _ _
  | other => exact List.prefix_append _ _
  | bare => exact List.prefix_refl _

end Strips

/-- A dot behind the first character is in the tail. -/
theorem eq_nil_of_dot_not_mem_tail {stem ext : List Char} (h : '.' ∉ (stem ++ '.' :: ext).tail) :
    stem = [] := by
  cases stem with
  | nil => rfl
  | cons c s => simp at h

/-- A versioned suffix has a dot behind its first character. -/
theorem not_versioned_of_dot_not_mem_tail (h : '.' ∉ file.tail) : ¬".so.".toList <:+: file := by
  rintro ⟨u, v, rfl⟩
  have hsplit : u ++ ".so.".toList ++ v = (u ++ ".so".toList) ++ '.' :: v := by simp
  rw [hsplit] at h
  exact absurd (eq_nil_of_dot_not_mem_tail h) (by simp)

/-- A text with a dot has one last dot. -/
theorem append_dot_inj {stem' ext ext' : List Char} (hext : '.' ∉ ext) (hext' : '.' ∉ ext') :
    stem ++ '.' :: ext = stem' ++ '.' :: ext' ↔ stem = stem' ∧ ext = ext' := by
  refine ⟨fun h ↦ ?_, fun ⟨hstem, hext⟩ ↦ by rw [hstem, hext]⟩
  have hlast : some stem = some stem' :=
    (beforeLastDot?_eq_some_iff.mpr ⟨ext, hext, rfl⟩).symm.trans
      (beforeLastDot?_eq_some_iff.mpr ⟨ext', hext', h⟩)
  obtain rfl := Option.some.inj hlast
  exact ⟨rfl, by simpa using h⟩

/-- A text ends in one extension at most. -/
theorem not_suffix_append_dot (ext : List Char) {ext' : List Char} (hext : '.' ∉ ext)
    (hext' : '.' ∉ ext') (hne : ext ≠ ext') : ¬('.' :: ext' <:+ stem ++ '.' :: ext) := by
  rintro ⟨t, ht⟩
  exact hne ((append_dot_inj hext' hext).mp ht).2.symm

theorem not_suffix_of_dot_not_mem_tail {ext : List Char} (h : '.' ∉ file.tail)
    (hne : file ≠ '.' :: ext) : ¬('.' :: ext <:+ file) := by
  rintro ⟨t, rfl⟩
  obtain rfl := eq_nil_of_dot_not_mem_tail h
  exact hne rfl

/-- **The relation is a function**: what a rule leaves is what is computed. The conditions of a rule
say that no earlier rule applies. -/
theorem Strips.eq (h : Strips file stem) : stripExtension file = stem := by
  cases h with
  | versioned version hfirst =>
    have hversion : beforeFirst? ".so.".toList (stem ++ ".so.".toList ++ version) = some stem :=
      (beforeFirst?_eq_some_iff (by decide)).mpr ⟨List.prefix_append _ version, hfirst⟩
    rw [stripExtension, hversion]
  | plain hsuffix hversion =>
    rw [stripExtension, beforeFirst?_eq_none_iff.mpr hversion]
    obtain rfl | rfl : _ = ".so".toList ∨ _ = ".dylib".toList := by simpa using hsuffix
    · rw [beforeSuffix?_eq_some_iff.mpr rfl]
    · have hso : ¬".so".toList <:+ stem ++ ".dylib".toList :=
        not_suffix_append_dot "dylib".toList (by decide) (by decide) (by decide)
      rw [beforeSuffix?_eq_none_iff.mpr hso, beforeSuffix?_eq_some_iff.mpr rfl]
  | @other _ ext hstem hext hother hversion =>
    rw [List.mem_pair, not_or] at hother
    have hso : ¬".so".toList <:+ stem ++ '.' :: ext :=
      not_suffix_append_dot ext hext (by decide) hother.1
    have hdylib : ¬".dylib".toList <:+ stem ++ '.' :: ext :=
      not_suffix_append_dot ext hext (by decide) hother.2
    rw [stripExtension, beforeFirst?_eq_none_iff.mpr hversion, beforeSuffix?_eq_none_iff.mpr hso,
      beforeSuffix?_eq_none_iff.mpr hdylib, beforeLastDot?_eq_some_iff.mpr ⟨ext, hext, rfl⟩]
    cases stem with
    | nil => exact absurd rfl hstem
    | cons c s => rfl
  | bare hdot hbare =>
    rw [List.mem_pair, not_or] at hbare
    have hso : ¬".so".toList <:+ file := not_suffix_of_dot_not_mem_tail hdot hbare.1
    have hdylib : ¬".dylib".toList <:+ file := not_suffix_of_dot_not_mem_tail hdot hbare.2
    rw [stripExtension, beforeFirst?_eq_none_iff.mpr (not_versioned_of_dot_not_mem_tail hdot),
      beforeSuffix?_eq_none_iff.mpr hso, beforeSuffix?_eq_none_iff.mpr hdylib]
    cases h : beforeLastDot? file with
    | none => rfl
    | some t =>
      obtain ⟨ext, -, rfl⟩ := beforeLastDot?_eq_some_iff.mp h
      obtain rfl := eq_nil_of_dot_not_mem_tail hdot
      rfl

/-- **And it is total**: some rule applies to every file name. -/
theorem strips_stripExtension (file : List Char) : Strips file (stripExtension file) := by
  unfold stripExtension
  split
  · next stem hversion =>
    obtain ⟨⟨version, rfl⟩, hfirst⟩ := (beforeFirst?_eq_some_iff (by decide)).mp hversion
    exact .versioned version hfirst
  next hversion =>
  rw [beforeFirst?_eq_none_iff] at hversion
  split
  · next stem hso =>
    obtain rfl := beforeSuffix?_eq_some_iff.mp hso
    exact .plain (by simp) hversion
  next hso =>
  split
  · next stem hdylib =>
    obtain rfl := beforeSuffix?_eq_some_iff.mp hdylib
    exact .plain (by simp) hversion
  next hdylib =>
  rw [beforeSuffix?_eq_none_iff] at hso hdylib
  have hbare : file ∉ [".so".toList, ".dylib".toList] := by
    rw [List.mem_pair]
    rintro (rfl | rfl)
    · exact hso (List.suffix_refl _)
    · exact hdylib (List.suffix_refl _)
  split
  · next hdot =>
    exact .bare (fun h ↦ beforeLastDot?_eq_none_iff.mp hdot (List.mem_of_mem_tail h)) hbare
  · next hdot =>
    obtain ⟨ext, hext, rfl⟩ := beforeLastDot?_eq_some_iff.mp hdot
    exact .bare hext hbare
  · next stem hstem hdot =>
    obtain ⟨ext, hext, rfl⟩ := beforeLastDot?_eq_some_iff.mp hdot
    refine .other hstem hext ?_ hversion
    rw [List.mem_pair]
    rintro (rfl | rfl)
    · exact hso (List.suffix_append _ _)
    · exact hdylib (List.suffix_append _ _)

/-- **The extension is cut off by the first rule that applies.** -/
theorem strips_iff : Strips file stem ↔ stripExtension file = stem :=
  ⟨Strips.eq, fun h ↦ h ▸ strips_stripExtension file⟩

/-! ### Stems -/

/-- A file name that is an extension and nothing else. -/
def IsBareExtension (file : List Char) : Prop :=
  ".so.".toList <+: file ∨ file = ".so".toList ∨ file = ".dylib".toList

/-- Nothing is left of a file name that is empty or a bare extension, and of no other. -/
theorem stripExtension_eq_nil_iff :
    stripExtension file = [] ↔ file = [] ∨ IsBareExtension file := by
  constructor
  · intro h
    rw [← strips_iff] at h
    cases h with
    | versioned version => exact .inr (.inl (List.prefix_append _ _))
    | plain hsuffix => exact .inr (.inr (by simpa using hsuffix))
    | other hstem => exact absurd rfl hstem
    | bare => exact .inl rfl
  · rintro (rfl | ⟨version, rfl⟩ | rfl | rfl)
    · rfl
    · show stripExtension ([] ++ ".so.".toList ++ version) = []
      exact (Strips.versioned version (by decide)).eq
    · show stripExtension ([] ++ ".so".toList) = []
      exact (Strips.plain (by simp) (by decide)).eq
    · show stripExtension ([] ++ ".dylib".toList) = []
      exact (Strips.plain (by simp) (by decide)).eq

/-- The stem of a path is what is left of its file name, if that is anything. -/
theorem libraryStem?_eq_some_iff :
    libraryStem? path = some stem ↔ stem ≠ [] ∧ Strips (fileNamePart path) stem := by
  rw [strips_iff, libraryStem?]
  split
  · next h =>
    rw [h]
    exact iff_of_false (by simp) fun ⟨hne, hnil⟩ ↦ hne hnil.symm
  · next s hne =>
    rw [Option.some.injEq]
    exact ⟨fun h ↦ ⟨fun hnil ↦ hne (h.trans hnil), h⟩, And.right⟩

/-- A path has no stem just if its file name is empty or a bare extension. -/
theorem libraryStem?_eq_none_iff :
    libraryStem? path = none ↔ fileNamePart path = [] ∨ IsBareExtension (fileNamePart path) := by
  rw [← stripExtension_eq_nil_iff, libraryStem?]
  split <;> simp_all

/-- Without a request, the table is found by the stem. -/
theorem tablePath?_of_no_request {requested : Option String}
    (h : requested = none ∨ requested = some "") (path : String) :
    tablePath? requested (some path) =
      (libraryStem? path.toList).map fun stem ↦ "/tmp/" ++ String.ofList stem ++ "_extdef.txt" := by
  have hnone : requested.filter (· ≠ "") = none := by
    obtain rfl | rfl := h <;> rfl
  rw [tablePath?, hnone]
  show (libraryStem? path.toList).bind _ = _
  cases libraryStem? path.toList with
  | none => rfl
  | some stem => simp [temporaryDirectory, tableFileName, String.append_assoc]

/-- **A derived table stays in the directory for temporary files.**

A path is a directory and a file name. Without a request, or with an empty one, there is no table
just if the file name is empty or an extension and nothing else. If there is one, it is `/tmp/`, a
stem and `_extdef.txt`. The stem is not empty, holds no separator, and begins the file name. A
request that is not empty is granted as it is, whatever the path. -/
theorem tablePath_confined (path : String) :
    (∃ directory file : String, path = directory ++ file ∧ IsDirectory directory.toList ∧
      IsFileName file.toList ∧ ∀ requested : Option String,
        requested = none ∨ requested = some "" →
          (tablePath? requested (some path) = none ↔
            file = "" ∨ ".so.".toList <+: file.toList ∨ file = ".so" ∨ file = ".dylib") ∧
          ∀ table, tablePath? requested (some path) = some table → ∃ stem : String,
            table = "/tmp/" ++ stem ++ "_extdef.txt" ∧ stem ≠ "" ∧ IsFileName stem.toList ∧
              stem.toList <+: file.toList) ∧
    ∀ (requested : String) (libraryPath : Option String), requested ≠ "" →
      tablePath? (some requested) libraryPath = some requested := by
  refine ⟨?_, fun requested libraryPath h ↦ ?_⟩
  · obtain ⟨directory, hpath, hd, hf⟩ := exists_directory path.toList
    obtain ⟨file, hfile⟩ : ∃ file : String, file.toList = fileNamePart path.toList :=
      ⟨.ofList _, String.toList_ofList⟩
    rw [← hfile] at hpath hf
    refine ⟨.ofList directory, file, ?_, by rwa [String.toList_ofList], hf,
      fun requested hrequested ↦ ?_⟩
    · rw [← String.toList_inj, hpath, String.toList_append, String.toList_ofList]
    rw [tablePath?_of_no_request hrequested]
    refine ⟨?_, fun table htable ↦ ?_⟩
    · rw [Option.map_eq_none_iff, libraryStem?_eq_none_iff, ← hfile, String.toList_eq_nil_iff,
        IsBareExtension, String.toList_inj, String.toList_inj]
    · obtain ⟨stem, hstem, rfl⟩ := Option.map_eq_some_iff.mp htable
      obtain ⟨hne, hstrips⟩ := libraryStem?_eq_some_iff.mp hstem
      have hbegin : stem <+: file.toList := hfile ▸ hstrips.isPrefix
      refine ⟨.ofList stem, rfl, by simpa using hne, ?_⟩
      rw [String.toList_ofList]
      exact ⟨fun c hc ↦ hf c (hbegin.subset hc), hbegin⟩
  · have hsome : (some requested).filter (· ≠ "") = some requested := by simpa using h
    rw [tablePath?, hsome]

/-- A path to a bare extension has no table unless one is requested. -/
theorem tablePath_confined_bare_extension :
    (some "" = none ∨ some "" = some "") ∧ tablePath? (some "") (some "/opt\\.so.2") = none ∧
      "/etc/table" ≠ "" ∧
      tablePath? (some "/etc/table") (some "/opt\\.so.2") = some "/etc/table" := by
  have hempty : some "" = none ∨ some "" = some "" := .inr rfl
  have hrequest : "/etc/table" ≠ "" := by decide
  obtain ⟨⟨directory, file, hpath, hd, hf, htable⟩, hgranted⟩ :=
    tablePath_confined "/opt\\.so.2"
  have hfile : file.toList = ".so.2".toList := by
    rw [← fileNamePart_append hd hf, ← String.toList_append, ← hpath]
    decide
  have hbare : ".so.".toList <+: file.toList := by
    rw [hfile]
    decide
  exact ⟨hempty, (htable (some "") hempty).1.mpr (.inr (.inl hbare)), hrequest,
    hgranted _ _ hrequest⟩

/-! ### Versions -/

/-- An extension without dots makes no versioned suffix with the name in front of it, unless that
name has one already. -/
theorem not_versioned_append_extension {base : List Char} (ext : List Char) (hext : '.' ∉ ext)
    (h : ¬".so.".toList <:+: base ++ ".so".toList) : ¬".so.".toList <:+: base ++ '.' :: ext := by
  rintro ⟨u, v, huv⟩
  have hsplit : (u ++ ".so".toList) ++ '.' :: v = base ++ '.' :: ext := by rw [← huv]; simp
  obtain ⟨s, rfl, hs⟩ | ⟨s, hbase, hs⟩ := List.append_eq_append_iff.mp hsplit
  · -- The suffix ends within the name, or with the dot of the extension
    refine h ?_
    cases s with
    | nil => exact ⟨u, "so".toList, by simp⟩
    | cons c s =>
      obtain ⟨rfl, -⟩ := List.cons.inj hs
      exact ⟨u, s ++ ".so".toList, by simp⟩
  · cases s with
    | nil => exact h ⟨u, "so".toList, by rw [List.append_nil] at hbase; rw [← hbase]; simp⟩
    | cons c s =>
      obtain ⟨-, rfl⟩ := List.cons.inj hs
      exact hext (by simp)

/-- The stem of a module of any version and of any kind is its name. -/
theorem strips_append_suffix {base version suffix : List Char} (hbase : base ≠ [])
    (h : ¬".so.".toList <:+: base ++ ".so".toList)
    (hsuffix : suffix ∈ [".so".toList, ".so.".toList ++ version, ".dylib".toList, ".dll".toList]) :
    Strips (base ++ suffix) base := by
  simp only [List.mem_cons, List.not_mem_nil, or_false] at hsuffix
  obtain rfl | rfl | rfl | rfl := hsuffix
  · exact .plain (by simp) h
  · rw [← List.append_assoc]
    exact .versioned version h
  · exact .plain (by simp) (not_versioned_append_extension "dylib".toList (by decide) h)
  · show Strips (base ++ '.' :: "dll".toList) base
    exact .other hbase (by decide) (by decide) (not_versioned_append_extension _ (by decide) h)

/-- **Every version of a library has the same stem,** and so the same table.

Let a library be in a directory and have a name that is not empty and holds no separator. If the
name with `.so` behind it holds no `.so.`, its stem is the name, whether it is a plain module, a
version of one, or a module of another kind. If the name has no dot behind its first character and
is no extension itself, it is also its own stem. -/
theorem stem_of_version {directory base : String} (hd : IsDirectory directory.toList)
    (hbase : base ≠ "") (hf : IsFileName base.toList) :
    (¬".so.".toList <:+: (base ++ ".so").toList → ∀ version : String,
      IsFileName version.toList → ∀ suffix ∈ [".so", ".so." ++ version, ".dylib", ".dll"],
        libraryStem? (directory ++ base ++ suffix).toList = some base.toList ∧
          ∀ requested : Option String, requested = none ∨ requested = some "" →
            tablePath? requested (some (directory ++ base ++ suffix)) =
              some ("/tmp/" ++ base ++ "_extdef.txt")) ∧
    ('.' ∉ base.toList.tail → base ≠ ".so" → base ≠ ".dylib" →
      libraryStem? (directory ++ base).toList = some base.toList) := by
  have hne : base.toList ≠ [] := by simpa using hbase
  refine ⟨fun h version hversion suffix hsuffix ↦ ?_, fun hdot hso hdylib ↦ ?_⟩
  · have hlists : suffix.toList ∈
        [".so".toList, ".so.".toList ++ version.toList, ".dylib".toList, ".dll".toList] := by
      rw [← String.toList_append]
      exact List.mem_map_of_mem (f := String.toList) hsuffix
    have hfile : IsFileName (base.toList ++ suffix.toList) := by
      refine hf.append ?_
      simp only [List.mem_cons, List.not_mem_nil, or_false] at hsuffix
      obtain rfl | rfl | rfl | rfl := hsuffix
      · decide
      · rw [String.toList_append]
        exact .append (by decide) hversion
      · decide
      · decide
    have hstem : libraryStem? (directory ++ base ++ suffix).toList = some base.toList := by
      rw [String.toList_append, String.toList_append, List.append_assoc,
        libraryStem?_eq_some_iff, fileNamePart_append hd hfile]
      rw [String.toList_append] at h
      exact ⟨hne, strips_append_suffix hne h hlists⟩
    refine ⟨hstem, fun requested hrequested ↦ ?_⟩
    rw [tablePath?_of_no_request hrequested, hstem, Option.map_some, String.ofList_toList]
  · rw [String.toList_append, libraryStem?_eq_some_iff, fileNamePart_append hd hf]
    refine ⟨hne, .bare hdot ?_⟩
    rw [List.mem_pair, String.toList_inj, String.toList_inj, not_or]
    exact ⟨hso, hdylib⟩

/-- A hidden library, and a version of it that has another suffix in it, have the same stem. -/
theorem stem_of_version_hidden :
    IsDirectory "C:\\lib\\".toList ∧ ".sum" ≠ "" ∧ IsFileName ".sum".toList ∧
      ¬".so.".toList <:+: (".sum" ++ ".so").toList ∧ IsFileName "1.so.2".toList ∧
      ".so." ++ "1.so.2" ∈ [".so", ".so." ++ "1.so.2", ".dylib", ".dll"] ∧
      libraryStem? ("C:\\lib\\" ++ ".sum" ++ (".so." ++ "1.so.2")).toList = some ".sum".toList ∧
      tablePath? none (some ("C:\\lib\\" ++ ".sum" ++ (".so." ++ "1.so.2"))) =
        some "/tmp/.sum_extdef.txt" ∧
      '.' ∉ ".sum".toList.tail ∧ ".sum" ≠ ".so" ∧ ".sum" ≠ ".dylib" ∧
      libraryStem? ("C:\\lib\\" ++ ".sum").toList = some ".sum".toList := by
  have hd : IsDirectory "C:\\lib\\".toList := by decide
  have hbase : ".sum" ≠ "" := by decide
  have hf : IsFileName ".sum".toList := by decide
  have hfirst : ¬".so.".toList <:+: (".sum" ++ ".so").toList := by decide
  have hversion : IsFileName "1.so.2".toList := by decide
  have hsuffix : ".so." ++ "1.so.2" ∈ [".so", ".so." ++ "1.so.2", ".dylib", ".dll"] := by simp
  have hdot : '.' ∉ ".sum".toList.tail := by decide
  have hso : ".sum" ≠ ".so" := by decide
  have hdylib : ".sum" ≠ ".dylib" := by decide
  obtain ⟨hversions, hbare⟩ := stem_of_version hd hbase hf
  obtain ⟨hstem, htable⟩ := hversions hfirst "1.so.2" hversion _ hsuffix
  exact ⟨hd, hbase, hf, hfirst, hversion, hsuffix, hstem, htable none (.inl rfl), hdot, hso, hdylib,
    hbare hdot hso hdylib⟩

end Interpose
