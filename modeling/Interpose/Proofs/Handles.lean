import Interpose.Loader.Catalog
import Mathlib.Algebra.GroupWithZero.Nat
import Mathlib.Data.List.Nodup

/-!
# The handles of a catalog

The word of a handle is the number of an opening times `Catalog.slots`, plus a place below
`Catalog.slots` that is not zero. While the number fits 48 bits nothing wraps around, so the word
leads back to the number and to the place (`Catalog.wordOf_inj`). The place survives wrapping around
in any case, and so no word is zero: a file that is listed opens, however often
(`Catalog.openModule_cases`).

Handles that were given one after the other have the numbers one, two, three and so on, so they are
distinct (`Catalog.Numbered.nodup`).
-/

namespace Interpose.Catalog

variable {φ : Type}

/-! ### Words -/

/-- A word is what it says while the number of the opening fits. -/
theorem toNat_wordOf {k i : Nat} (hk : k < 2 ^ 48) (hi : i + 1 < slots) :
    (wordOf k i).toNat = k * slots + (i + 1) := by
  rw [wordOf, UInt64.toNat_ofNat', Nat.mod_eq_of_lt]
  simp only [slots] at *
  omega

/-- The place of a word, which does not depend on the size of the number. -/
theorem toNat_wordOf_mod (k : Nat) {i : Nat} (hi : i + 1 < slots) :
    (wordOf k i).toNat % slots = i + 1 := by
  rw [wordOf, UInt64.toNat_ofNat', Nat.mod_mod_of_dvd _ (by decide)]
  simp only [slots] at *
  omega

/-- A word in bits: the number of the opening is shifted past the place. -/
theorem wordOf_eq_or {k i : Nat} (hk : k < 2 ^ 48) (hi : i + 1 < slots) :
    wordOf k i = UInt64.ofNat k <<< 16 ||| UInt64.ofNat (i + 1) := by
  have hshift : k <<< 16 = k * slots := Nat.shiftLeft_eq k 16
  have hnumber : (UInt64.ofNat k).toNat = k := by
    rw [UInt64.toNat_ofNat', Nat.mod_eq_of_lt (by omega)]
  have hplace : (UInt64.ofNat (i + 1)).toNat = i + 1 := by
    rw [UInt64.toNat_ofNat', Nat.mod_eq_of_lt (by rw [slots] at hi; omega)]
  have hfits : k * slots < 2 ^ 64 := by
    rw [slots]
    omega
  rw [← UInt64.toNat_inj, toNat_wordOf hk hi, UInt64.toNat_or, UInt64.toNat_shiftLeft, hnumber,
    hplace, show (16 : UInt64).toNat % 64 = 16 from rfl, hshift, Nat.mod_eq_of_lt hfits, ← hshift]
  exact Nat.shiftLeft_add_eq_or_of_lt hi k

/-- The place of a word in bits. -/
theorem toNat_and_mask (word : UInt64) : (word &&& 0xFFFF).toNat = word.toNat % slots := by
  rw [UInt64.toNat_and]
  exact Nat.and_two_pow_sub_one_eq_mod word.toNat 16

theorem wordOf_ne_zero (k : Nat) {i : Nat} (hi : i + 1 < slots) : wordOf k i ≠ 0 := by
  intro h
  have hmod := toNat_wordOf_mod k hi
  rw [h] at hmod
  exact absurd hmod (by simp)

/-- **Words are distinct** while the numbers of their openings fit. -/
theorem wordOf_inj {k k' i i' : Nat} (hk : k < 2 ^ 48) (hk' : k' < 2 ^ 48) (hi : i + 1 < slots)
    (hi' : i' + 1 < slots) (h : wordOf k i = wordOf k' i') : k = k' ∧ i = i' := by
  have hnat := congrArg UInt64.toNat h
  rw [toNat_wordOf hk hi, toNat_wordOf hk' hi'] at hnat
  simp only [slots] at *
  omega

/-! ### Handles in the order in which they were given -/

/-- Each handle has the number of its place in a list, counted from one. -/
def Numbered (handles : List Handle) : Prop :=
  ∃ places : List Nat, (∀ i ∈ places, i + 1 < slots) ∧
    handles.map (·.word) = places.mapIdx fun k i ↦ wordOf (k + 1) i

theorem Numbered.nil : Numbered [] := ⟨[], by simp, rfl⟩

/-- The handle of the next opening continues the numbers. -/
theorem Numbered.concat {handles : List Handle} (h : Numbered handles) {i : Nat}
    (hi : i + 1 < slots) {handle : Handle}
    (hword : handle.word = wordOf (handles.length + 1) i) : Numbered (handles ++ [handle]) := by
  obtain ⟨places, hplaces, hmap⟩ := h
  have hlength : places.length = handles.length := by
    simpa using (congrArg List.length hmap).symm
  refine ⟨places ++ [i], ?_, ?_⟩
  · simpa [or_imp, forall_and] using ⟨hplaces, hi⟩
  · rw [List.mapIdx_concat, ← hmap, hlength, List.map_append, List.map_singleton, hword]

/-- **Handles are distinct** while the numbers fit. -/
theorem Numbered.nodup {handles : List Handle} (h : Numbered handles)
    (hfit : handles.length < 2 ^ 48) : handles.Nodup := by
  obtain ⟨places, hplaces, hmap⟩ := h
  have hlength : places.length = handles.length := by
    simpa using (congrArg List.length hmap).symm
  refine List.Nodup.of_map (·.word) ?_
  rw [hmap, List.nodup_iff_getElem?_ne_getElem?]
  intro m n hmn hn heq
  rw [List.length_mapIdx] at hn
  have hm : m < places.length := Nat.lt_trans hmn hn
  simp only [List.getElem?_mapIdx, List.getElem?_eq_getElem hm, List.getElem?_eq_getElem hn,
    Option.map_some, Option.some.injEq] at heq
  have hsame := wordOf_inj (by omega) (by omega) (hplaces _ (List.getElem_mem hm))
    (hplaces _ (List.getElem_mem hn)) heq
  omega

/-! ### What the operations come to -/

/-- A handle leads to the module at its place, whatever the number of its opening. -/
theorem moduleOf?_of_word {c : Catalog φ} {k i : Nat} (hi : i + 1 < slots) {handle : Handle}
    (hword : handle.word = wordOf k i) : c.moduleOf? handle = c.modules[i]? := by
  rw [moduleOf?, indexOf?, hword, toNat_wordOf_mod k hi]
  rfl

/-- Opening the module at an index gives the handle of the next opening. -/
theorem openAt_eq {c : Catalog φ} {i : Nat} {handle : Handle}
    (hword : Handle.ofWord? (wordOf (c.opened + 1) i) = some handle) :
    c.openAt i = (.ok handle, { c with opened := c.opened + 1 }) := by
  simp only [openAt, hword]

/-- Opening a file gives a handle with the place of the first module that is listed under it. -/
theorem openModule_of_findIdx?_eq_some {c : Catalog φ} (hc : c.modules.length < slots)
    {file : String} {i : Nat} (h : c.modules.findIdx? (·.file = file) = some i) :
    i < c.modules.length ∧ ∃ handle : Handle, handle.word = wordOf (c.opened + 1) i ∧
      c.openModule file =
        (.ok handle, { c with opens := c.opens + 1, opened := c.opened + 1 }) := by
  obtain ⟨hi, -⟩ := List.findIdx?_eq_some_iff_getElem.mp h
  have hopen : c.openModule file = { c with opens := c.opens + 1 }.openAt i := by
    simp only [openModule, h]
  have hne : wordOf (c.opened + 1) i ≠ 0 := wordOf_ne_zero _ (Nat.lt_of_le_of_lt hi hc)
  exact ⟨hi, ⟨_, hne⟩, rfl, hopen.trans (openAt_eq (Handle.ofWord?_word ⟨_, hne⟩))⟩

/-- An attempt to open a file finds no module, or gives a handle for the next opening. -/
theorem openModule_cases {c : Catalog φ} (hc : c.modules.length < slots) (file : String) :
    c.openModule file = (.error .moduleNotFound, { c with opens := c.opens + 1 }) ∨
      ∃ i handle, i < c.modules.length ∧ handle.word = wordOf (c.opened + 1) i ∧
        c.openModule file =
          (.ok handle, { c with opens := c.opens + 1, opened := c.opened + 1 }) := by
  rcases hf : c.modules.findIdx? (·.file = file) with - | i
  · exact .inl (by simp only [openModule, hf])
  · obtain ⟨hi, handle, hword, hopen⟩ := openModule_of_findIdx?_eq_some hc hf
    exact .inr ⟨i, handle, hi, hword, hopen⟩

/-- A symbol that is not found is the only way in which looking one up fails. -/
theorem resolve_cases (c : Catalog φ) (handle : Handle) (symbol : String) :
    c.resolve handle symbol = (.error .symbolNotFound, { c with resolves := c.resolves + 1 }) ∨
      ∃ function,
        c.resolve handle symbol = (.ok function, { c with resolves := c.resolves + 1 }) := by
  rw [resolve]
  rcases (c.moduleOf? handle).bind (·.function? symbol) with - | function
  · exact .inl rfl
  · exact .inr ⟨function, rfl⟩

end Interpose.Catalog
