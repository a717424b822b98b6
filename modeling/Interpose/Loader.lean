import Interpose.State

/-!
# Loaders

A loader opens modules by file name, finds symbols in open modules and closes modules again. An open
module is known by a **handle**, a nonzero word that only its loader can interpret; a found symbol
is a function of whatever type `φ` the loader deals in.

A loader is data that its operations take and return, so what a client does to it is visible in the
results: nothing else changes it.
-/

namespace Interpose

/-- A word that stands for an open module. Zero stands for none. -/
structure Handle where
  word : UInt64
  ne_zero : word ≠ 0
  deriving DecidableEq, Repr

namespace Handle

/-- The handle of a word, unless the word is zero. -/
def ofWord? (word : UInt64) : Option Handle :=
  if h : word ≠ 0 then some ⟨word, h⟩ else none

@[simp] theorem ofWord?_word (h : Handle) : ofWord? h.word = some h := by
  simp [ofWord?, h.ne_zero]

theorem ofWord?_eq_none_iff {word : UInt64} : ofWord? word = none ↔ word = 0 := by
  simp [ofWord?]

end Handle

/-- What opens modules and finds functions of type `φ` in them. -/
class Loader (σ : Type) (φ : outParam Type) where
  /-- Opens the module in a file. -/
  openModule : String → σ → Except BindError Handle × σ
  /-- Finds a symbol in an open module. -/
  resolve : Handle → String → σ → Except BindError φ × σ
  /-- Closes a module. -/
  close : Handle → σ → σ

end Interpose
