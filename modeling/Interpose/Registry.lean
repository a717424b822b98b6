import Interpose.Resolution
import Interpose.Table

/-!
# Registries

A registry is the fixed sequence of a host's entries. Its keys should be distinct, and
`Registry.validate` says whether they are; a registry whose keys are not can be used all the same,
and then a key stands for the first entry that carries it.

The operations on a whole registry go through the entries in order and hand the loader on.
-/

namespace Interpose

variable {σ φ : Type}

/-- A sequence of entries. -/
structure Registry (φ : Type) where
  entries : List (Entry φ)
  deriving Repr, Inhabited

/-- Why a registry is not valid. -/
inductive RegistryError
  /-- Two entries carry the key. -/
  | duplicateKey (key : String)
  deriving DecidableEq, Repr

/-- The error in words. -/
def RegistryError.message : RegistryError → String
  | duplicateKey key => "duplicate registry key `" ++ key ++ "`"

/-- The structured form of the error. -/
def RegistryError.details : RegistryError → String
  | duplicateKey key => "DuplicateKey \x7b key: " ++ Text.quoted key ++ " \x7d"

namespace Registry

/-! ### Keys -/

/-- The registry of fresh entries with the given keys. -/
def ofKeys (keys : List String) : Registry φ := ⟨keys.map fun key ↦ { key := key }⟩

/-- The keys in order. -/
def keys (r : Registry φ) : List String := r.entries.map (·.key)

/-- The first member of a list that occurs before, be it in the list or in `seen`. -/
def firstRepeated? (seen : List String) : List String → Option String
  | [] => none
  | key :: keys => if key ∈ seen then some key else firstRepeated? (key :: seen) keys

/-- Whether the keys are distinct, and the first that is not. -/
def validate (r : Registry φ) : Except RegistryError Unit :=
  match firstRepeated? [] r.keys with
  | some key => .error (.duplicateKey key)
  | none => .ok ()

/-- The index of the first entry with a key. -/
def find? (r : Registry φ) (key : String) : Option Nat := r.entries.findIdx? (·.key = key)

@[simp] theorem keys_ofKeys (keys : List String) : (ofKeys keys : Registry φ).keys = keys := by
  simp [ofKeys, Registry.keys, Function.comp_def]

/-! ### Applying tables -/

/-- The entries with a new target for the first one with a key, if there is one, and whether it was
taken. -/
def configureFirst (key : String) (target : Target) :
    List (Entry φ) → Option (Bool × List (Entry φ))
  | [] => none
  | e :: es =>
    if e.key = key then
      let (taken, e) := e.configure target
      some (taken, e :: es)
    else (configureFirst key target es).map fun (taken, es) ↦ (taken, e :: es)

/-- The registry after a line of a table, and what happened. A line for an entry whose state is
terminal has no effect. -/
def applyLine (r : Registry φ) (line : Table.Line) : Registry φ × Option Event :=
  let a := line.assignment
  match configureFirst a.key a.target r.entries with
  | none => (r, some (.unknownKey a.key line.number))
  | some (true, entries) => (⟨entries⟩, some (.configured a.key a.target))
  | some (false, _) => (r, none)

/-- The registry after the lines of a table in order, and what happened. -/
def applyLines (r : Registry φ) : List Table.Line → Registry φ × List Event
  | [] => (r, [])
  | line :: lines =>
    let (r, event) := r.applyLine line
    let (r, events) := r.applyLines lines
    (r, event.toList ++ events)

/-! ### Resolving -/

/-- A registry and the loader it was resolved with, together with what happened. -/
structure Resolved (σ φ : Type) where
  registry : Registry φ
  loader : σ
  events : List Event

/-- The entries after each of them was asked for its function. -/
def getAll [Loader σ φ] : List (Entry φ) → σ → Resolved σ φ
  | [], loader => ⟨⟨[]⟩, loader, []⟩
  | e :: es, loader =>
    let first := e.get loader
    let others := getAll es first.loader
    ⟨⟨first.entry :: others.registry.entries⟩, others.loader,
      first.event.toList ++ others.events⟩

/-- The registry with all entries settled. -/
def resolveAll [Loader σ φ] (r : Registry φ) (loader : σ) : Resolved σ φ :=
  getAll r.entries loader

/-- How many entries are failed. -/
def failures (r : Registry φ) : Nat := r.entries.countP (·.state.failure?.isSome)

/-! ### Releasing -/

/-- The entries without their handles, the loader that got the handles back, and their number. -/
def releaseAll [Loader σ φ] : List (Entry φ) → σ → List (Entry φ) × σ × Nat
  | [], loader => ([], loader, 0)
  | e :: es, loader =>
    match e.release with
    | (some h, released) =>
      let (others, loader, closed) := releaseAll es (Loader.close h loader)
      (released :: others, loader, closed + 1)
    | (none, released) =>
      let (others, loader, closed) := releaseAll es loader
      (released :: others, loader, closed)

/-- The registry with all modules closed, the loader, and the number of modules closed. -/
def dispose [Loader σ φ] (r : Registry φ) (loader : σ) : Registry φ × σ × Nat :=
  let (entries, loader, closed) := releaseAll r.entries loader
  (⟨entries⟩, loader, closed)

end Registry

end Interpose
