import Interpose.Loader
import Interpose.ModuleName

/-!
# Catalogs

A catalog is a loader whose modules are listed in advance, and which counts what is asked of it.

A module is listed under its file name with the symbols it exports. A symbol may be listed several
times, and the first listing counts; one that is listed without a function is not found.

Each opening gets a handle of its own. Its word is the number of the opening, counted from one,
times `slots`, plus the module's place in the catalog, also counted from one. So a handle leads back
to its module, and no two openings share a handle while the numbers fit. `withModule?` and
`withSymbol?` see to it that the places do: they refuse to list a module that would not get one.
-/

namespace Interpose

/-- A module with its exports, in the order in which they were listed. -/
structure Catalog.Module (φ : Type) where
  file : String
  exports : List (String × Option φ) := []
  deriving Repr

/-- Modules, and how often each operation was asked for. -/
structure Catalog (φ : Type) where
  modules : List (Catalog.Module φ) := []
  opens : Nat := 0
  opened : Nat := 0
  resolves : Nat := 0
  closes : Nat := 0
  deriving Repr, Inhabited

namespace Catalog

variable {φ : Type}

/-! ### Listing modules -/

/-- The file name under which a library is listed, which is not limited in length. -/
def fileOf (library : String) : String := library ++ moduleSuffix

/-- The modules with one of a file name among them. -/
def ensure (file : String) (ms : List (Module φ)) : List (Module φ) :=
  if ms.any (·.file = file) then ms else ms ++ [{ file := file }]

/-- The modules after an export was added to the one of a file name. -/
def addExport (file : String) (entry : String × Option φ) (ms : List (Module φ)) :
    List (Module φ) :=
  ms.map fun m ↦ if m.file = file then { m with exports := m.exports ++ [entry] } else m

/-- A catalog with a library listed. -/
def withModule (c : Catalog φ) (library : String) : Catalog φ :=
  { c with modules := ensure (fileOf library) c.modules }

/-- A catalog with one more symbol of a library listed. -/
def withSymbol (c : Catalog φ) (library symbol : String) (function : Option φ) : Catalog φ :=
  { c with modules := addExport (fileOf library) (symbol, function) (c.withModule library).modules }

/-! ### Handles -/

/-- One more than the greatest place that a handle can hold. -/
def slots : Nat := 65536

/-- A catalog with a library listed, unless its module is a new one and all places are taken. -/
def withModule? (c : Catalog φ) (library : String) : Option (Catalog φ) :=
  if c.modules.any (·.file = fileOf library) || c.modules.length < slots - 1 then
    some (c.withModule library)
  else none

/-- A catalog with one more symbol of a library listed, unless that takes a place and all are
taken. -/
def withSymbol? (c : Catalog φ) (library symbol : String) (function : Option φ) :
    Option (Catalog φ) :=
  (c.withModule? library).map fun _ ↦ c.withSymbol library symbol function

/-- The word of an opening of the module at an index. -/
def wordOf (opening index : Nat) : UInt64 := UInt64.ofNat (opening * slots + (index + 1))

/-- The index of the module of a handle, if the handle has a place. -/
def indexOf? (h : Handle) : Option Nat :=
  match h.word.toNat % slots with
  | 0 => none
  | place + 1 => some place

/-- The module of a handle. -/
def moduleOf? (c : Catalog φ) (h : Handle) : Option (Module φ) :=
  (indexOf? h).bind (c.modules[·]?)

/-- The function of a symbol, by its first listing. -/
def Module.function? (m : Module φ) (symbol : String) : Option φ :=
  (m.exports.find? (·.1 = symbol)).bind (·.2)

/-! ### Operations -/

/-- The handle for one more opening of the module at an index, and the catalog after it. -/
def openAt (index : Nat) (c : Catalog φ) : Except BindError Handle × Catalog φ :=
  let given :=
    match Handle.ofWord? (wordOf (c.opened + 1) index) with
    | some h => .ok h
    | none => .error .moduleNotFound
  (given, { c with opened := c.opened + 1 })

/-- The catalog after an attempt to open a file. -/
def openModule (file : String) (c : Catalog φ) : Except BindError Handle × Catalog φ :=
  let asked := { c with opens := c.opens + 1 }
  match c.modules.findIdx? (·.file = file) with
  | none => (.error .moduleNotFound, asked)
  | some index => asked.openAt index

/-- The catalog after an attempt to find a symbol. -/
def resolve (h : Handle) (symbol : String) (c : Catalog φ) : Except BindError φ × Catalog φ :=
  let found :=
    match (c.moduleOf? h).bind (·.function? symbol) with
    | some function => .ok function
    | none => .error .symbolNotFound
  (found, { c with resolves := c.resolves + 1 })

/-- The catalog after a module was closed. -/
def close (_ : Handle) (c : Catalog φ) : Catalog φ := { c with closes := c.closes + 1 }

instance : Loader (Catalog φ) φ where
  openModule := openModule
  resolve := resolve
  close := close

/-- How many handles were given out and not given back. -/
def live (c : Catalog φ) : Nat := c.opened - c.closes

/-- No operation changes what is listed. -/
@[simp] theorem modules_openModule (file : String) (c : Catalog φ) :
    (c.openModule file).2.modules = c.modules := by
  unfold openModule
  dsimp only
  split <;> rfl

@[simp] theorem modules_resolve (h : Handle) (symbol : String) (c : Catalog φ) :
    (c.resolve h symbol).2.modules = c.modules := rfl

@[simp] theorem modules_close (h : Handle) (c : Catalog φ) :
    (c.close h).modules = c.modules := rfl

end Catalog

end Interpose
