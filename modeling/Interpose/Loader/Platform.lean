import Interpose.Loader

/-!
# Platform loaders

The loader of the operating system, reduced to what can be seen through it: which files it opens as
modules, and which functions they export. It keeps no count of anything. All openings of one file
share a handle, which is the file's place in the list, counted from one.

File and symbol names are passed on as they are. Those that hold a NUL match none that the system
knows, so they need no case of their own.
-/

namespace Interpose

/-- The modules that the operating system can open, with their exports. -/
structure Platform (φ : Type) where
  modules : List (String × List (String × φ)) := []
  deriving Repr, Inhabited

namespace Platform

variable {φ : Type}

/-- The handle of a file. -/
def openModule (file : String) (p : Platform φ) : Except BindError Handle :=
  match p.modules.findIdx? (·.1 = file) with
  | none => .error .moduleNotFound
  | some index =>
    match Handle.ofWord? (UInt64.ofNat (index + 1)) with
    | some h => .ok h
    | none => .error .moduleNotFound

/-- The function of a symbol in an open module. -/
def resolve (h : Handle) (symbol : String) (p : Platform φ) : Except BindError φ :=
  match p.modules[h.word.toNat - 1]?.bind fun m ↦ m.2.find? (·.1 = symbol) with
  | some entry => .ok entry.2
  | none => .error .symbolNotFound

instance : Loader (Platform φ) φ where
  openModule file p := (openModule file p, p)
  resolve h symbol p := (resolve h symbol p, p)
  close _ p := p

end Platform

end Interpose
