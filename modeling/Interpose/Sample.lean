import Interpose.Dispatch

/-!
# The sample function

The one function that a library exports to be overridden, with the calls by which other programs
reach it. By itself it adds; the module made to override it multiplies. Both wrap around at 32 bits,
and both refuse to be called without a place for the result, before anything else happens.

A call is modelled by its `Reply`: the return code, and the number that was written, if any.
-/

namespace Interpose

variable {σ φ : Type}

/-- What a call left behind. -/
structure Reply where
  code : Int32
  written : Option Int32 := none
  deriving DecidableEq, Repr

namespace Reply

/-- A successful reply. -/
def ok (result : Int32) : Reply := { code := 0, written := some result }

/-- The reply to a call without a place for the result. -/
def misuse (e : MisuseError) : Reply := { code := e.returnCode }

end Reply

namespace Sample

/-- The key of the sample function. -/
def key : String := "sample_func"

/-- The sum of two numbers. -/
def sum (a b : Int32) : Reply := .ok (a + b)

/-- The product of two numbers. -/
def product (a b : Int32) : Reply := .ok (a * b)

/-- A function of two numbers and a place for the result, which may be missing. -/
def withOutput (hasOutput : Bool) (f : Int32 → Int32 → Reply) (a b : Int32) : Reply :=
  if hasOutput then f a b else .misuse .nullOutput

/-- A library that has just been loaded into a process. -/
def host (loader : σ) (policy : NamePolicy) : Host σ φ :=
  { registry := .ofKeys [key], loader, policy }

/-- Calls the sample function. `call` is how functions of the loader are called. -/
def call [Loader σ φ] (call : φ → Int32 → Int32 → Reply) (hasOutput : Bool) (a b : Int32)
    (h : Host σ φ) : Step σ φ Reply :=
  if hasOutput then
    (h.dispatchOrDefault 0).map (Choice.run (fun f ↦ call f a b) (fun _ ↦ sum a b))
  else { result := .misuse .nullOutput, host := h }

/-- The text up to the first NUL, if it is well-formed. -/
def keyOfBytes? (bytes : List UInt8) : Option String :=
  (Text.Utf8.decode? (bytes.takeWhile (· ≠ 0))).map String.ofList

/-- Tells whether a key, given by its bytes, is overridden: one if it is, zero if it is not, and
minus one if there is no such key. -/
def overriddenCode [Loader σ φ] (bytes : Option (List UInt8)) (h : Host σ φ) : Step σ φ Int32 :=
  match (bytes.bind keyOfBytes?).bind h.registry.find? with
  | none => { result := -1, host := h }
  | some i => (h.isOverridden i).map fun yes ↦ if yes then 1 else 0

end Sample

end Interpose
