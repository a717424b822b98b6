import Interpose.FileError
import Interpose.Json.Decode
import Interpose.Json.Parser
import Interpose.Log.Record
import Interpose.Text.Blank
import Interpose.Text.Utf8

/-!
# Validating logs

A line of a log is checked in three stages, and a stage with findings ends the check. It has to be
JSON text; the text has to be an object that keeps the rules of the schema; and the object has to
decode to a record. The rules of the schema are independent of each other, so one line can break
several, and they are reported in the order in which `schemaViolations` lists them.

In a file, blank lines are passed over, and the others are trimmed, counted and checked.
-/

namespace Interpose

/-! ### Violations -/

/-- What is wrong with a line of a log. -/
inductive Violation
  /-- The line is no JSON text. -/
  | notJson (error : Json.ParseError)
  /-- The value is no object. -/
  | notObject
  /-- A required field is missing. -/
  | missing (field : String)
  /-- The level is a string that names none. -/
  | badLevel (text : String)
  /-- The outcome is a string that names none. -/
  | badOutcome (text : String)
  /-- The trace does not have three parts. -/
  | badTrace (text : String)
  /-- The event is about a key, and there is no key. -/
  | noKey (event : String)
  /-- The reason of a failure names none. -/
  | badReason (text : String)
  /-- A failure has no reason. -/
  | noReason
  /-- A field is not of its type. -/
  | undecodable (error : Json.DecodeError)
  deriving Repr

namespace Violation

/-- The field that a violation is about, or the stage in angle brackets. -/
def field : Violation → String
  | notJson _ => "<json>"
  | notObject => "<root>"
  | missing field => field
  | badLevel _ => "level"
  | badOutcome _ => "outcome"
  | badTrace _ => "trace_id"
  | noKey _ => "key"
  | badReason _ | noReason => "reason"
  | undecodable _ => "<deserialization>"

/-- A violation in words. -/
def message : Violation → String
  | notJson e => "invalid JSON: " ++ e.message
  | notObject => "expected JSON object"
  | missing _ => "required field missing"
  | badLevel text => "invalid level: '" ++ text ++ "'"
  | badOutcome text => "invalid outcome: '" ++ text ++ "'"
  | badTrace text =>
    "trace_id should follow <component>::<run_id>::<seq>, got: '" ++ text ++ "'"
  | noKey event => event ++ " events must include key"
  | badReason text => "invalid reason: '" ++ text ++ "'"
  | noReason => "bind_failed events must include reason"
  | undecodable e => "failed to deserialize: " ++ e.message

end Violation

/-- A violation with the number of its line. -/
structure Finding where
  line : Nat
  violation : Violation
  deriving Repr

/-- A finding on one line. -/
def Finding.text (f : Finding) : String :=
  "line " ++ toString f.line ++ ": field '" ++ f.violation.field ++ "': " ++ f.violation.message

/-- A finding as a JSON object. -/
def Finding.toJson (f : Finding) : Json :=
  .object [("line_number", .ofNat f.line), ("field", .string f.violation.field),
    ("message", .string f.violation.message)]

/-! ### The schema -/

/-- The number of parts of a trace, which are separated by double colons. -/
def traceParts : List Char → Nat
  | [] => 1
  | ':' :: ':' :: s => traceParts s + 1
  | _ :: s => traceParts s

/-- The fields that a record cannot do without. -/
def requiredFields : List String := ["timestamp", "trace_id", "level", "event"]

/-- The text of a member that is a string. -/
def Json.text? (field : String) (v : Json) : Option String := (v.get? field).bind Json.string?

/-- A violation of a member that is a string, if a condition does not hold of it. -/
def checkText (v : Json) (field : String) (holds : String → Bool) (violation : String → Violation) :
    List Violation :=
  match v.text? field with
  | some text => if holds text then [] else [violation text]
  | none => []

/-- What the reason of a failure violates. -/
def reasonViolations (v : Json) : List Violation :=
  match v.text? "reason" with
  | some text => if text ∈ BindError.all.map (·.name) then [] else [.badReason text]
  | none => [.noReason]

/-- The rules of the schema that an object breaks. -/
def schemaViolations (v : Json) : List Violation :=
  let event := (v.text? "event").getD ""
  (requiredFields.filter fun f ↦ (v.get? f).isNone).map .missing ++
    checkText v "level" (fun s ↦ (Level.ofName? s).isSome) .badLevel ++
    checkText v "outcome" (fun s ↦ (Outcome.ofName? s).isSome) .badOutcome ++
    checkText v "trace_id" (fun s ↦ traceParts s.toList = 3) .badTrace ++
    (if event ∈ Event.names ∧ (v.text? "key").isNone then [.noKey event] else []) ++
    (if event = "bind_failed" then reasonViolations v else [])

/-! ### Decoding -/

/-- The record of an object. Its members are decoded in the order of their keys, and the first that
fails decides. -/
def Record.decode (v : Json) : Except Json.DecodeError Record := do
  let details ← v.optional .ok "details"
  let event ← v.required Json.decodeString "event"
  let key ← v.optional Json.decodeString "key"
  let level ← v.required (Json.decodeName Level.all Level.name) "level"
  let library ← v.optional Json.decodeString "library"
  let line ← v.optional Json.decodeWord "line"
  let file ← v.optional Json.decodeString "module"
  let outcome ← v.optional (Json.decodeName Outcome.all Outcome.name) "outcome"
  let reason ← v.optional Json.decodeString "reason"
  let symbol ← v.optional Json.decodeString "symbol"
  let timestamp ← v.required Json.decodeString "timestamp"
  let trace ← v.required Json.decodeString "trace_id"
  return { timestamp, trace, level, event, key, library, file, symbol, reason, line, outcome,
           details }

/-! ### Lines and files -/

/-- The record on a line, or all that is wrong with the line. -/
def validateText (text : List Char) : Except (List Violation) Record :=
  match Json.parse text with
  | .error e => .error [.notJson e]
  | .ok (.object ms) =>
    match schemaViolations (.object ms) with
    | [] => (Record.decode (.object ms)).mapError fun e ↦ [.undecodable e]
    | vs => .error vs
  | .ok _ => .error [.notObject]

/-- The record on a numbered line, or the findings about it. -/
def validateLine (number : Nat) (text : List Char) : Except (List Finding) Record :=
  (validateText text).mapError fun vs ↦ vs.map (⟨number, ·⟩)

/-- The lines of a text that are not blank, trimmed and numbered. -/
def recordLines (text : List Char) : List (Nat × List Char) :=
  ((Text.numberedLines text).map fun l ↦ (l.1, Text.trim l.2)).filter fun l ↦ !l.2.isEmpty

/-- The number of lines of a log that are not blank, and the findings about them. -/
def validateLog (text : List Char) : Nat × List Finding :=
  let ls := recordLines text
  (ls.length, ls.flatMap fun l ↦
    match validateLine l.1 l.2 with
    | .ok _ => []
    | .error fs => fs)

/-- The result for a log file, given the outcome of reading it. -/
def validateFile (content : Except FileError (List UInt8)) :
    Except FileError (Nat × List Finding) := do
  match Text.Utf8.decode? (← content) with
  | some text => .ok (validateLog text)
  | none => .error .notUtf8

end Interpose
