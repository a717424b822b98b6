/-!
# The commands and their options

What can be written on a command line: the commands, and for each of them its options. A command
line is read by these lists (`Request.ofWords?`) and described by them (`HelpPage.text`), so the
description of a command names exactly the options that it takes.
-/

namespace Interpose

/-- An option of a command, which is given as `--name value`. -/
structure CommandOption where
  name : String
  /-- What stands for the value in a description. -/
  placeholder : String
  about : String
  required : Bool := false
  /-- The value of an option that is not given. -/
  default? : Option String := none
  /-- Whether the option may be given more than once. -/
  repeatable : Bool := false
  /-- Whether the value is a path, which must not be empty. -/
  isPath : Bool := false
  deriving DecidableEq, Repr

/-- The commands, without what they are given. -/
inductive CommandName
  | checkConfig
  | probe
  | validateLog
  deriving DecidableEq, Repr

namespace CommandName

/-- All commands, in the order in which they are described. -/
def all : List CommandName := [checkConfig, probe, validateLog]

/-- The word for a command. -/
def word : CommandName → String
  | checkConfig => "check-config"
  | probe => "probe"
  | validateLog => "validate-log"

/-- The command of a word. -/
def ofWord? (word : String) : Option CommandName := all.find? (·.word = word)

/-- What a command does. -/
def about : CommandName → String
  | checkConfig => "Parse an override table and report problems without loading anything"
  | probe => "Register keys, apply a table, bind through the platform loader, report"
  | validateLog => "Validate a structured JSONL log file"

/-! ### Options -/

/-- The table that a command reads. -/
def configOption : CommandOption :=
  { name := "config", placeholder := "CONFIG", about := "Override table path"
    required := true, isPath := true }

/-- What is done with names that are too long. -/
def policyOption : CommandOption :=
  { name := "policy", placeholder := "POLICY", default? := some "truncate"
    about := "Over-length name policy (`truncate` or `reject`)" }

/-- The run that a log speaks of. -/
def runOption : CommandOption :=
  { name := "run-id", placeholder := "RUN_ID", default? := some "probe"
    about := "Run identifier used in trace ids" }

/-- The options of a command, in the order in which they are described. -/
def options : CommandName → List CommandOption
  | checkConfig =>
    [configOption,
      policyOption,
      { name := "keys", placeholder := "KEYS", repeatable := true
        about := "Keys the host registers; lines naming other keys are flagged" },
      { name := "output", placeholder := "OUTPUT", isPath := true
        about := "Output JSON path (if omitted, prints to stdout)" }]
  | probe =>
    [configOption,
      { name := "key", placeholder := "KEYS", required := true, repeatable := true
        about := "Key to register (repeatable)" },
      policyOption,
      { name := "log", placeholder := "LOG", isPath := true
        about := "Structured JSONL log output path" },
      runOption]
  | validateLog =>
    [{ name := "log", placeholder := "LOG", required := true, isPath := true
       about := "JSONL log path" }]

/-- A command is read back from its word. -/
@[simp] theorem ofWord?_word (c : CommandName) : ofWord? c.word = some c := by
  cases c <;> decide

/-- Only its own word is read as a command. -/
theorem eq_word_of_ofWord? {word : String} {c : CommandName} (h : ofWord? word = some c) :
    word = c.word := by
  have found := List.find?_some h
  exact (of_decide_eq_true found).symm

end CommandName

end Interpose
