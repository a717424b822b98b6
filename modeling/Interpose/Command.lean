import Interpose.Command.Help
import Interpose.Table.Line

/-!
# Commands

The commands of the command line and how they are written. A command is its name followed by
options, and an option is `--name value` or `--name=value`. A value that stands by itself must not
begin with a dash, a single dash excepted. Options that are not repeatable may be given once; paths
must not be empty; and `--` may end the command line.

Help can be asked for instead of a command, in place of an option, or by the word `help` and the
name of a command. What follows the request is not looked at; what precedes it must be in order,
except that nothing need be given yet.

`Request.ofWords?` yields nothing for a command line that is not of this form.
-/

namespace Interpose

/-- What can be done on the command line. -/
inductive Command
  /-- Lint a table, against the given keys if there are any. -/
  | checkConfig (config : String) (policy : NamePolicy) (keys : List String)
      (output : Option String)
  /-- Try a table out on the given keys. -/
  | probe (config : String) (policy : NamePolicy) (keys : List String) (log : Option String)
      (run : String)
  /-- Validate a log. -/
  | validateLog (log : String)
  deriving DecidableEq, Repr

/-! ### Words -/

/-- Whether a word is taken for an option where a value could stand. -/
def looksLikeOption (word : String) : Bool := word.startsWith "-" && word ≠ "-"

/-- Whether a word asks for help. Behind a single dash the first letter decides. -/
def asksForHelp (word : String) : Bool := word = "--help" || word.startsWith "-h"

/-- The name of an option, with the value attached to it, if there is one. -/
def splitOption? (word : String) : Option (String × Option String) :=
  match word.toList with
  | '-' :: '-' :: name =>
    match name.span (· ≠ '=') with
    | (_, []) => some (String.ofList name, none)
    | (name, _ :: value) => some (String.ofList name, some (String.ofList value))
  | _ => none

/-! ### Options -/

/-- The options behind the name of a command, each with its value, up to a request for help. -/
structure GivenOptions where
  values : List (String × String) := []
  endsInHelp : Bool := false
  deriving DecidableEq, Repr

namespace GivenOptions

/-- The options with one more in front. -/
def cons (name value : String) (g : GivenOptions) : GivenOptions :=
  { g with values := (name, value) :: g.values }

/-- The options that are written on a command line. -/
def ofWords? : List String → Option GivenOptions
  | [] => some {}
  | ["--"] => some {}
  | word :: words =>
    if asksForHelp word then some { endsInHelp := true }
    else
      match splitOption? word with
      | none => none
      | some (name, some value) => (ofWords? words).map (cons name value)
      | some (name, none) =>
        match words with
        | [] => none
        | value :: words =>
          if looksLikeOption value then none else (ofWords? words).map (cons name value)

/-- The values of an option, in order. -/
def valuesOf (g : GivenOptions) (name : String) : List String :=
  (g.values.filter (·.1 = name)).map (·.2)

/-- The value of an option that is given once. -/
def value? (g : GivenOptions) (name : String) : Option String := (g.valuesOf name).head?

/-- Whether values can be given to an option. -/
def admits (o : CommandOption) (values : List String) : Bool :=
  (o.repeatable || values.length ≤ 1) && !(o.isPath && values.contains "")

/-- Whether the options are all among some options and have values that these can be given. -/
def fits (g : GivenOptions) (options : List CommandOption) : Bool :=
  g.values.all (fun v ↦ options.any (·.name = v.1)) &&
    options.all fun o ↦ admits o (g.valuesOf o.name)

/-! ### Commands -/

/-- The value of an option that has one even if it is not given. -/
def valueOf (g : GivenOptions) (o : CommandOption) : String :=
  (g.value? o.name).getD (o.default?.getD "")

/-- The policy of a command. -/
def policy (g : GivenOptions) : NamePolicy := .ofSetting (g.valueOf CommandName.policyOption)

/-- The command of a name with options, unless a necessary option is missing. -/
def command? (g : GivenOptions) : CommandName → Option Command
  | .checkConfig => do
    let config ← g.value? "config"
    let keys := (g.valuesOf "keys").flatMap (·.splitOn ",")
    some (.checkConfig config g.policy keys (g.value? "output"))
  | .probe => do
    let config ← g.value? "config"
    match g.valuesOf "key" with
    | [] => none
    | keys =>
      some (.probe config g.policy keys (g.value? "log") (g.valueOf CommandName.runOption))
  | .validateLog => do
    let log ← g.value? "log"
    some (.validateLog log)

end GivenOptions

/-! ### Requests -/

/-- What can be asked for on the command line. -/
inductive Request
  /-- To be shown a page of help. -/
  | help (page : HelpPage)
  /-- To have a command run. -/
  | run (command : Command)
  deriving DecidableEq, Repr

namespace Request

/-- The request of a command with options, if they are in order. -/
def ofOptions? (name : CommandName) (given : GivenOptions) : Option Request :=
  if !given.fits name.options then none
  else if given.endsInHelp then some (help (.command name))
  else (given.command? name).map run

/-- The request on a command line. -/
def ofWords? : List String → Option Request
  | [] => none
  | "help" :: words => (HelpPage.ofWords? words).map help
  | word :: words =>
    if asksForHelp word then some (help .program)
    else do ofOptions? (← CommandName.ofWord? word) (← GivenOptions.ofWords? words)

end Request

end Interpose
