import Interpose.Command.Usage

/-!
# Help

The pages that describe the program and its commands. A page says what is described, how it is
written, and what can be written with it; the last is set in two columns, of which the first is as
wide as its longest entry.

The name of the program is whatever it goes by, so a page is written for a name.
-/

namespace Interpose

/-- What a page of help describes. -/
inductive HelpPage
  | program
  | command (name : CommandName)
  | help
  deriving DecidableEq, Repr

namespace HelpPage

/-- The page of what is named behind the request for help. -/
def ofWords? : List String → Option HelpPage
  | [] => some program
  | ["help"] => some help
  | [word] => (CommandName.ofWord? word).map command
  | _ => none

/-! ### Columns -/

/-- A heading with rows below it, each an entry and what there is to say about it. -/
def listing (heading : String) (rows : List (String × String)) : String :=
  let width := rows.foldl (fun w row ↦ max w row.1.length) 0
  "\n".intercalate
    (heading :: rows.map fun (entry, about) ↦
      "  " ++ entry.pushn ' ' (width - entry.length) ++ "  " ++ about)

/-- The option that asks for help. -/
def helpRow : String × String := ("-h, --help", "Print help")

/-- What there is to say about the request for help. -/
def helpAbout : String := "Print this message or the help of the given subcommand(s)"

/-- An option with the stand-in for its value. -/
def optionText (o : CommandOption) : String := "--" ++ o.name ++ " <" ++ o.placeholder ++ ">"

/-- An option among others. -/
def optionRow (o : CommandOption) : String × String :=
  let default := match o.default? with
    | some value => " [default: " ++ value ++ "]"
    | none => ""
  ("    " ++ optionText o, o.about ++ default)

/-! ### Pages -/

/-- What follows the name of a command: a mark for the options that can be left out, and those that
cannot. -/
def usage (options : List CommandOption) : String :=
  let (needed, free) := options.partition (·.required)
  (if free.isEmpty then "" else " [OPTIONS]") ++
    String.join (needed.map fun o ↦ " " ++ optionText o)

/-- The parts of a page. -/
def parts (program : String) : HelpPage → List String
  | .program =>
    ["Lint override tables, probe resolution, validate logs",
      "Usage: " ++ program ++ " <COMMAND>",
      listing "Commands:"
        (CommandName.all.map (fun c ↦ (c.word, c.about)) ++ [("help", helpAbout)]),
      listing "Options:" [helpRow]]
  | .command name =>
    [name.about,
      "Usage: " ++ program ++ " " ++ name.word ++ usage name.options,
      listing "Options:" (name.options.map optionRow ++ [helpRow])]
  | .help =>
    [helpAbout,
      "Usage: " ++ program ++ " help [COMMAND]...",
      listing "Arguments:" [("[COMMAND]...", "Print help for the subcommand(s)")]]

/-- The text of a page for the name that the program goes by. -/
def text (program : String) (page : HelpPage) : String :=
  "\n\n".intercalate (page.parts program) ++ "\n"

end HelpPage

end Interpose
