import Interpose.Command.Run
import Interpose.Loader.Platform
import Std.Time.DateTime.Timestamp

/-!
# The command line

The program: it reads the command line, runs the command on the files of the computer, and prints
what the command leaves behind. No modules are linked into it, so every override it probes is one
whose module is missing.
-/

namespace Interpose

/-- The number of an error, which some calls report negated. -/
def errorNumber (n : UInt32) : Nat := (if n < 0x80000000 then n else 0 - n).toNat

/-- The cause of an error of the operating system. -/
def FileError.ofSystem : IO.Error → FileError
  | .alreadyExists _ n words | .resourceBusy n words | .resourceVanished n words
  | .unsupportedOperation n words | .hardwareFault n words | .unsatisfiedConstraints n words
  | .illegalOperation n words | .protocolError n words | .timeExpired n words
  | .interrupted _ n words | .noFileOrDirectory _ n words | .invalidArgument _ n words
  | .permissionDenied _ n words | .resourceExhausted _ n words | .inappropriateType _ n words
  | .noSuchThing _ n words | .otherError n words => ofNumber (errorNumber n) words
  | .unexpectedEof => other 0 "unexpected end of file"
  | .userError words => other 0 words

/-- The result of an action on a path, or the cause for which it failed. -/
def onPath {α : Type} (path : String) (act : IO α) : IO (Except FileError α) := do
  if path.contains '\x00' then return .error .nulInName
  try return .ok (← act) catch e => return .error (FileError.ofSystem e)

instance : Files IO where
  read path := onPath path do return (← IO.FS.readBinFile path).toList
  write path text := onPath path (IO.FS.writeFile path text)
  createDirs path := onPath path (if path = "" then pure () else IO.FS.createDirAll path)
  now := do return ⟨(← Std.Time.Timestamp.now).toMillisecondsSinceUnixEpoch.val⟩

end Interpose

/-- Does what the command line asks for. -/
def main (words : List String) : IO UInt32 := do
  match Interpose.Request.ofWords? words with
  | none =>
    IO.eprint (Interpose.HelpPage.program.text "interpose")
    return 2
  | some (.help page) =>
    IO.print (page.text "interpose")
    return 0
  | some (.run command) =>
    let loader : Interpose.Platform Empty := {}
    let exit ← command.run loader
    IO.print exit.output
    IO.eprint exit.errors
    return UInt32.ofNat exit.code
