import Interpose.Command
import Interpose.Files
import Interpose.Files.Path
import Interpose.Lint
import Interpose.Log.Validation
import Interpose.Probe

/-!
# Running commands

What a command does to files, what it prints, and the code with which it exits. A command that fails
prints the structured form of the error, or the quoted text of one that has none.

The log of a probe is begun before the table is read and completed when the probe is over, also when
it is refused. So a table that is read from its own log is empty, unless the first record is so long
that it is not held back.
-/

namespace Interpose

/-- What a command leaves behind, besides files. -/
structure Exit where
  code : Nat := 0
  output : String := ""
  errors : String := ""
  deriving DecidableEq, Repr

namespace Exit

/-- An exit with the code of a failure and one more line among the errors. -/
def failing (details : String) (o : Exit) : Exit :=
  { o with code := 1, errors := o.errors ++ "Error: " ++ details ++ "\n" }

/-- An exit with one more line among the errors. -/
def warning (line : String) (o : Exit) : Exit := { o with errors := o.errors ++ line ++ "\n" }

end Exit

namespace Command

variable {m : Type → Type} [Monad m] [Files m] {σ φ : Type}

/-! ### Linting -/

/-- Writes a text to a file in a directory that need not exist. -/
def writeInto (path text : String) : m (Except FileError Unit) := do
  match Path.parent? path with
  | none => Files.write path text
  | some directory =>
    match ← Files.createDirs directory with
    | .error e => return .error e
    | .ok () => Files.write path text

/-- The complaint about a table that is not clean. -/
def complaint (config : String) (lint : Lint) : String :=
  config ++ ": " ++ toString lint.skipped.length ++ " skipped line(s), " ++
    toString lint.unknownKeys.length ++ " unknown key(s)"

/-- Prints a text, or writes it to a file. -/
def deliver (text : String) : Option String → m (Except FileError Exit)
  | none => return .ok { output := text ++ "\n" }
  | some path => do
    match ← writeInto path text with
    | .error e => return .error e
    | .ok () => return .ok {}

/-- Lints the table in a file. -/
def checkConfigFile (config : String) (policy : NamePolicy) (keys : List String)
    (output : Option String) : m Exit := do
  let known := if keys.isEmpty then none else some keys
  match Lint.ofFile known policy ⟨config, ← Files.read config⟩ with
  | .error e => return Exit.failing e.details {}
  | .ok lint =>
    match ← deliver lint.toJson.pretty output with
    | .error e => return Exit.failing e.details {}
    | .ok exit =>
      if lint.isClean then return exit
      else return exit.failing (Text.quoted (complaint config lint))

/-! ### Probing -/

/-- A record of a probe itself, with one detail. -/
def milestone (now : Instant) (event key : String) (value : Json) : Record :=
  { Record.bare now "" .info event with details := some (.object [(key, value)]) }

/-- The exit of a probe that was not refused. -/
def probed (p : ProbeReport) (refusedWrites : Nat) : Exit :=
  let exit : Exit := { output := p.toJson.pretty ++ "\n" }
  if refusedWrites = 0 then exit
  else exit.warning ("warning: " ++ toString refusedWrites ++ " log write(s) failed")

/-- Probes keys with the table in a file, without a log. -/
def probeSilently [Loader σ φ] (loader : σ) (config : String) (policy : NamePolicy)
    (keys : List String) : m Exit := do
  let host : Host σ φ := { registry := ⟨[]⟩, loader, policy }
  match (host.probe keys ⟨config, ← Files.read config⟩).result with
  | .error e => return Exit.failing e.details {}
  | .ok p => return probed p 0

/-- Probes keys with the table in a file, and completes the log. -/
def probeInto [Loader σ φ] (log config : String) (keys : List String) (session : Session σ φ) :
    m Exit := do
  let file ← Files.read config
  match { session with clock := ← Files.now }.probe keys ⟨config, file⟩ with
  | (.error e, session) =>
    let _ ← Files.write log session.journal.sink.text
    return Exit.failing e.details {}
  | (.ok p, session) =>
    let (_, journal) := session.journal.emit
      (milestone (← Files.now) "probe_end" "closed" (.ofNat p.closed))
    match ← Files.write log journal.sink.text with
    | .error e => return Exit.failing e.details {}
    | .ok () => return probed p journal.refused

/-- Probes keys with the table in a file, with a log. -/
def probeLogged [Loader σ φ] (loader : σ) (config : String) (policy : NamePolicy)
    (keys : List String) (log run : String) : m Exit := do
  let (_, journal) := Journal.emit { component := "probe", run }
    (milestone (← Files.now) "probe_start" "config" (.string config))
  match ← Files.write log journal.sink.reached with
  | .error e => return Exit.failing e.details {}
  | .ok () =>
    let host : Host σ φ := { registry := ⟨[]⟩, loader, policy }
    probeInto log config keys { host, journal }

/-! ### Validating -/

/-- Validates the log in a file. -/
def validateLogFile (log : String) : m Exit := do
  match validateFile (← Files.read log) with
  | .error e => return Exit.failing e.details {}
  | .ok (count, []) => return Exit.warning (log ++ ": " ++ toString count ++ " line(s) ok") {}
  | .ok (count, findings) =>
    let listed := findings.foldl (fun o f ↦ o.warning f.text) ({} : Exit)
    return listed.failing (Text.quoted
      (log ++ ": " ++ toString findings.length ++ " error(s) in " ++ toString count ++ " line(s)"))

/-! ### Running -/

/-- Runs a command, with the loader that probes use. -/
def run [Loader σ φ] (loader : σ) : Command → m Exit
  | checkConfig config policy keys output => checkConfigFile config policy keys output
  | probe config policy keys none _ => probeSilently loader config policy keys
  | probe config policy keys (some log) run => probeLogged loader config policy keys log run
  | validateLog log => validateLogFile log

end Command

end Interpose
