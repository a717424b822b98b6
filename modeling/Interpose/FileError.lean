import Interpose.Text.Quoted

/-!
# Errors of reading and writing files

The causes for which a file cannot be read or written, with their wording. Most come from the
operating system and carry its error number; three are found before or after it is asked: a name
with a NUL in it, content that is not UTF-8, and a destination that takes no more.

Each cause has three texts: `kind`, its class; `message`, the line shown to a user; and `details`,
the structured form that a failing command prints.
-/

namespace Interpose

/-- Why a file cannot be read or written. -/
inductive FileError
  | notFound
  | permissionDenied
  | alreadyExists
  | notADirectory
  | isADirectory
  | noSpace
  | nameTooLong
  | nulInName
  | notUtf8
  | full
  /-- Another error of the operating system, by its number and in its words. -/
  | other (number : Nat) (words : String)
  deriving DecidableEq, Repr

namespace FileError

/-- The class of a cause. -/
def kind : FileError → String
  | notFound => "NotFound"
  | permissionDenied => "PermissionDenied"
  | alreadyExists => "AlreadyExists"
  | notADirectory => "NotADirectory"
  | isADirectory => "IsADirectory"
  | noSpace => "StorageFull"
  | nameTooLong => "InvalidFilename"
  | nulInName => "InvalidInput"
  | notUtf8 => "InvalidData"
  | full => "Other"
  | other .. => "Uncategorized"

/-- The number of the operating system for a cause, where it has one. -/
def number? : FileError → Option Nat
  | notFound => some 2
  | permissionDenied => some 13
  | alreadyExists => some 17
  | notADirectory => some 20
  | isADirectory => some 21
  | noSpace => some 28
  | nameTooLong => some 36
  | nulInName | notUtf8 | full => none
  | other number _ => some number

/-- A cause in words. -/
def text : FileError → String
  | notFound => "No such file or directory"
  | permissionDenied => "Permission denied"
  | alreadyExists => "File exists"
  | notADirectory => "Not a directory"
  | isADirectory => "Is a directory"
  | noSpace => "No space left on device"
  | nameTooLong => "File name too long"
  | nulInName => "file name contained an unexpected NUL byte"
  | notUtf8 => "stream did not contain valid UTF-8"
  | full => "sink is full"
  | other _ words => words

/-- The cause of a number of the operating system, with its words. -/
def ofNumber (number : Nat) (words : String) : FileError :=
  let known :=
    [notFound, permissionDenied, alreadyExists, notADirectory, isADirectory, noSpace, nameTooLong]
  (known.find? (·.number? = some number)).getD (other number words)

/-- The line shown for a cause: its words, and its number if it has one. -/
def message (e : FileError) : String :=
  match e.number? with
  | some n => e.text ++ " (os error " ++ toString n ++ ")"
  | none => e.text

/-- The structured form of a cause. -/
def details (e : FileError) : String :=
  let words := Text.quoted e.text
  match e.number? with
  | some n =>
    "Os \x7b code: " ++ toString n ++ ", kind: " ++ e.kind ++ ", message: " ++ words ++ " \x7d"
  | none => "Error \x7b kind: " ++ e.kind ++ ", message: " ++ words ++ " \x7d"

end FileError

/-- A table that cannot be opened, with the path that was tried. -/
structure ConfigError where
  path : String
  cause : FileError
  deriving DecidableEq, Repr

/-- The error in words. -/
def ConfigError.message (e : ConfigError) : String :=
  "config file " ++ e.path ++ " cannot be opened: " ++ e.cause.message

/-- The structured form of the error. -/
def ConfigError.details (e : ConfigError) : String :=
  "FileNotOpenable \x7b path: " ++ Text.quoted e.path ++ ", source: " ++ e.cause.details ++
    " \x7d"

end Interpose
