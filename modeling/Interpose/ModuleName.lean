import Interpose.State
import Interpose.Text.ByteLength

/-!
# Names of modules and of table files

A library is configured by a name without extension; the module to open is that name with
`moduleSuffix`, if the result is within `maxFileNameBytes`.

The other direction finds the table that belongs to a loaded library. Its path is cut down to the
part after the last separator of either style, then to the stem before the extension, and the table
is the file of that stem in the directory for temporary files. Extensions are tried in a fixed
order: the first versioned module suffix (`.so.`), then a plain module suffix, then whatever
follows the last dot, as long as something stands before it.

A requested path comes before all this. It is a `String` here, so that only requests in Unicode are
modelled; a request is tested for being empty and is otherwise passed on as it is.
-/

namespace Interpose

/-! ### Module file names -/

/-- The extension of a module. -/
def moduleSuffix : String := ".so"

/-- The longest file name of a module, in bytes. -/
def maxFileNameBytes : Nat := 255

/-- A name with a suffix, if it occupies at most `max` bytes. -/
def composeFileName (name suffix : String) (max : Nat) : Except BindError String :=
  if name.utf8ByteSize + suffix.utf8ByteSize ≤ max then .ok (name ++ suffix)
  else .error .nameTooLong

/-- The file name of the module of a library. -/
def moduleFileName (library : String) : Except BindError String :=
  composeFileName library moduleSuffix maxFileNameBytes

theorem composeFileName_eq_ok_iff {name suffix file : String} {max : Nat} :
    composeFileName name suffix max = .ok file ↔
      name.utf8ByteSize + suffix.utf8ByteSize ≤ max ∧ name ++ suffix = file := by
  by_cases h : name.utf8ByteSize + suffix.utf8ByteSize ≤ max <;> simp [composeFileName, h]

theorem composeFileName_eq_error_iff {name suffix : String} {max : Nat} {e : BindError} :
    composeFileName name suffix max = .error e ↔
      max < name.utf8ByteSize + suffix.utf8ByteSize ∧ e = .nameTooLong := by
  by_cases h : name.utf8ByteSize + suffix.utf8ByteSize ≤ max
  · simp [composeFileName, h, Nat.not_lt.mpr h]
  · simp [composeFileName, h, Nat.lt_of_not_le h, eq_comm]

/-! ### Stems -/

/-- A separator of directories, in either style. -/
def isSeparator (c : Char) : Bool := c == '/' || c == '\\'

/-- The part of a path after its last separator. -/
def fileNamePart : List Char → List Char
  | [] => []
  | c :: s =>
    if s.any isSeparator then fileNamePart s
    else if isSeparator c then s
    else c :: s

/-- The text before the first occurrence of a pattern. -/
def beforeFirst? (pattern : List Char) : List Char → Option (List Char)
  | [] => if pattern.isEmpty then some [] else none
  | c :: s =>
    if pattern.isPrefixOf (c :: s) then some []
    else (beforeFirst? pattern s).map (c :: ·)

/-- The text before a suffix that ends it. -/
def beforeSuffix? (suffix s : List Char) : Option (List Char) :=
  if suffix.isSuffixOf s then some (s.take (s.length - suffix.length)) else none

/-- The text before its last dot. -/
def beforeLastDot? : List Char → Option (List Char)
  | [] => none
  | c :: s =>
    match beforeLastDot? s with
    | some stem => some (c :: stem)
    | none => if c = '.' then some [] else none

/-- A file name without the extension of a module. -/
def stripExtension (file : List Char) : List Char :=
  match beforeFirst? ".so.".toList file with
  | some stem => stem
  | none =>
    match beforeSuffix? ".so".toList file with
    | some stem => stem
    | none =>
      match beforeSuffix? ".dylib".toList file with
      | some stem => stem
      | none =>
        match beforeLastDot? file with
        | none | some [] => file
        | some stem => stem

/-- The stem of a library's path, unless it is empty. -/
def libraryStem? (path : List Char) : Option (List Char) :=
  match stripExtension (fileNamePart path) with
  | [] => none
  | stem => some stem

/-! ### Table files -/

/-- The name of the table file of a stem. -/
def tableFileName (stem : String) : String := stem ++ "_extdef.txt"

/-- The directory in which table files are looked for. -/
def temporaryDirectory : String := "/tmp"

/-- Where the table of a library is: at the requested path if one is given, else in the directory
for temporary files under the library's stem. -/
def tablePath? (requested libraryPath : Option String) : Option String :=
  match requested.filter (· ≠ "") with
  | some path => some path
  | none => do
    let stem ← libraryStem? (← libraryPath).toList
    some (temporaryDirectory ++ "/" ++ tableFileName (String.ofList stem))

/-- The name under which a module file is configured. -/
def libraryName? (path : String) : Option String :=
  (beforeSuffix? moduleSuffix.toList path.toList).map String.ofList

end Interpose
