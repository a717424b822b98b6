import Interpose.Files
import Interpose.Files.Path

/-!
# Trees of files

Files in memory, with the rules by which an operating system of the Unix kind finds them.

A path is walked segment by segment, from the root or from the home directory. Whatever a segment
is taken in has to be a directory, also when the segment is empty or a dot, so a slash after the
name of a file is an error. A name is limited to `maxSegmentBytes` bytes. A path is limited to
`maxPathBytes` bytes, meaningless ones included; one that is longer, or has a NUL, is refused before
it is walked. The last name of a path need not exist; what follows from that depends on the
operation.
-/

namespace Interpose

/-- Where something is: its own name first, then that of its directory, and so on to the root. -/
abbrev Place := List String

/-- What can be at a place. -/
inductive FileTree.Node
  | file (content : List UInt8)
  /-- A file that stays empty, whatever is written to it. -/
  | void
  /-- A file without room: it stays empty, and nothing can be written to it. -/
  | full
  | directory
  deriving DecidableEq, Repr

/-- The contents of all places below the root, the latest first, and the home directory. -/
structure FileTree where
  home : Place := []
  nodes : List (Place × FileTree.Node) := []
  deriving Repr, Inhabited

namespace FileTree

/-- The longest name, in bytes. -/
def maxSegmentBytes : Nat := 255

/-- The longest path, in bytes. -/
def maxPathBytes : Nat := 4095

/-- What is at a place. -/
def node? (t : FileTree) : Place → Option Node
  | [] => some .directory
  | place => (t.nodes.find? (·.1 = place)).map (·.2)

/-- The tree with something put at a place. -/
def put (t : FileTree) (place : Place) (node : Node) : FileTree :=
  { t with nodes := (place, node) :: t.nodes.filter (·.1 ≠ place) }

/-! ### Walking -/

/-- Refuses a path that is not even looked at. -/
def checkPath (path : String) : Except FileError Unit :=
  if path.contains '\x00' then .error .nulInName
  else if path = "" then .error .notFound
  else if maxPathBytes < path.utf8ByteSize then .error .nameTooLong
  else .ok ()

/-- The place from which a path is walked. -/
def start (t : FileTree) (path : String) : Place := if Path.isAbsolute path then [] else t.home

/-- Refuses a place at which there is no directory. -/
def checkDirectory (t : FileTree) (place : Place) : Except FileError Unit :=
  match t.node? place with
  | none => .error .notFound
  | some .directory => .ok ()
  | some _ => .error .notADirectory

/-- The place of a segment in another place. -/
def enter (t : FileTree) (place : Place) (segment : String) : Except FileError Place := do
  t.checkDirectory place
  if segment = "" ∨ segment = "." then .ok place
  else if segment = ".." then .ok place.tail
  else if segment.utf8ByteSize ≤ maxSegmentBytes then .ok (segment :: place)
  else .error .nameTooLong

/-- The place of a path. -/
def locate (t : FileTree) (path : String) : Except FileError Place := do
  checkPath path
  (Path.segments path).foldlM t.enter (t.start path)

/-- Whether a path leads to a directory. -/
def isDirectory (t : FileTree) (path : String) : Bool :=
  match t.locate path with
  | .ok place => t.node? place = some .directory
  | .error _ => false

/-! ### Files -/

/-- The content of a file. -/
def read (t : FileTree) (path : String) : Except FileError (List UInt8) := do
  match t.node? (← t.locate path) with
  | none => .error .notFound
  | some .directory => .error .isADirectory
  | some .void | some .full => .ok []
  | some (.file content) => .ok content

/-- The tree with a file of the given content at a place. -/
def writeAt (t : FileTree) (content : List UInt8) (place : Place) : Except FileError FileTree :=
  match t.node? place with
  | some .directory => .error .isADirectory
  | some .void => .ok t
  | some .full => if content.isEmpty then .ok t else .error .noSpace
  | _ => .ok (t.put place (.file content))

/-- The tree with a file of the given content. A path that ends in a slash can only name a
directory, be there one or not, so its last name is not looked up. -/
def write (t : FileTree) (path : String) (content : List UInt8) : Except FileError FileTree := do
  checkPath path
  match (Path.segments path).reverse.dropWhile (· = "") with
  | [] => .error .isADirectory
  | name :: outer =>
    let directory ← outer.reverse.foldlM t.enter (t.start path)
    if path.endsWith "/" then
      t.checkDirectory directory
      .error .isADirectory
    else t.writeAt content (← t.enter directory name)

/-! ### Directories -/

/-- The tree with a new directory in one that exists. -/
def createDir (t : FileTree) (path : String) : Except FileError FileTree := do
  let place ← t.locate path
  match t.node? place with
  | some _ => .error .alreadyExists
  | none => .ok (t.put place .directory)

/-- The tree with a directory in one that exists. A directory that is there already will do. -/
def ensureDir (t : FileTree) (path : String) : Except FileError FileTree :=
  match t.createDir path with
  | .ok t => .ok t
  | .error e => if t.isDirectory path then .ok t else .error e

/-- The tree with the first of some directories, each of which is in the next. Where one is missing,
those that follow it are made first. -/
def createFirst : List String → FileTree → Except FileError FileTree
  | [], t => .ok t
  | path :: outer, t =>
    match t.ensureDir path with
    | .error .notFound => do (← createFirst outer t).ensureDir path
    | result => result

/-- The tree with a directory and all that lead to it. -/
def createDirs (t : FileTree) (path : String) : Except FileError FileTree :=
  createFirst (Path.ancestors path) t

/-! ### Access -/

/-- The tree after an attempt to change it. -/
def attempt (change : FileTree → Except FileError FileTree) :
    StateM FileTree (Except FileError Unit) := fun t ↦
  match change t with
  | .ok t => (.ok (), t)
  | .error e => (.error e, t)

instance : Files (ReaderT Instant (StateM FileTree)) where
  read path := fun _ t ↦ (t.read path, t)
  write path text := fun _ ↦ attempt (·.write path text.toUTF8.toList)
  createDirs path := fun _ ↦ attempt (·.createDirs path)
  now := fun time t ↦ (time, t)

end FileTree

end Interpose
