/-!
# Paths

A path is text in which slashes separate segments. An empty segment means nothing, and neither does
a dot, except as the first segment of a relative path.

The directories that lead to a path are read off its text (`Path.ancestors`): each is written as in
the path itself, up to a segment that means something. Segments that mean nothing are kept on the
way there, so a directory can have a longer text than its names need.
-/

namespace Interpose.Path

/-- Whether a path starts at the root. -/
def isAbsolute (path : String) : Bool := path.startsWith "/"

/-- The text between the slashes of a path. -/
def segments (path : String) : List String := path.splitOn "/"

/-- Whether a segment behind the first one means nothing. -/
def isIdle (segment : String) : Bool := segment = "" || segment = "."

/-- The path of a first segment and those behind it, which are given from the last on. -/
def ofSegments (first : String) (behind : List String) : String :=
  "/".intercalate (first :: behind.reverse)

/-- The ancestors of a path with a first segment and others, which are given from the last on. -/
def ancestorsOf (first : String) : List String → List String
  | [] => if first = "" then [] else [first]
  | segment :: outer =>
    if isIdle segment then ancestorsOf first outer
    else ofSegments first (segment :: outer) :: ancestorsOf first outer

/-- A path without the idle segments at its end and the directories that lead to it, from the
nearest on. The root is not among them, and neither is the place where a relative path starts. -/
def ancestors (path : String) : List String :=
  match segments path with
  | [] => []
  | first :: others => ancestorsOf first others.reverse

/-- The directory that a path is in, if the path means something. -/
def parent? (path : String) : Option String :=
  match ancestors path with
  | [] => none
  | [_] => some (if isAbsolute path then "/" else "")
  | _ :: directory :: _ => some directory

end Interpose.Path
