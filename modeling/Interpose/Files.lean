import Interpose.FileError
import Interpose.Log.Calendar

/-!
# Files

What a command needs of the world: to read a file, to write one, to make directories, and to look at
the clock. A command is written against `Files`, so it can be run on the files of a computer and on
a `FileTree` alike.
-/

namespace Interpose

/-- Access to files and to the clock. -/
class Files (m : Type → Type) where
  /-- Reads a file. -/
  read : String → m (Except FileError (List UInt8))
  /-- Makes a file hold a text, whether it existed or not. -/
  write : String → String → m (Except FileError Unit)
  /-- Makes a directory with all that lead to it, as far as they are missing. -/
  createDirs : String → m (Except FileError Unit)
  /-- Reads the clock. -/
  now : m Instant

end Interpose
