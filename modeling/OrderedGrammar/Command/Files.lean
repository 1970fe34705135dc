import OrderedGrammar.Source.LineEnds
import OrderedGrammar.Text.Quoted

/-!
Files that commands read. `Files` tells for each path the bytes that stand there or why there are
none; `Folder` is a directory held in memory, whose paths are followed step by step.
-/

namespace OrderedGrammar.Command

/-- Why a path cannot be read. -/
inductive FileError
  | notFound
  | isDirectory
  | notADirectory
  | nameTooLong
  | denied
  deriving DecidableEq

/-- The kind of the error, its number, and the path in quotes. -/
def FileError.message (path : String) (e : FileError) : String :=
  let text := match e with
    | notFound => "FileNotFoundError [Errno 2] No such file or directory: "
    | isDirectory => "IsADirectoryError [Errno 21] Is a directory: "
    | notADirectory => "NotADirectoryError [Errno 20] Not a directory: "
    | nameTooLong => "OSError [Errno 36] File name too long: "
    | denied => "PermissionError [Errno 13] Permission denied: "
  text ++ Text.quoted path

/-- The bytes at each path. -/
abbrev Files := String → Except FileError ByteArray

/-- A directory with the files in it; a name with slashes lies in directories below. -/
structure Folder where
  files : List (String × ByteArray)

namespace Folder

/-- The steps of a path. A slash at the end leaves an empty step. -/
def steps (path : String) : List String := path.splitOn "/"

/-- The steps of each file's name. -/
def names (f : Folder) : List (List String) := f.files.map fun file => steps file.1

/-- Some file lies below these steps. -/
def hasDirectory (f : Folder) (place : List String) : Bool :=
  f.names.any fun name => place.isPrefixOf name && place.length < name.length

/-- Follows a path from a place inside the directory. -/
def follow (f : Folder) : List String → List String → Except FileError ByteArray
  | [], _ => .error .isDirectory
  | step :: rest, place =>
    if step = "" ∨ step = "." then follow f rest place
    else if step = ".." then
      if place.isEmpty then
        if rest.all fun s => s = "" || s = "." || s = ".." then .error .isDirectory
        else .error .notFound
      else follow f rest place.dropLast
    else if 255 < step.utf8ByteSize then .error .nameTooLong
    else
      let place := place ++ [step]
      match f.files.lookup ("/".intercalate place) with
      | some bytes => if rest.isEmpty then .ok bytes else .error .notADirectory
      | none => if f.hasDirectory place then follow f rest place else .error .notFound

/-- Opens a path. An absolute path leads out of the directory, where nothing is known but that
directories are there. -/
def read (f : Folder) : Files := fun path =>
  if path.isEmpty then .error .notFound
  else if path.startsWith "/" then
    if (steps path).all fun s => s = "" || s = "." || s = ".." then .error .isDirectory
    else .error .notFound
  else f.follow (steps path) []

end Folder

/-- The shortest way to write a path: no empty steps and no steps that stay in place. Two slashes at
the start are kept apart from one. -/
def tidyPath (path : String) : String :=
  let root := if path.startsWith "///" then "/" else if path.startsWith "//" then "//"
    else if path.startsWith "/" then "/" else ""
  let steps := (path.splitOn "/").filter fun s => s ≠ "" && s ≠ "."
  if root.isEmpty && steps.isEmpty then "." else root ++ "/".intercalate steps

end OrderedGrammar.Command
