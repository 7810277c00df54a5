import Chip8.Memory.Source

/-!
Files in memory. A tree of directories and files stands in for a disk where a launch has to be
repeatable. Paths are followed as a disk follows them, and fail with the same texts.
-/

namespace Chip8

/-- Why a path cannot be opened, or what it names cannot be read. -/
inductive FileError
  | notFound
  | notADirectory
  | isADirectory
  | nameTooLong
  deriving DecidableEq

/-- The text of a failure, with the number by which operating systems know it. -/
def FileError.text : FileError → String
  | .notFound => "No such file or directory (os error 2)"
  | .notADirectory => "Not a directory (os error 20)"
  | .isADirectory => "Is a directory (os error 21)"
  | .nameTooLong => "File name too long (os error 36)"

inductive FileEntry
  | file (bytes : List UInt8)
  | directory

/-- Reading a file gives its bytes. A directory can be opened, but reading it fails. -/
def FileEntry.source : FileEntry → Source
  | .file bytes => [.bytes bytes]
  | .directory => [.failed FileError.isADirectory.text]

/-- Everything that exists, by its names from the root down. The root is always there. -/
structure FileTree where
  entries : List (List String × FileEntry)

namespace FileTree

/-- What the names from the root down lead to. -/
def entry? (tree : FileTree) : List String → Option FileEntry
  | [] => some .directory
  | names => tree.entries.lookup names

/-- Follows the parts of a path from where earlier ones have led. An empty part and `.` stay in a
directory and `..` leaves it, but at the root. -/
def follow (tree : FileTree) : List String → List String → Except FileError FileEntry
  | here, [] =>
    match tree.entry? here with
    | some entry => .ok entry
    | none => .error .notFound
  | here, part :: rest =>
    match tree.entry? here with
    | none => .error .notFound
    | some (.file _) => .error .notADirectory
    | some .directory =>
      if part = "" ∨ part = "." then tree.follow here rest
      else if part = ".." then tree.follow here.dropLast rest
      else if 255 < part.utf8ByteSize then .error .nameTooLong
      else tree.follow (here ++ [part]) rest

/-- What a path leads to. A path that does not start at the root starts at `here`. -/
def find (tree : FileTree) (here : List String) (path : String) : Except FileError FileEntry :=
  if path = "" then .error .notFound
  else if 4095 < path.utf8ByteSize then .error .nameTooLong
  else tree.follow (if path.startsWith "/" then [] else here) (path.splitOn "/")

/-- Opens what a path leads to. A failure is given by its text. -/
def openPath (tree : FileTree) (here : List String) (path : String) : Except String Source :=
  match tree.find here path with
  | .ok entry => .ok entry.source
  | .error error => .error error.text

end FileTree

end Chip8
