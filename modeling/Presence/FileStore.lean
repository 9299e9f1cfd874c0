/-!
# Files

A *path* is a row of names, divided by slashes.  It leads on from the root if it begins
with a slash, and else from the working directory.  Each of its names is looked up in a
directory, so a slash at the end is only good after a directory.

A *file store* says which content a path leads to.  A path may lead to no content for
several reasons, and one of them is special: a directory can be opened as a file can, and
it is a fault only to read it.

A *file tree* is a system of directories as a value.  It is a store of the files in it
(`FileTree.store`).
-/

namespace Presence

/-! ## Stores -/

/-- Why a path leads to no content. -/
inductive FileFault where
  /-- It leads nowhere. -/
  | missing
  /-- The file may not be read. -/
  | denied
  /-- It leads on from a file. -/
  | notDirectory
  /-- It leads to a directory. -/
  | isDirectory
  /-- It is too long, or one of its names is. -/
  | nameTooLong
  /-- Another fault, with the wording of the system. -/
  | other (wording : String)
  deriving DecidableEq, Repr

namespace FileFault

/-- The system's wording of a fault. -/
def message : FileFault → String
  | missing => "No such file or directory (os error 2)"
  | denied => "Permission denied (os error 13)"
  | notDirectory => "Not a directory (os error 20)"
  | isDirectory => "Is a directory (os error 21)"
  | nameTooLong => "File name too long (os error 36)"
  | other wording => wording

/-- The fault is met in reading what has been opened. -/
def isOfReading : FileFault → Bool
  | isDirectory => true
  | _ => false

end FileFault

/-- The contents of files by path. -/
abbrev FileStore := String → Except FileFault (List UInt8)

/-! ## Trees -/

/-- What names lead to from the root. -/
inductive Destination where
  /-- A file with its content. -/
  | file (content : List UInt8)
  /-- A directory. -/
  | directory
  deriving DecidableEq, Repr

/-- A system of directories.  What leads to a file or to a directory is a directory. -/
structure FileTree where
  /-- The files, each with the names that lead to it. -/
  files : List (List String × List UInt8)
  /-- Directories, with or without files in them. -/
  directories : List (List String)
  /-- The working directory. -/
  home : List String

namespace FileTree

/-- The names of all files, the directories and the working directory. -/
def names (t : FileTree) : List (List String) := t.home :: t.directories ++ t.files.map Prod.fst

/-- What names lead to, if they lead anywhere. -/
def destination? (t : FileTree) (names : List String) : Option Destination :=
  match t.files.lookup names with
  | some content => some (.file content)
  | none => if t.names.any names.isPrefixOf then some .directory else none

/-- The most bytes that a name has. -/
def longestName : Nat := 255

/-- The most bytes that a path has. -/
def longestPath : Nat := 4095

/-- Where a name of a path leads on to. -/
def enter (t : FileTree) (names : List String) (name : String) : Except FileFault (List String) :=
  match t.destination? names with
  | some .directory =>
      if name = "" ∨ name = "." then .ok names
      else if name = ".." then .ok names.dropLast
      else if longestName < name.utf8ByteSize then .error .nameTooLong
      else if (t.destination? (names ++ [name])).isSome then .ok (names ++ [name])
      else .error .missing
  | _ => .error .notDirectory

/-- Where a path leads. -/
def resolve (t : FileTree) (path : String) : Except FileFault (List String) :=
  if path = "" then .error .missing
  else if longestPath < path.utf8ByteSize then .error .nameTooLong
  else (path.splitOn "/").foldlM t.enter (if path.startsWith "/" then [] else t.home)

/-- The store of the files of a tree. -/
def store (t : FileTree) : FileStore := fun path => do
  match t.destination? (← t.resolve path) with
  | some (.file content) => return content
  | some .directory => throw .isDirectory
  | none => throw .missing

/-- The tree of a system with files in the working directory, given by their paths from
there.  Besides there are the empty file, the standard input as a file, and directories
that any system has. -/
def ofWorkingFiles (files : List (String × List UInt8)) (input : List UInt8) : FileTree where
  files :=
    files.map (fun (path, content) => (home ++ (path.splitOn "/").filter (· ≠ ""), content)) ++
      [(["dev", "null"], []), (["dev", "stdin"], input)]
  directories :=
    ["bin", "boot", "dev", "etc", "home", "lib", "mnt", "opt", "proc", "root", "run", "sbin", "srv",
      "sys", "tmp", "usr", "var"].map ([·])
  home
where
  /-- The working directory. -/
  home : List String := ["tmp", "work"]

end FileTree

end Presence
