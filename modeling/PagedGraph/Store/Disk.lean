import PagedGraph.Store.File

/-!
# Paths

A disk is a set of directories and of files. Each is named by its trail: the names that lead to it
from the directory in which all paths start. A file can be made in any directory that exists;
directories are neither made nor removed.
-/

set_option autoImplicit false

namespace PagedGraph

/-- The names that lead to a directory or to a file, the nearest last. -/
abbrev Trail := List String

structure Disk where
  directories : List Trail
  files : List (Trail × FileState)

namespace Disk

def maxName : Nat := 255

def maxPath : Nat := 4095

def enter (d : Disk) (here : Trail) (name : String) : Except PathFault Trail :=
  if name = "" ∨ name = "." then .ok here
  else if name = ".." then .ok here.dropLast
  else if maxName < name.utf8ByteSize then .error .nameTooLong
  else if d.directories.contains (here ++ [name]) then .ok (here ++ [name])
  else match d.files.lookup (here ++ [name]) with
    | some (.closed _) | some (.inUse _) => .error .notDirectory
    | _ => .error .noSuchEntry

/-- The file that a path names and its state. The length of the whole path is checked before any name
in it is looked up. All names but the last must lead through directories; a path that ends in a
slash, or in a dot for a name, can only name a directory. -/
def find (d : Disk) (path : String) : Except PathFault (Trail × FileState) :=
  if path = "" then .error .noSuchEntry
  else if maxPath < path.utf8ByteSize then .error .nameTooLong
  else
    let names := path.splitOn "/"
    match names.reverse.dropWhile (· = "") with
    | [] => .error .isDirectory
    | last :: above => do
      let here ← above.reverse.foldlM d.enter []
      let trail := here ++ [last]
      if names.getLast? = some "" ∨ last = "." ∨ last = ".." ∨ d.directories.contains trail then
        .error .isDirectory
      else if maxName < last.utf8ByteSize then .error .nameTooLong
      else .ok (trail, (d.files.lookup trail).getD .absent)

def put (d : Disk) (trail : Trail) (file : FileState) : Disk :=
  { d with files := (trail, file) :: d.files.filter (·.1 != trail) }

end Disk

end PagedGraph
