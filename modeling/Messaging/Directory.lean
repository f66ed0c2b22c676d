import Messaging.Bytes
import Messaging.Table

/-!
# Directories

A directory is a table of the files below it by their paths. A path is followed part by part:
a dot stays, two dots go up, and every directory on the way has to exist. `Directory.read?` gives
the text of a file.
-/

namespace Messaging

/-- The text of a file by its path; `none` if it cannot be read as text. -/
abbrev Files := String → Option String

/-- The files below a directory by their paths, each a list of names. -/
abbrev Directory := List (List String × Bytes)

namespace Directory

/-- The parts of a path between slashes. -/
def split (path : String) : List String :=
  (path.toList.splitOn '/').map String.ofList

/-- The directory with the files of the given paths. -/
def ofList (files : List (String × Bytes)) : Directory :=
  files.map fun f => ((split f.1).filter (· ≠ ""), f.2)

/-- Is there a directory at the place? -/
def isDirectory (d : Directory) (place : List String) : Bool :=
  place = [] || d.any fun f => place.isPrefixOf f.1 && f.1 ≠ place

/-- Follows the parts of a path from a place. -/
def follow (d : Directory) : List String → List String → Option (List String)
  | place, [] => some place
  | place, part :: rest =>
    if !d.isDirectory place then none
    else if part = "" ∨ part = "." then follow d place rest
    else if part = ".." then if place = [] then none else follow d place.dropLast rest
    else follow d (place ++ [part]) rest

/-- The text of the file at a path below the directory. -/
def read? (d : Directory) : Files := fun path =>
  if path = "" ∨ path.startsWith "/" then none
  else do
    let place ← d.follow [] (split path)
    let data ← d.lookup place
    Bytes.toString? data

end Directory

end Messaging
