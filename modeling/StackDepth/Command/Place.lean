import StackDepth.Text.Split

/-!
# Places of files

A name of a file is parts between slashes. A *place* is what a name comes to once its dots are gone: parts
from the working directory, or from the root. Two names of one place name the same file.

* `Place.step` goes one part further;
* `Place.ofName` goes along a name without asking whether the directories on the way are there;
* `FileError` is what is told of a file that cannot be used.
-/

namespace StackDepth

namespace Command

/-! ### Errors -/

/-- Why a file cannot be used. -/
inductive FileFault where
  /-- It is not there, or a directory on the way to it is not there. -/
  | missing
  /-- A file stands where a directory should be. -/
  | notDirectory
  /-- A directory stands where a file should be. -/
  | isDirectory
  /-- The name or one of its parts is too long. -/
  | longName
  /-- The name has a character that no name may have. -/
  | badName
  /-- Some other cause, which has a text of its own. -/
  | other (text : String)
deriving DecidableEq, Inhabited

/-- The text of a cause. -/
def FileFault.text : FileFault → String
  | .missing => "no such file or directory"
  | .notDirectory => "not a directory"
  | .isDirectory => "is a directory"
  | .longName => "file name too long"
  | .badName => "invalid argument"
  | .other text => text

/-- A file that cannot be used. -/
structure FileError where
  /-- The name of the file, as it was given. -/
  path : String
  /-- The cause. -/
  fault : FileFault := .missing
  /-- The file could be opened, and failed only when it was read. -/
  opened : Bool := false
deriving DecidableEq, Inhabited

/-- The text of the error. -/
def FileError.message (e : FileError) : String :=
  (if e.opened then "read " else "open ") ++ e.path ++ ": " ++ e.fault.text

/-! ### Places -/

/-- The parts of a name, of which some may be empty. -/
def nameParts (name : String) : List String := (Text.splitOn '/' name.toList).map String.ofList

/-- Where a file is: the parts that lead there from the working directory. A place above that directory
begins with double dots, and a place that is counted from the root begins with a slash. -/
abbrev Place : Type := List String

namespace Place

/-- The directory from which no directory leads further up. -/
def root : Place := ["/"]

/-- The place that leads nowhere: it is always empty, whatever is written there. -/
def null : Place := root ++ ["dev", "null"]

/-- The directory that holds a place. -/
def parent (p : Place) : Place :=
  if p = root then root
  else if p.all (· == "..") then ".." :: p
  else p.dropLast

/-- The place one part further. -/
def step (p : Place) : String → Place
  | "" | "." => p
  | ".." => p.parent
  | part => p ++ [part]

/-- The directory from which a name counts. -/
def start (name : String) : Place := if name.toList.head? = some '/' then root else []

/-- The place of a name. -/
def ofName (name : String) : Place := (nameParts name).foldl step (start name)

/-- The shortest name of a place. -/
def name : Place → String
  | [] => "."
  | "/" :: parts => "/" ++ Text.joinWith "/" parts
  | parts => Text.joinWith "/" parts

end Place

/-- The name of a file in a directory whose own name is a dot, without dots and empty parts on the way. -/
def plainName (name : String) : String := (Place.ofName ("./" ++ name)).name

end Command

end StackDepth
