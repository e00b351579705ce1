import StackDepth.Command.Task

/-!
# Workspaces

A workspace holds files by place and what was printed. `Workspace.perform` carries out actions there, so
that what the program does can be stated without an operating system. A directory is there if it holds a
file, if it is the working directory or one above it, or if the workspace says so; a file can be created in
every directory that is there. There are no links, and everything may be read and written.
-/

namespace StackDepth

namespace Command

/-- Files, and what was printed. -/
structure Workspace where
  /-- The files by place; of two files at one place the first counts. -/
  files : List (Place × ByteArray) := []
  /-- Directories that are there although they hold no file. -/
  directories : List Place := []
  /-- The text printed so far. -/
  printed : String := ""
  /-- The lines of the log so far. -/
  logged : List String := []
deriving Inhabited

namespace Workspace

/-- A workspace that holds texts by name. -/
def ofTexts (texts : List (String × String)) : Workspace :=
  { files := texts.map fun (name, text) => (Place.ofName name, text.toUTF8) }

/-! ### Places -/

/-- The bytes of the file at a place. -/
def bytes? (w : Workspace) (p : Place) : Option ByteArray :=
  if p = Place.null then some ByteArray.empty else w.files.lookup p

/-- A directory is at a place. -/
def isDirectory (w : Workspace) (p : Place) : Bool :=
  p.all (· == "..") || p == Place.root ||
    w.directories.any p.isPrefixOf ||
    (Place.null :: w.files.map (·.1)).any fun q => p != q && p.isPrefixOf q

/-- The longest part of a name, in bytes. -/
def maxPart : Nat := 255

/-- The longest name, in bytes. -/
def maxName : Nat := 4095

/-- Goes along the parts of a name. Every part but the first needs a directory in front of it. -/
def walk (w : Workspace) (p : Place) : List String → Except FileFault Place
  | [] => .ok p
  | part :: rest =>
      if !w.isDirectory p then .error (if (w.bytes? p).isSome then .notDirectory else .missing)
      else if maxPart < part.utf8ByteSize then .error .longName
      else w.walk (p.step part) rest

/-- The place that the parts of a name lead to. -/
def resolve (w : Workspace) (name : String) (parts : List String) : Except FileFault Place :=
  if name.contains '\x00' then .error .badName
  else if name.isEmpty then .error .missing
  else if maxName < name.utf8ByteSize then .error .longName
  else w.walk (Place.start name) parts

/-! ### Reading and writing -/

/-- The bytes of a file. A name with a slash at its end is that of a directory. -/
def readBytes (w : Workspace) (path : String) : Except FileError ByteArray :=
  match w.resolve path (nameParts path) with
  | .error fault => .error { path, fault }
  | .ok p =>
      match w.bytes? p with
      | some bytes => .ok bytes
      | none =>
          if w.isDirectory p then .error { path, fault := .isDirectory, opened := true }
          else .error { path }

/-- The content of a file, if the file can be read and unpacked. -/
def content? (w : Workspace) (path : String) : Option ByteArray :=
  (w.readBytes path).toOption.bind (contents? path)

/-- The text in a file. -/
def text? (w : Workspace) (path : String) : Option String :=
  (w.content? path).bind String.fromUTF8?

/-- The report in the file of a snapshot. -/
def load? (w : Workspace) (path : String) : Option Report :=
  (w.content? path).bind Snapshot.decode?

/-- Reads a text as it stands in a file. -/
def read (w : Workspace) : Files := fun path => do
  match String.fromUTF8? (← w.readBytes path) with
  | some text => return text
  | none => throw { path, fault := .other "invalid text", opened := true }

/-- Puts bytes at a place. -/
def put (w : Workspace) (p : Place) (bytes : ByteArray) : Workspace :=
  if p = Place.null then w else { w with files := (p, bytes) :: w.files.filter (·.1 ≠ p) }

/-- Creates a file, or gives it new bytes. A name with a slash at its end is refused, whether there is a
directory or not. -/
def writeBytes (w : Workspace) (path : String) (bytes : ByteArray) : Except FileError Workspace :=
  let parts := nameParts path
  let named := (parts.reverse.dropWhile (·.isEmpty)).reverse
  match w.resolve path named with
  | .error fault => .error { path, fault }
  | .ok p =>
      if named.length < parts.length || w.isDirectory p then .error { path, fault := .isDirectory }
      else .ok (w.put p bytes)

/-- Puts a content into a file, packed if the name asks for it. -/
def write (w : Workspace) (path : String) (content : ByteArray) : Except FileError Workspace :=
  w.writeBytes path (stored path content)

/-- Keeps a report in the file of a snapshot. -/
def save (w : Workspace) (path : String) (r : Report) : Except FileError Workspace :=
  w.write path (Snapshot.encode r)

/-! ### Actions -/

/-- Carries out an action. -/
def act (w : Workspace) : Action → Except FileError Workspace
  | .print text => .ok { w with printed := w.printed ++ text }
  | .log lines => .ok { w with logged := w.logged ++ lines }
  | .write path content => w.write path content

/-- Carries out actions up to the first that fails. -/
def perform (w : Workspace) : List Action → Workspace × Option FileError
  | [] => (w, none)
  | a :: rest =>
      match w.act a with
      | .ok w => w.perform rest
      | .error e => (w, some e)

/-- Runs the program with arguments: the workspace afterwards, and the error it ends with. -/
def run (w : Workspace) (args : List String) (around : Surroundings) (elapsed : String) :
    Workspace × Option Error :=
  match Task.ofArguments args w.read with
  | .error e => (w, some e)
  | .ok task =>
      let (actions, failure) := task.run around elapsed
      match w.perform actions with
      | (w, some cause) => (w, some (.file cause))
      | (w, none) => (w, failure)

end Workspace

end Command

end StackDepth
