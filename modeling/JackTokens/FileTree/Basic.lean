import JackTokens.FileTree.Path
import JackTokens.Text.Utf8

/-!
# A tree of files

The files and directories a program works on, as a value. Every entry has a location: the names that
lead to it from the root. A directory entry says no more than that it is there; a file entry names
the slot that holds its bytes. Writing to a file changes its slot in place, and removing it takes away
the entry only, so a reader that has the file open goes on with what the slot holds.

Locations may be denied to the program. A denied entry can be seen but neither opened, listed nor
written, and nothing below a denied directory can be examined at all. Permission is given or denied as
a whole: what may be written may be read, and what may be listed may be examined.

A path is looked up name by name (`walk`). Each name asks that what has been reached is a directory
that may be examined, in this order, and that the name is not too long; a slash at the end of the path
asks that the last entry is a directory. What is wrong first decides the error. A path that holds a
NUL, or is too long as a whole, is refused before any name is looked up.
-/

namespace JackTokens

/-- Why an operation on files failed. -/
inductive FileError where
  | notFound
  | notADirectory
  | isADirectory
  | alreadyExists
  | permissionDenied
  /-- The bytes that were read are no text. -/
  | invalidData
  /-- A name is too long, or a path is as a whole. -/
  | nameTooLong
  /-- A path holds a NUL. -/
  | nulInPath
  /-- Any other failure, with its description. -/
  | other (description : String)
  deriving DecidableEq, Repr, Inhabited

/-- The text of a failure. -/
def FileError.message : FileError → String
  | notFound => "No such file or directory (os error 2)"
  | notADirectory => "Not a directory (os error 20)"
  | isADirectory => "Is a directory (os error 21)"
  | alreadyExists => "File exists (os error 17)"
  | permissionDenied => "Permission denied (os error 13)"
  | invalidData => "stream did not contain valid UTF-8"
  | nameTooLong => "File name too long (os error 36)"
  | nulInPath => "file name contained an unexpected NUL byte"
  | other description => description

/-- The names that lead from the root to an entry. -/
abbrev Location := List String

/-- What stands at a location. -/
inductive Entry where
  | directory
  /-- A file whose bytes are in a slot. -/
  | file (slot : Nat)
  deriving DecidableEq, Repr, Inhabited

/-- **A tree of files.** -/
structure FileTree where
  /-- What stands where. The root is a directory without being listed. -/
  entries : List (Location × Entry) := []
  /-- The bytes of the files, by slot. -/
  slots : Array (List UInt8) := #[]
  /-- The locations the program has no permission for. -/
  denied : List Location := []
  /-- Where relative paths start. -/
  workingDirectory : Location := []
  deriving Repr, Inhabited

namespace FileTree

/-- What stands at a location. -/
def entry? (tree : FileTree) (location : Location) : Option Entry :=
  if location = [] then some .directory else tree.entries.lookup location

/-- The path of the working directory. -/
def workingPath (tree : FileTree) : String := "/" ++ String.intercalate "/" tree.workingDirectory

/-- Is the program refused at a location? -/
def isDenied (tree : FileTree) (location : Location) : Bool := tree.denied.contains location

/-- The bytes in a slot. -/
def bytes (tree : FileTree) (slot : Nat) : List UInt8 := tree.slots.getD slot []

/-! ## Looking up -/

/-- The most bytes a name may have. -/
def longestName : Nat := 255

/-- The most bytes a path may have. -/
def longestPath : Nat := 4095

/-- Refuses a name that is too long. -/
def checkName (name : String) : Except FileError Unit :=
  if longestName < Utf8.size name.toList then .error .nameTooLong else .ok ()

/-- Refuses a path that cannot be looked up at all. -/
def checkPath (path : String) : Except FileError Unit :=
  if path.toList.contains '\x00' then .error .nulInPath
  else if longestPath < Utf8.size path.toList then .error .nameTooLong
  else if path.isEmpty then .error .notFound
  else .ok ()

/-- A name can be looked up at a location if a directory is there that may be examined. -/
def enter (tree : FileTree) (location : Location) : Except FileError Unit :=
  match tree.entry? location with
  | some .directory => if tree.isDenied location then .error .permissionDenied else .ok ()
  | some (.file _) => .error .notADirectory
  | none => .error .notFound

/-- Follows names from a location. `.` stays, and `..` goes back, at the root to the root. -/
def walk (tree : FileTree) (location : Location) : List String → Except FileError Location
  | [] => .ok location
  | name :: names => do
    tree.enter location
    if name = "." then tree.walk location names
    else if name = ".." then tree.walk location.dropLast names
    else
      checkName name
      match tree.entry? (location ++ [name]) with
      | some _ => tree.walk (location ++ [name]) names
      | none => .error .notFound

/-- Where a path starts. -/
def start (tree : FileTree) (path : String) : Location :=
  if Path.isAbsolute path then [] else tree.workingDirectory

/-- The location a path leads to. The empty path leads nowhere. -/
def locate (tree : FileTree) (path : String) : Except FileError Location := do
  checkPath path
  let location ← tree.walk (tree.start path) (Path.names path)
  match tree.entry? location with
  | some .directory => .ok location
  | some (.file _) => if Path.endsInSlash path then .error .notADirectory else .ok location
  | none => .error .notFound

/-- Is there anything at a path that may be examined? -/
def pathExists (tree : FileTree) (path : String) : Bool :=
  match tree.locate path with
  | .ok _ => true
  | .error _ => false

/-- Is there a directory at a path that may be examined? -/
def isDirectory (tree : FileTree) (path : String) : Bool :=
  match tree.locate path with
  | .ok location => tree.entry? location == some .directory
  | .error _ => false

/-- The names below a directory, in no particular order. -/
def list (tree : FileTree) (path : String) : Except FileError (List String) := do
  let location ← tree.locate path
  tree.enter location
  return tree.entries.filterMap fun (below, _) =>
    if below ≠ [] ∧ below.dropLast = location then below.getLast? else none

/-! ## Changing

A new entry is named by the last name of its path, below the place that the other names lead to. -/

/-- The place where the last name of a path is to be looked up, and that name; no name where the path
is the root. -/
def locateParent (tree : FileTree) (path : String) :
    Except FileError (Location × Option String) := do
  checkPath path
  match (Path.names path).getLast? with
  | none => return ([], none)
  | some name =>
    let location ← tree.walk (tree.start path) (Path.names path).dropLast
    tree.enter location
    return (location, some name)

/-- Makes a directory, whose parent must be there. -/
def makeDirectory (tree : FileTree) (path : String) : Except FileError FileTree := do
  let (location, name?) ← tree.locateParent path
  match name? with
  | none => .error .alreadyExists
  | some name =>
    if name = "." ∨ name = ".." then .error .alreadyExists
    else
      checkName name
      match tree.entry? (location ++ [name]) with
      | some _ => .error .alreadyExists
      | none =>
        return { tree with entries := tree.entries ++ [(location ++ [name], .directory)] }

/-- Writes a file, whose directory must be there. A file that is there already is overwritten in its
slot; a directory is not. -/
def write (tree : FileTree) (path : String) (content : List UInt8) :
    Except FileError FileTree := do
  let (location, name?) ← tree.locateParent path
  match name? with
  | none => .error .isADirectory
  | some name =>
    if name = "." ∨ name = ".." ∨ Path.endsInSlash path then .error .isADirectory
    else
      checkName name
      match tree.entry? (location ++ [name]) with
      | some .directory => .error .isADirectory
      | some (.file slot) =>
        if tree.isDenied (location ++ [name]) then .error .permissionDenied
        else return { tree with slots := tree.slots.setIfInBounds slot content }
      | none =>
        return { tree with
          entries := tree.entries ++ [(location ++ [name], .file tree.slots.size)]
          slots := tree.slots.push content }

/-- Takes a file out of its directory. Its bytes stay for those who have it open. -/
def remove (tree : FileTree) (path : String) : Except FileError FileTree := do
  let location ← tree.locate path
  match tree.entry? location with
  | some (.file _) => return { tree with entries := tree.entries.filter (·.1 != location) }
  | _ => .error .isADirectory

/-- Makes a directory and the directories above it, as far as they are missing. Also tells what the
tree looks like when this fails halfway. -/
def makeDirectories (tree : FileTree) (path : String) : FileTree × Except FileError Unit :=
  if path.isEmpty then (tree, .ok ())
  else
    match tree.makeDirectory path with
    | .ok made => (made, .ok ())
    | .error .notFound =>
      match _ : Path.parent? path with
      | none => (tree, .error (.other "failed to create whole tree"))
      | some parent =>
        match tree.makeDirectories parent with
        | (above, .error e) => (above, .error e)
        | (above, .ok ()) =>
          match above.makeDirectory path with
          | .ok made => (made, .ok ())
          | .error e => (above, if above.isDirectory path then .ok () else .error e)
    | .error e => (tree, if tree.isDirectory path then .ok () else .error e)
termination_by path.toList.length
decreasing_by exact Path.length_parent?_lt (by assumption)

/-! ## Reading whole files -/

/-- The text of a file. -/
def readText (tree : FileTree) (path : String) : Except FileError (List Char) := do
  let location ← tree.locate path
  if tree.isDenied location then .error .permissionDenied
  else
    match tree.entry? location with
    | some (.file slot) =>
      match Utf8.decode (tree.bytes slot) with
      | some text => return text
      | none => .error .invalidData
    | _ => .error .isADirectory

end FileTree

end JackTokens
