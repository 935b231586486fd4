import JackTokens.Event
import JackTokens.FileTree.Handle
import JackTokens.Text.Quoted

/-!
# Sources

The files a unit is made of, as a queue of paths. A path that leads to a directory contributes the
files below it whose names end in a dot and the wanted extension, in the order of the bytes of their
names, whatever order the directory lists them in; any other path stands for itself, and whether it
can be opened is found out when its turn comes.

A run over sources fails in one of three ways, and the first failure ends it.
-/

namespace JackTokens

/-- Why a run over sources failed. -/
inductive TokenizeError where
  /-- A path could not be opened, or a directory not listed. -/
  | sourceNotFound (path : String) (cause : FileError)
  /-- A line could not be read. -/
  | unreadable (file : String) (line : UInt32) (cause : FileError)
  /-- No rule matches a text. -/
  | malformedLexeme (file : String) (line : UInt32) (text : String)
  deriving DecidableEq, Repr, Inhabited

namespace TokenizeError

/-- The text of a failure. -/
def message : TokenizeError → String
  | sourceNotFound path _ => "source not found: " ++ path
  | unreadable file line cause =>
    "failed to read " ++ file ++ " at line " ++ toString line ++ ": " ++ cause.message
  | malformedLexeme file line text =>
    "no lexeme recognized in " ++ file ++ " at line " ++ toString line ++ ": " ++ Text.quoted text

/-- The line a failure is about. -/
def line? : TokenizeError → Option UInt32
  | sourceNotFound _ _ => none
  | unreadable _ line _ => some line
  | malformedLexeme _ line _ => some line

/-- What went wrong below. -/
def cause? : TokenizeError → Option FileError
  | sourceNotFound _ cause => some cause
  | unreadable _ _ cause => some cause
  | malformedLexeme _ _ _ => none

end TokenizeError

/-- **A source that has been opened**: the name it is shown under, its path, and how far it has been
read. -/
structure SourceFile where
  name : String
  path : String
  handle : Handle
  deriving DecidableEq, Repr, Inhabited

namespace SourceFile

/-- Opens a source. -/
def openAt (tree : FileTree) (path : String) : Except FileError SourceFile := do
  let handle ← tree.openFile path
  return { name := Path.displayName path, path := path, handle := handle }

/-- Reads a line: the source behind it, and its text. -/
def readLine (tree : FileTree) (source : SourceFile) :
    SourceFile × Except FileError (Option (List Char)) :=
  let (handle, line) := tree.readLine source.handle
  ({ source with handle := handle }, line)

/-- How many bytes of a source can still be read. -/
def unread (tree : FileTree) (source : SourceFile) : Nat := tree.unread source.handle

/-- Reading a line leaves less to read. -/
theorem unread_readLine {tree : FileTree} {source next : SourceFile} {text : List Char}
    (read : source.readLine tree = (next, .ok (some text))) :
    next.unread tree < source.unread tree := by
  simp only [readLine, Prod.mk.injEq] at read
  obtain ⟨rfl, line⟩ := read
  exact FileTree.unread_readLine (Prod.ext rfl line)

end SourceFile

namespace Source

/-- Does a name end in a dot and an extension? -/
def hasExtension (extension name : String) : Bool :=
  ('.' :: extension.toList).isSuffixOf name.toList

/-- The order of names by their bytes. -/
def byteLE (first second : String) : Bool :=
  decide (Utf8.encode first.toList ≤ Utf8.encode second.toList)

/-- The names below a directory that are sources: with the extension, and no directories. They come in
the order of their bytes. -/
def select (tree : FileTree) (directory extension : String) (names : List String) : List String :=
  (names.filter fun name =>
    hasExtension extension name && !tree.isDirectory (Path.join directory name)).mergeSort byteLE

/-- The queue for a path, and what there is to tell about it. -/
def collect (tree : FileTree) (path extension : String) :
    Except TokenizeError (List String × List Event) :=
  if tree.isDirectory path then
    match tree.list path with
    | .error cause => .error (.sourceNotFound path cause)
    | .ok names =>
      let sources := (select tree path extension names).map (Path.join path)
      let event :=
        if sources.isEmpty then Event.noSources path extension
        else Event.queued path sources.length
      .ok (sources, [event])
  else .ok ([path], [])

end Source

end JackTokens
