import JackTokens.Settings.File

/-!
# The init command

Writes a settings file with the defaults into a directory. A file that is there already is left alone,
with a warning, unless the request insists.
-/

namespace JackTokens

/-- **A request to write a settings file** into a directory, by default into the working directory. -/
structure InitRequest where
  path : Option String := none
  /-- Is a file that is there already to be replaced? -/
  force : Bool := false
  verbose : Bool := false
  deriving DecidableEq, Repr, Inhabited

/-- What the init command did: the files behind it, what there is to tell, and how it ended. -/
structure InitOutcome where
  tree : FileTree
  events : List Event
  result : Except CommandError (Report String)

/-- The directory a request is about. -/
def InitRequest.target (tree : FileTree) (request : InitRequest) : String :=
  request.path.getD tree.workingPath

/-- **The init command.** Its result is the path of the settings file. -/
def InitRequest.execute (tree : FileTree) (request : InitRequest) : InitOutcome :=
  let target := request.target tree
  if tree.pathExists target && !tree.isDirectory target then
    ⟨tree, [], .error (.request (.notADirectory target))⟩
  else
    let path := Path.join target Settings.fileName
    if tree.pathExists path && !request.force then
      let warning := "Configuration file already exists, skipping: " ++ path
      { tree := tree
        events := if request.verbose then [.warning warning] else []
        result := .ok { data := path, warnings := [warning] } }
    else
      match Settings.save tree path {} with
      | (tree, .error e) => ⟨tree, [], .error e⟩
      | (tree, .ok ()) =>
        { tree := tree
          events := if request.verbose then [.settingsCreated path] else []
          result := .ok { data := path, items := 1 } }

end JackTokens
