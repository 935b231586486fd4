import JackTokens.Command.Basic
import JackTokens.Settings.Basic

/-!
# Settings files

Settings are loaded from a file that is named, or from the first of three places that has one; where
there is none, the defaults hold. A file that is there has to be readable and well formed: a broken one
is a failure, and no other place is tried.
-/

namespace JackTokens

/-- Where settings are looked for beside the working directory: the home directory of the user and the
directory for settings, as far as they are known. -/
structure Surroundings where
  home : Option String := none
  configuration : Option String := none
  deriving DecidableEq, Repr, Inhabited

namespace Settings

/-- The name of a settings file. -/
def fileName : String := "jackt.toml"

/-- **Loads the settings from a file.** -/
def load (tree : FileTree) (path : String) : Except CommandError Settings :=
  if tree.pathExists path then
    match tree.readText path with
    | .error cause => .error (.file cause)
    | .ok text =>
      match parse? text with
      | some settings => .ok settings
      | none => .error (.settings .malformed)
  else .error (.settings (.notFound path))

/-- The places of a settings file, in the order in which they are tried. -/
def places (surroundings : Surroundings) : List String :=
  let home := surroundings.home.map fun directory =>
    Path.join (Path.join (Path.join directory ".config") "jackt") fileName
  let configuration := surroundings.configuration.map fun directory =>
    Path.join (Path.join directory "jackt") fileName
  fileName :: (home.toList ++ configuration.toList)

/-- **Loads the settings from the first place that has a file**, or takes the defaults. -/
def search (tree : FileTree) (surroundings : Surroundings) : Except CommandError Settings :=
  match (places surroundings).find? tree.pathExists with
  | some path => load tree path
  | none => .ok {}

/-- **Saves the settings to a file**, after making the directory it is to be in. -/
def save (tree : FileTree) (path : String) (settings : Settings) :
    FileTree × Except CommandError Unit :=
  let (parented, made) := match Path.parent? path with
    | some directory => tree.makeDirectories directory
    | none => (tree, .ok ())
  match made with
  | .error cause => (parented, .error (.file cause))
  | .ok () =>
    match parented.write path (Utf8.encode settings.render) with
    | .error cause => (parented, .error (.file cause))
    | .ok written => (written, .ok ())

end Settings

end JackTokens
