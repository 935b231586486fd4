import JackTokens.CommandLine

/-!
# The program

One run of the program, as a function of its arguments, its environment and the files: what it prints,
what it tells, how it ends, and the files behind it. The arguments are read first, then the settings,
and only then the command runs; the first that fails ends the run.
-/

namespace JackTokens

/-- What surrounds a run: the environment's share in the options, and the places of settings. -/
structure World where
  environment : CommandLine.Environment := {}
  surroundings : Surroundings := {}
  deriving DecidableEq, Repr, Inhabited

/-- How a run ended. -/
inductive Ending where
  | success
  | failure (cause : CommandError)
  /-- The arguments make no sense. -/
  | misuse
  deriving DecidableEq, Repr, Inhabited

/-- The exit status of an ending. -/
def Ending.status : Ending → Nat
  | success => 0
  | failure _ => 1
  | misuse => 2

/-- **A run**: what was printed, what there is to tell and from which level on, how it ended, and the
files behind it. -/
structure Completion where
  output : String := ""
  events : List Event := []
  level : Level := .info
  ending : Ending := .success
  tree : FileTree

/-- The ending of a command. -/
def Ending.ofResult {α : Type} : Except CommandError α → Ending
  | .ok _ => .success
  | .error e => .failure e

namespace Program

/-- What is told about the use of the program. -/
def usage : String :=
  "Usage: jackt [OPTIONS] <COMMAND>\n\nCommands:\n" ++
  String.join (CommandLine.CommandName.all.map fun command =>
    "  " ++ command.name ++ "  " ++ command.description ++ "\n")

/-- Loads the settings for an invocation. -/
def settings (world : World) (tree : FileTree) (invocation : CommandLine.Invocation) :
    Except CommandError Settings :=
  match invocation.configuration with
  | some path => Settings.load tree path
  | none => Settings.search tree world.surroundings

/-- The least level of the events that are told. -/
def level (verbose : Bool) : Level := if verbose then .debug else .info

/-- Runs a command. -/
def perform (tree : FileTree) (settings : Settings) (verbose : Bool) :
    CommandLine.Request → Completion
  | .tokenize request =>
    let outcome := { request with verbose := verbose }.execute tree settings {}
    { output := outcome.sink.text, events := outcome.events, level := level verbose
      ending := .ofResult outcome.result, tree := tree }
  | .init request =>
    let outcome := { request with verbose := verbose }.execute tree
    { events := outcome.events, level := level verbose
      ending := .ofResult outcome.result, tree := outcome.tree }

/-- **Runs the program.** -/
def run (world : World) (tree : FileTree) (arguments : List String) : Completion :=
  match CommandLine.parse world.environment arguments with
  | .error .misuse => { ending := .misuse, tree := tree }
  | .error (.help _) => { output := usage, tree := tree }
  | .error (.version scope) => { output := CommandLine.Scope.version scope, tree := tree }
  | .ok invocation =>
    match settings world tree invocation with
    | .error e => { ending := .failure e, tree := tree }
    | .ok settings =>
      perform tree settings (invocation.verbose || settings.verbose) invocation.request

end Program

end JackTokens
