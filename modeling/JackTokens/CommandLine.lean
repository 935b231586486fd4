import JackTokens.Command.Init
import JackTokens.Command.Tokenize

/-!
# The command line

Arguments are read from left to right, first those of the program and then, from the name of a command
on, those of the command. Each of the two levels takes the options of the program, and the command its
own besides.

An option that takes a value has it attached, or finds it in the next argument. In the second case the
value is **pending**: it is only looked at when the next option, the next plain argument or the end of
the level comes. That matters because asking for help or for the version ends the reading at once: what
was still pending at the level of the program has not been looked at by then, and what comes later is
never read.

A level ends by asking the environment for the program's options that were not given there. Of an
option given at both levels the command's counts, and the environment counts last.
-/

namespace JackTokens

namespace CommandLine

/-- The commands. -/
inductive CommandName where
  | tokenize | init
  deriving DecidableEq, Repr, Inhabited

/-- All commands. -/
def CommandName.all : List CommandName := [.tokenize, .init]

/-- The name of a command. -/
def CommandName.name : CommandName → String
  | tokenize => "tokenize"
  | init => "init"

/-- What a command is for. -/
def CommandName.description : CommandName → String
  | tokenize => "Tokenize a Jack source file or directory"
  | init => "Write a default jackt.toml"

/-- The level of an argument: the program, or a command. -/
abbrev Scope := Option CommandName

/-- The name of a level, as its version is told. -/
def Scope.title : Scope → String
  | none => "jackt"
  | some command => "jackt-" ++ command.name

/-- What is told about the version. -/
def Scope.version (scope : Scope) : String := Scope.title scope ++ " 0.1.0\n"

/-- Options without a value. -/
inductive Switch where
  | verbose | noColor | byFile | force | help | version
  deriving DecidableEq, Repr, Inhabited

/-- Options with a value, and the plain argument. -/
inductive Field where
  | configuration | format | extension | lineNumbering | identifiers
  /-- The directory to write settings into. -/
  | target
  /-- The plain argument: what to tokenize. -/
  | source
  deriving DecidableEq, Repr, Inhabited

/-- Paths must not be empty. -/
def Field.isPath : Field → Bool
  | configuration => true
  | target => true
  | source => true
  | _ => false

/-- An option. -/
inductive Choice where
  | switch (switch : Switch)
  | field (field : Field)
  deriving DecidableEq, Repr, Inhabited

/-- The option with a long name at a level. -/
def Scope.long? (scope : Scope) (name : String) : Option Choice :=
  match scope, name with
  | _, "verbose" => some (.switch .verbose)
  | _, "config" => some (.field .configuration)
  | _, "no-color" => some (.switch .noColor)
  | _, "help" => some (.switch .help)
  | _, "version" => some (.switch .version)
  | some .tokenize, "format" => some (.field .format)
  | some .tokenize, "extension" => some (.field .extension)
  | some .tokenize, "line-numbering" => some (.field .lineNumbering)
  | some .tokenize, "identifiers" => some (.field .identifiers)
  | some .tokenize, "by-file" => some (.switch .byFile)
  | some .init, "path" => some (.field .target)
  | some .init, "force" => some (.switch .force)
  | _, _ => none

/-- The option with a letter at a level. -/
def Scope.short? (scope : Scope) (letter : Char) : Option Choice :=
  match scope, letter with
  | _, 'v' => some (.switch .verbose)
  | _, 'c' => some (.field .configuration)
  | _, 'h' => some (.switch .help)
  | _, 'V' => some (.switch .version)
  | some .tokenize, 'F' => some (.field .format)
  | some .tokenize, 'e' => some (.field .extension)
  | some .init, 'p' => some (.field .target)
  | some .init, 'f' => some (.switch .force)
  | _, _ => none

/-- Why the reading of arguments stopped early. -/
inductive Stop where
  /-- The arguments make no sense. -/
  | misuse
  | help (scope : Scope)
  | version (scope : Scope)
  deriving DecidableEq, Repr, Inhabited

/-- A field that awaits its value, or a value that awaits to be looked at. -/
inductive Pending where
  | nothing
  | awaiting (field : Field)
  | received (field : Field) (value : String)
  deriving DecidableEq, Repr, Inhabited

/-- **What a level has been told so far.** -/
structure Told where
  switches : List Switch := []
  fields : List (Field × String) := []
  pending : Pending := .nothing
  deriving DecidableEq, Repr, Inhabited

namespace Told

/-- The value of a field. -/
def field? (told : Told) (field : Field) : Option String := told.fields.lookup field

/-- Was a switch given? -/
def has (told : Told) (switch : Switch) : Bool := told.switches.contains switch

/-- A field is given a value. It may have none yet, and a path must not be empty. -/
def assign (told : Told) (field : Field) (value : String) : Except Stop Told :=
  if (told.field? field).isSome || (field.isPath && value.isEmpty) then .error .misuse
  else .ok { told with fields := (field, value) :: told.fields }

/-- Looks at what is pending. -/
def settle (told : Told) : Except Stop Told :=
  match told.pending with
  | .nothing => .ok told
  | .awaiting _ => .error .misuse
  | .received field value => { told with pending := .nothing }.assign field value

/-- A switch is given. Each but those that stop the reading may be given once. -/
def turnOn (scope : Scope) (told : Told) (switch : Switch) : Except Stop Told := do
  let told ← told.settle
  match switch with
  | .help => throw (.help scope)
  | .version => throw (.version scope)
  | _ =>
    if told.has switch then throw .misuse
    else return { told with switches := switch :: told.switches }

/-- A field is given, perhaps with its value. -/
def give (told : Told) (field : Field) (value : Option String) : Except Stop Told := do
  let told ← told.settle
  match value with
  | some value => told.assign field value
  | none => return { told with pending := .awaiting field }

/-- An option by its long name, perhaps with a value behind an equals sign. -/
def takeLong (scope : Scope) (told : Told) (text : List Char) : Except Stop Told :=
  let name := String.ofList (text.takeWhile (· != '='))
  let value := match text.dropWhile (· != '=') with
    | [] => none
    | _ :: value => some (String.ofList value)
  match Scope.long? scope name with
  | none => .error .misuse
  | some (.switch switch) => if value.isSome then .error .misuse else told.turnOn scope switch
  | some (.field field) => told.give field value

/-- Options by their letters. The first that takes a value has the rest as its value, with or without an
equals sign before it. -/
def takeShort (scope : Scope) (told : Told) : List Char → Except Stop Told
  | [] => .ok told
  | letter :: rest =>
    match Scope.short? scope letter with
    | none => .error .misuse
    | some (.switch switch) => do takeShort scope (← told.turnOn scope switch) rest
    | some (.field field) =>
      let value := match rest with
        | [] => none
        | '=' :: value => some (String.ofList value)
        | value => some (String.ofList value)
      told.give field value

/-- A plain argument that is no value of an option. Only one command takes one, and only one. -/
def takePlain (scope : Scope) (told : Told) (argument : String) : Except Stop Told := do
  let told ← told.settle
  if scope = some .tokenize ∧ told.field? .source = none then
    return { told with pending := .received .source argument }
  else throw .misuse

/-- An argument. -/
def take (scope : Scope) (told : Told) (argument : String) : Except Stop Told :=
  match argument.toList with
  | '-' :: '-' :: text => told.takeLong scope text
  | '-' :: letter :: letters => told.takeShort scope (letter :: letters)
  | _ =>
    match told.pending with
    | .awaiting field => .ok { told with pending := .received field argument }
    | _ => told.takePlain scope argument

/-- Does an option await its value? -/
def isAwaiting (told : Told) : Bool :=
  match told.pending with
  | .awaiting _ => true
  | _ => false

end Told

/-- What a plain argument of the program may name. -/
inductive Topic where
  | command (name : CommandName)
  /-- Help about the program or a command. -/
  | help
  deriving DecidableEq, Repr, Inhabited

/-- The topic with a name. -/
def Topic.ofName? (name : String) : Option Topic :=
  if name = "help" then some .help
  else (CommandName.all.find? fun command => command.name == name).map .command

/-- **Reads the arguments of a level**, up to the name of a command if the level is the program's. An
argument of two dashes alone ends the options. -/
def scan (scope : Scope) (told : Told) :
    List String → Except Stop (Told × Option (Topic × List String))
  | [] => .ok (told, none)
  | argument :: arguments =>
    match (if scope = none ∧ !told.isAwaiting then Topic.ofName? argument else none) with
    | some topic => .ok (told, some (topic, arguments))
    | none => do
      if argument = "--" then
        return (← arguments.foldlM (Told.takePlain scope) told, none)
      else
        scan scope (← told.take scope argument) arguments

/-- What the environment says about the program's options. -/
structure Environment where
  verbose : Option String := none
  configuration : Option String := none
  noColor : Option String := none
  deriving DecidableEq, Repr, Inhabited

/-- Is a text the name of a truth value? -/
def isTruth (text : String) : Bool := text == "true" || text == "false"

/-- Is a value of the environment good, as far as a level asks for it? -/
def Environment.suits (environment : Environment) (told : Told) : Bool :=
  (told.has .verbose || environment.verbose.all isTruth) &&
  (told.has .noColor || environment.noColor.all isTruth) &&
  ((told.field? .configuration).isSome || environment.configuration.all fun path => !path.isEmpty)

/-- Ends a level: nothing may be left pending, and the environment must be good. -/
def finish (environment : Environment) (told : Told) : Except Stop Told := do
  let told ← told.settle
  if environment.suits told then return told else throw .misuse

/-- A command with its own arguments. -/
inductive Request where
  | tokenize (request : TokenizeRequest)
  | init (request : InitRequest)
  deriving DecidableEq, Repr, Inhabited

/-- **What the program is asked to do.** -/
structure Invocation where
  verbose : Bool
  configuration : Option String
  noColor : Bool
  request : Request
  deriving DecidableEq, Repr, Inhabited

/-- The request of a command. -/
def request (command : CommandName) (told : Told) : Except Stop Request :=
  match command with
  | .tokenize =>
    match told.field? .source with
    | none => .error .misuse
    | some path =>
      .ok (.tokenize
        { path := path
          format := told.field? .format
          extension := told.field? .extension
          lineNumbering := told.field? .lineNumbering
          identifiers := told.field? .identifiers
          byFile := told.has .byFile })
  | .init => .ok (.init { path := told.field? .target, force := told.has .force })

/-- The scope that help is asked for. -/
def helpScope : List String → Except Stop Scope
  | [] => .ok none
  | [name] =>
    match Topic.ofName? name with
    | some (.command command) => .ok (some command)
    | some .help => .ok none
    | none => .error .misuse
  | _ => .error .misuse

/-- **Reads all arguments.** -/
def parse (environment : Environment) (arguments : List String) : Except Stop Invocation := do
  match ← scan none {} arguments with
  | (_, none) => throw .misuse
  | (_, some (.help, names)) => throw (.help (← helpScope names))
  | (program, some (.command command, rest)) =>
    let (own, _) ← scan (some command) {} rest
    let own ← finish environment own
    let request ← request command own
    let program ← finish environment program
    return {
      verbose := own.has .verbose || program.has .verbose || environment.verbose == some "true"
      configuration :=
        (own.field? .configuration <|> program.field? .configuration) <|> environment.configuration
      noColor := own.has .noColor || program.has .noColor || environment.noColor == some "true"
      request := request }

end CommandLine

end JackTokens
