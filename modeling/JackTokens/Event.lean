import JackTokens.Settings.Basic
import JackTokens.Text.Quoted
import JackTokens.Text.Terminal
import JackTokens.Token.Basic

/-!
# Events

What a run tells about itself. An event is a value with a level; its text is made only when it is
shown, as the level, a message, and named fields. Nothing else depends on the text.

An event is shown in two ways. `render` gives its text as it is. `print` is for a terminal and keeps
commands to the terminal out of the message; the fields stand as they are.
-/

namespace JackTokens

/-- How much an event matters. -/
inductive Level where
  | trace | debug | info | warn
  deriving DecidableEq, Repr, Inhabited

namespace Level

/-- Levels by weight. -/
def rank : Level → Nat
  | trace => 0
  | debug => 1
  | info => 2
  | warn => 3

/-- The name of a level. -/
def name : Level → String
  | trace => "TRACE"
  | debug => "DEBUG"
  | info => "INFO"
  | warn => "WARN"

end Level

/-- Something that happened. -/
inductive Event where
  /-- A directory contributed files. -/
  | queued (directory : String) (count : Nat)
  /-- A directory holds no file with the wanted extension. -/
  | noSources (directory extension : String)
  | opened (file : String)
  | closed (file : String) (line : UInt32)
  /-- The file before the one that was just opened left a block comment open. -/
  | endedInComment (file : String)
  /-- A block comment is open at the end of a line. -/
  | commentContinues (line : UInt32)
  | emitted (token : Token)
  | completed (files tokens : Nat)
  /-- A command begins to tokenize what a path stands for. -/
  | tokenizing (path : String) (policy : Policy) (format : OutputFormat)
  /-- A command has shown all tokens. How long it took is not told. -/
  | finished (files tokens : Nat)
  /-- A command warns. -/
  | warning (text : String)
  /-- A command has written a settings file. -/
  | settingsCreated (path : String)
  deriving DecidableEq, Repr, Inhabited

namespace Event

/-- A numbering in an event. -/
def numberingText : LineNumbering → String
  | .global => "Global"
  | .perFile => "PerFile"

/-- An identifier rule in an event. -/
def identifiersText : IdentifierRule → String
  | .alphanumeric => "Alphanumeric"
  | .alphabetic => "Alphabetic"

/-- Policies in an event. -/
def policyText (policy : Policy) : String :=
  "TokenizerConfig \x7b extension: " ++ Text.quoted policy.extension ++ ", line_numbering: " ++
    numberingText policy.lineNumbering ++ ", identifiers: " ++ identifiersText policy.identifiers ++ " \x7d"

/-- A format in an event. -/
def formatText : OutputFormat → String
  | .text => "Text"
  | .json => "Json"

/-- The level of an event. -/
def level : Event → Level
  | queued _ _ => .debug
  | noSources _ _ => .warn
  | opened _ => .debug
  | closed _ _ => .debug
  | endedInComment _ => .warn
  | commentContinues _ => .debug
  | emitted _ => .trace
  | completed _ _ => .info
  | tokenizing _ _ _ => .debug
  | finished _ _ => .debug
  | warning _ => .warn
  | settingsCreated _ => .info

/-- What an event says. -/
def message : Event → String
  | queued _ _ => "queued source files"
  | noSources _ _ => "no source files in directory"
  | opened _ => "opened source file"
  | closed _ _ => "closed source file"
  | endedInComment _ => "file ended inside a block comment"
  | commentContinues _ => "block comment continues past end of line"
  | emitted _ => "emit"
  | completed _ _ => "tokenization complete"
  | tokenizing _ _ _ => "tokenizing"
  | finished _ _ => "tokenize finished"
  | warning text => text
  | settingsCreated _ => "created configuration file"

/-- The fields of an event, by name. -/
def fields : Event → List (String × String)
  | queued directory count => [("dir", directory), ("count", toString count)]
  | noSources directory extension => [("dir", directory), ("extension", extension)]
  | opened file => [("file", file)]
  | closed file line => [("file", file), ("line", toString line)]
  | endedInComment file => [("file", file)]
  | commentContinues line => [("line", toString line)]
  | emitted token => [("line", toString token.line), ("token", token.kind.describe)]
  | completed files tokens => [("files", toString files), ("tokens", toString tokens)]
  | tokenizing path policy format =>
    [("path", path), ("config", policyText policy), ("format", formatText format)]
  | finished files tokens => [("files", toString files), ("tokens", toString tokens)]
  | warning _ => []
  | settingsCreated path => [("path", path)]

/-- The level, a message, and the fields of an event. -/
def assemble (event : Event) (message : String) : String :=
  event.fields.foldl (fun text (name, value) => text ++ " " ++ name ++ "=" ++ value)
    (event.level.name ++ " " ++ message)

/-- An event as it is shown. -/
def render (event : Event) : String := event.assemble event.message

/-- An event as it is shown on a terminal. -/
def print (event : Event) : String := event.assemble (Text.inert event.message)

/-- The events of at least a given level, in order. -/
def atLeast (least : Level) (events : List Event) : List Event :=
  events.filter fun event => least.rank ≤ event.level.rank

/-- The events of at least a given level, as they are shown. -/
def renderFrom (least : Level) (events : List Event) : List String :=
  (atLeast least events).map render

/-- The events of at least a given level, as they are shown on a terminal. -/
def printFrom (least : Level) (events : List Event) : List String :=
  (atLeast least events).map print

end Event

end JackTokens
