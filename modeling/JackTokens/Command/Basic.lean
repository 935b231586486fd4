import JackTokens.Source

/-!
# Commands

What all commands have in common: the report of one that succeeded, and the failures of those that do
not. A failure is kept as its cause; the text for it is made in one place.
-/

namespace JackTokens

/-- **The report of a command**: its result, how many items it worked on, how long it took in
milliseconds, and what it has to warn of. -/
structure Report (α : Type) where
  data : α
  items : Nat := 0
  time : Nat := 0
  warnings : List String := []
  deriving DecidableEq, Repr, Inhabited

namespace Report

variable {α : Type}

/-- The report with a number of items. -/
def withItems (report : Report α) (count : Nat) : Report α := { report with items := count }

/-- The report with a duration. -/
def withTime (report : Report α) (milliseconds : Nat) : Report α :=
  { report with time := milliseconds }

/-- The report with one more warning. -/
def withWarning (report : Report α) (warning : String) : Report α :=
  { report with warnings := report.warnings ++ [warning] }

end Report

/-- Why settings could not be had. -/
inductive SettingsFault where
  | notFound (path : String)
  | malformed
  | other (text : String)
  deriving DecidableEq, Repr, Inhabited

/-- The text of a fault. -/
def SettingsFault.message : SettingsFault → String
  | notFound path => "Configuration file not found: " ++ path
  | malformed => "Failed to parse configuration"
  | other text => text

/-- Why a request was refused. -/
inductive RequestFault where
  /-- No extension is left when its dots are gone. -/
  | emptyExtension
  | unknownFormat (name : String)
  | unknownLineNumbering (name : String)
  | unknownIdentifierRule (name : String)
  /-- There is nothing at the path to read. -/
  | noInput (path : String)
  /-- There is something else than a directory at the path to write to. -/
  | notADirectory (path : String)
  | other (text : String)
  deriving DecidableEq, Repr, Inhabited

/-- The text of a fault. -/
def RequestFault.message : RequestFault → String
  | emptyExtension => "Source extension must not be empty"
  | unknownFormat name => "Unknown format: " ++ name
  | unknownLineNumbering name => "Unknown line numbering: " ++ name
  | unknownIdentifierRule name => "Unknown identifier rule: " ++ name
  | noInput path => "Input path does not exist: " ++ path
  | notADirectory path => "Target path is not a directory: " ++ path
  | other text => text

/-- **Why a command failed.** -/
inductive CommandError where
  | settings (fault : SettingsFault)
  | request (fault : RequestFault)
  | tokenize (cause : TokenizeError)
  | file (cause : FileError)
  /-- A document could not be written to its end. -/
  | document (cause : FileError)
  deriving DecidableEq, Repr, Inhabited

/-- The text of a failure. -/
def CommandError.message : CommandError → String
  | settings fault => "Configuration error: " ++ fault.message
  | request fault => "Validation error: " ++ fault.message
  | tokenize cause => "Tokenize error: " ++ cause.message
  | file cause => "IO error: " ++ cause.message
  | document cause => "JSON error: " ++ cause.message

end JackTokens
