import JackTokens.Policy
import JackTokens.Toml.Document
import JackTokens.Toml.Written

/-!
# Settings

What a settings file says: the policies of the tokenizer and how its tokens are shown. A setting that
the file does not mention has its default, and what the file says beyond the settings is ignored.

A group of settings is written as a table with their names. It may also be written as an array, with the
settings in order, or as a date, which mentions none of them. A choice is written as the name of the
chosen value, or as a table with that name alone, over nothing.
-/

namespace JackTokens

/-- How tokens are shown. -/
inductive OutputFormat where
  /-- A line for each token. -/
  | text
  /-- One document with the tokens of each file. -/
  | json
  deriving DecidableEq, Repr, Inhabited

/-- The name of a format in settings. -/
def OutputFormat.name : OutputFormat → String
  | text => "text"
  | json => "json"

/-- The settings for output. -/
structure OutputSettings where
  format : OutputFormat := .text
  /-- Are the tokens of each file shown below its name? -/
  byFile : Bool := false
  deriving DecidableEq, Repr, Inhabited

/-- **All settings.** -/
structure Settings where
  verbose : Bool := false
  tokenizer : Policy := {}
  output : OutputSettings := {}
  deriving DecidableEq, Repr, Inhabited

namespace Toml.Value

/-- The entries of a group of settings with given names. -/
def group? (names : List String) : Value → Option Entries
  | table _ entries => some entries
  | array items => some (names.zip items)
  | tables latest earlier => some (names.zip ((latest :: earlier).reverse.map (table .header)))
  | datetime => some []
  | _ => none

/-- A truth value. -/
def boolean? : Value → Option Bool
  | boolean value => some value
  | _ => none

/-- A string. -/
def string? : Value → Option String
  | string text => some text
  | _ => none

/-- Is this a table or an array that holds nothing? -/
def isHollow : Value → Bool
  | table _ entries => entries.isEmpty
  | array items => items.isEmpty
  | _ => false

/-- One of several values, by name. -/
def choice? {α : Type} (name : α → String) (choices : List α) : Value → Option α
  | string text => choices.find? fun choice => name choice == text
  | table _ [(key, value)] =>
    if value.isHollow then choices.find? fun choice => name choice == key else none
  | _ => none

end Toml.Value

/-- A setting, or its default where it is not mentioned. -/
def Toml.Entries.setting {α : Type} (entries : Toml.Entries) (key : String)
    (read : Toml.Value → Option α) (default : α) : Option α :=
  match entries.find? key with
  | some value => read value
  | none => some default

/-- The policies in a value. -/
def Policy.ofValue? (value : Toml.Value) : Option Policy := do
  let entries ← value.group? ["extension", "line_numbering", "identifiers"]
  let extension ← entries.setting "extension" (fun value => value.string?.map bareExtension) "jack"
  let numbering ← entries.setting "line_numbering"
    (Toml.Value.choice? LineNumbering.name [.global, .perFile]) .global
  let identifiers ← entries.setting "identifiers"
    (Toml.Value.choice? IdentifierRule.name [.alphanumeric, .alphabetic]) .alphanumeric
  return { extension := extension, lineNumbering := numbering, identifiers := identifiers }

/-- The settings for output in a value. -/
def OutputSettings.ofValue? (value : Toml.Value) : Option OutputSettings := do
  let entries ← value.group? ["format", "by_file"]
  let format ← entries.setting "format" (Toml.Value.choice? OutputFormat.name [.text, .json]) .text
  let byFile ← entries.setting "by_file" Toml.Value.boolean? false
  return { format := format, byFile := byFile }

namespace Settings

/-- The settings in the entries of a document. -/
def ofEntries? (entries : Toml.Entries) : Option Settings := do
  let verbose ← entries.setting "verbose" Toml.Value.boolean? false
  let tokenizer ← entries.setting "tokenizer" Policy.ofValue? {}
  let output ← entries.setting "output" OutputSettings.ofValue? {}
  return { verbose := verbose, tokenizer := tokenizer, output := output }

/-- **The settings that a text describes**, if it is a document and its settings have the right kinds. -/
def parse? (text : List Char) : Option Settings := (Toml.parse? text).bind ofEntries?

/-- A line of a settings file. -/
def line (key : String) (value : List Char) : List Char := key.toList ++ " = ".toList ++ value ++ ['\n']

/-- A truth value as it is written. -/
def truth (value : Bool) : List Char := (if value then "true" else "false").toList

/-- **The text of a settings file.** -/
def render (settings : Settings) : List Char :=
  line "verbose" (truth settings.verbose) ++
  "\n[tokenizer]\n".toList ++
  line "extension" (Toml.written settings.tokenizer.extension.toList) ++
  line "line_numbering" (Toml.written settings.tokenizer.lineNumbering.name.toList) ++
  line "identifiers" (Toml.written settings.tokenizer.identifiers.name.toList) ++
  "\n[output]\n".toList ++
  line "format" (Toml.written settings.output.format.name.toList) ++
  line "by_file" (truth settings.output.byFile)

end Settings

end JackTokens
