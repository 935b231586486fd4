import JackTokens.Command.Basic
import JackTokens.Dump
import JackTokens.Settings.Basic
import JackTokens.Sink

/-!
# The tokenize command

Shows the tokens of a file, or of the sources in a directory. What the request does not say, the
settings decide. Everything about the request is checked before a source is opened, and in a fixed
order, so that of several faults always the same one is told.

Ungrouped lines are shown while the tokenizer runs: when it fails, the lines of the tokens before the
failure are out already. The other forms need the whole stream, so that nothing is shown of a run that
fails.
-/

namespace JackTokens

/-! ## Options by name -/

/-- A name without regard to the case of its letters. -/
def foldCase (name : String) : String := String.ofList (name.toList.map Char.toLower)

/-- The format with a name. -/
def OutputFormat.ofName? (name : String) : Option OutputFormat :=
  match foldCase name with
  | "text" => some .text
  | "txt" => some .text
  | "json" => some .json
  | _ => none

/-- The numbering with a name. -/
def LineNumbering.ofName? (name : String) : Option LineNumbering :=
  match foldCase name with
  | "global" => some .global
  | "per-file" => some .perFile
  | "perfile" => some .perFile
  | _ => none

/-- The identifier rule with a name. -/
def IdentifierRule.ofName? (name : String) : Option IdentifierRule :=
  match foldCase name with
  | "alphanumeric" => some .alphanumeric
  | "alphabetic" => some .alphabetic
  | _ => none

/-- The format with a name, or why there is none. -/
def OutputFormat.ofName (name : String) : Except CommandError OutputFormat :=
  match OutputFormat.ofName? name with
  | some format => .ok format
  | none => .error (.request (.unknownFormat name))

/-- The numbering with a name, or why there is none. -/
def LineNumbering.ofName (name : String) : Except CommandError LineNumbering :=
  match LineNumbering.ofName? name with
  | some numbering => .ok numbering
  | none => .error (.request (.unknownLineNumbering name))

/-- The identifier rule with a name, or why there is none. -/
def IdentifierRule.ofName (name : String) : Except CommandError IdentifierRule :=
  match IdentifierRule.ofName? name with
  | some rule => .ok rule
  | none => .error (.request (.unknownIdentifierRule name))

/-! ## Requests -/

/-- **A request to tokenize**, as it was given: a path, and options that may be missing. -/
structure TokenizeRequest where
  path : String
  format : Option String := none
  extension : Option String := none
  lineNumbering : Option String := none
  identifiers : Option String := none
  byFile : Bool := false
  verbose : Bool := false
  deriving DecidableEq, Repr, Inhabited

/-- What is to be done: a request with the settings behind it. -/
structure TokenizePlan where
  policy : Policy
  format : OutputFormat
  byFile : Bool
  deriving DecidableEq, Repr, Inhabited

/-- An option that was given, or what holds without it. -/
def optionOr {α : Type} (read : String → Except CommandError α) (given : Option String)
    (otherwise : α) : Except CommandError α :=
  match given with
  | some name => read name
  | none => .ok otherwise

/-- **The plan for a request.** The request is asked first and the settings after it; the extension is
checked first, then the numbering, the identifier rule and the format. -/
def TokenizeRequest.plan (settings : Settings) (request : TokenizeRequest) :
    Except CommandError TokenizePlan := do
  let policy := settings.tokenizer
  let extension := bareExtension (request.extension.getD policy.extension)
  if extension.isEmpty then throw (.request .emptyExtension)
  let numbering ← optionOr LineNumbering.ofName request.lineNumbering policy.lineNumbering
  let identifiers ← optionOr IdentifierRule.ofName request.identifiers policy.identifiers
  let format ← optionOr OutputFormat.ofName request.format settings.output.format
  return {
    policy := { extension := extension, lineNumbering := numbering, identifiers := identifiers }
    format := format
    byFile := request.byFile || settings.output.byFile }

/-! ## Showing tokens -/

/-- Shows each token in a line of its own as soon as it is found. The run stops where a line finds no
room. -/
def Tokenizer.stream (tree : FileTree) (t : Tokenizer) (sink : Sink) :
    Tokenizer × Sink × Except CommandError Unit :=
  match _ : t.step tree with
  | (next, .working) => Tokenizer.stream tree next sink
  | (next, .yielded token) =>
    match sink.write (Dump.tokenLine token) with
    | (sink, .ok ()) => Tokenizer.stream tree next sink
    | (sink, .error cause) => (next, sink, .error (.file cause))
  | (next, .finished) => (next, sink, .ok ())
  | (next, .failed e) => (next, sink, .error (.tokenize e))
termination_by t.workload tree
decreasing_by all_goals exact workload_lt (by assumption) (by simp)

/-- Shows the tokens of a complete run as a document, with a line break behind it. -/
def Sink.writeDocument (sink : Sink) (document : Json) : Sink × Except CommandError Unit :=
  match sink.write document.indented with
  | (sink, .error cause) => (sink, .error (.document cause))
  | (sink, .ok ()) =>
    match sink.write "\n" with
    | (sink, .error cause) => (sink, .error (.file cause))
    | (sink, .ok ()) => (sink, .ok ())

/-- Runs a tokenizer and shows its tokens. -/
def TokenizePlan.run (tree : FileTree) (plan : TokenizePlan) (t : Tokenizer) (sink : Sink) :
    Tokenizer × Sink × Except CommandError Unit :=
  match plan.format, plan.byFile with
  | .text, false => t.stream tree sink
  | format, _ =>
    match t.drain tree with
    | (final, .error e) => (final, sink, .error (.tokenize e))
    | (final, .ok ()) =>
      match format with
      | .text =>
        match sink.write (Dump.grouped final.fileTokens) with
        | (sink, .error cause) => (final, sink, .error (.file cause))
        | (sink, .ok ()) => (final, sink, .ok ())
      | .json =>
        let (sink, shown) := sink.writeDocument (Dump.document final.fileTokens)
        (final, sink, shown)

/-! ## The command -/

/-- What the tokenize command did: what it showed, what there is to tell, and how it ended. -/
structure TokenizeOutcome where
  sink : Sink
  events : List Event
  result : Except CommandError (Report Nat)

/-- The warnings about files without tokens. -/
def Tokenizer.emptyFileWarnings (t : Tokenizer) : List String :=
  (t.files.toList.filter fun record => record.count == 0).map fun record =>
    "File produced no tokens: " ++ record.name

/-- The warning about a run without tokens. -/
def Tokenizer.emptyRunWarning? (t : Tokenizer) (path : String) : Option String :=
  if t.tokens.isEmpty then some ("No tokens produced from " ++ path) else none

/-- **The tokenize command.** Its result is the number of tokens, its items are the files. -/
def TokenizeRequest.execute (tree : FileTree) (settings : Settings) (request : TokenizeRequest)
    (sink : Sink) : TokenizeOutcome :=
  match request.plan settings with
  | .error e => ⟨sink, [], .error e⟩
  | .ok plan =>
    if tree.pathExists request.path then
      let began : Event := .tokenizing request.path plan.policy plan.format
      match Tokenizer.ofPath tree plan.policy request.path with
      | .error e => ⟨sink, [began], .error (.tokenize e)⟩
      | .ok start =>
        match plan.run tree start sink with
        | (final, sink, .error e) => ⟨sink, began :: final.journal.toList, .error e⟩
        | (final, sink, .ok ()) =>
          let emptyFiles := final.emptyFileWarnings
          let emptyRun := (final.emptyRunWarning? request.path).toList
          let told := (if request.verbose then emptyFiles else []) ++ emptyRun
          { sink := sink
            events := began :: final.journal.toList ++ told.map .warning ++
              [.finished final.files.size final.tokens.size]
            result := .ok
              { data := final.tokens.size
                items := final.files.size
                warnings := emptyFiles ++ emptyRun } }
    else ⟨sink, [], .error (.request (.noInput request.path))⟩

end JackTokens
