import JackTokens.Proofs.Documents
import JackTokens.Proofs.Provenance
import JackTokens.Proofs.Units

/-!
# One stream in three forms

Plain lines are written while the tokenizer runs, and know nothing of files. Grouped lines and the document are
cut out of the stream at the end of the run, by the records of the files. This module says that the three
forms carry the same tokens.

**Files.** The sections that the records cut out are the stream, in the order in which the files were opened
(`Tokenizer.Sections.flatMap_fileTokens`), also where a file has no tokens or was opened twice. So plain lines
are the lines of the files, one file after the other, and grouped lines differ from them by a header before
each file.

**The document** is read back from its text (`Json.read?`) and then member by member (`Dump.readDocument?`); what
it says of a file are the rows of the file's tokens.

**The law** (`TokenizeRequest.execute_modes`): a request that succeeds in one form succeeds in each, with the
same report, and the forms are those of one list of files.
-/

namespace JackTokens

/-! ## The tokens of the files -/

namespace Tokenizer

variable {t : Tokenizer} {parts : List (List Token)}

@[simp] theorem map_name_fileTokens (t : Tokenizer) :
    t.fileTokens.map FileTokens.name = t.files.toList.map Provenance.name := by
  unfold fileTokens
  rw [List.map_map]
  show t.files.toList.zipIdx.map (Provenance.name ∘ Prod.fst) = _
  rw [← List.map_map, List.zipIdx_map_fst]

theorem Sections.map_tokens_fileTokens (sections : t.Sections parts) :
    t.fileTokens.map FileTokens.tokens = parts := by
  have cut := congrArg (List.map fun part : Option (List Token) => part.getD []) sections.map_tokensOf?
  rw [List.map_map, List.map_map] at cut
  unfold fileTokens
  rw [List.map_map]
  show t.files.toList.zipIdx.map ((fun i => (t.tokensOf? i).getD []) ∘ Prod.snd) = _
  rw [← List.map_map, List.zipIdx_map_snd, Array.length_toList, ← List.range_eq_range']
  simpa [Function.comp_def] using cut

/-- **The files have the tokens of the stream**, in order. -/
theorem Sections.flatMap_fileTokens (sections : t.Sections parts) :
    t.fileTokens.flatMap FileTokens.tokens = t.tokens.toList := by
  rw [sections.tokens, ← sections.map_tokens_fileTokens, List.flatMap_def]

end Tokenizer

/-! ## The forms -/

namespace Dump

@[simp] theorem lines_append (first second : List Token) : lines (first ++ second) = lines first ++ lines second := by
  unfold lines
  rw [List.map_append, String.join_append]

/-- Plain lines are the lines of the files. -/
theorem lines_flatMap (files : List FileTokens) :
    lines (files.flatMap FileTokens.tokens) = String.join (files.map fun file => lines file.tokens) := by
  induction files with
  | nil => rfl
  | cons file files ih => rw [List.flatMap_cons, lines_append, ih, List.map_cons, String.join_cons]

/-- The row that the record of a token in a document says. -/
def readRecord? : Json → Option Row
  | .object [("line", .number line), ("category", .string category), ("lexeme", .string lexeme)] =>
    some ⟨line, category, lexeme⟩
  | _ => none

/-- The name of a file in a document, and the rows of its tokens. -/
def readFile? : Json → Option (String × List Row)
  | .object [("file", .string name), ("tokens", .array records)] =>
    (records.mapM readRecord?).map fun rows => (name, rows)
  | _ => none

/-- **The files of a document**, with the rows of their tokens. -/
def readDocument? : Json → Option (List (String × List Row))
  | .array files => files.mapM readFile?
  | _ => none

@[simp] theorem mapM_readRecord? (tokens : List Token) :
    (tokens.map tokenRecord).mapM readRecord? = some (tokens.map Token.row) := by
  induction tokens with
  | nil => rfl
  | cons token tokens ih =>
    rw [List.map_cons, List.mapM_cons, ih]
    rfl

/-- **A document is read back.** -/
@[simp] theorem readDocument?_document (files : List FileTokens) :
    readDocument? (document files) = some (files.map fun file => (file.name, file.tokens.map Token.row)) := by
  unfold readDocument? document
  dsimp only
  induction files with
  | nil => rfl
  | cons file files ih =>
    rw [List.map_cons, List.mapM_cons, ih, readFile?, mapM_readRecord?]
    rfl

end Dump

/-! ## The law -/

namespace TokenizeRequest

variable {tree : FileTree} {settings : Settings} {request : TokenizeRequest} {plan : TokenizePlan}
  {final : Tokenizer} {told : Report Nat}

/-- What the policy of a plan is made of. -/
theorem plan_ok (planned : request.plan settings = .ok plan) :
    ∃ numbering identifiers,
      optionOr LineNumbering.ofName request.lineNumbering settings.tokenizer.lineNumbering = .ok numbering ∧
      optionOr IdentifierRule.ofName request.identifiers settings.tokenizer.identifiers = .ok identifiers ∧
      plan.policy = ⟨bareExtension (request.extension.getD settings.tokenizer.extension), numbering,
        identifiers⟩ := by
  unfold TokenizeRequest.plan at planned
  dsimp only at planned
  split at planned
  · cases planned
  · cases counted : optionOr LineNumbering.ofName request.lineNumbering settings.tokenizer.lineNumbering with
    | error e =>
      rw [counted] at planned
      cases planned
    | ok numbering =>
      cases ruled : optionOr IdentifierRule.ofName request.identifiers settings.tokenizer.identifiers with
      | error e =>
        rw [counted, ruled] at planned
        cases planned
      | ok identifiers =>
        refine ⟨numbering, identifiers, rfl, rfl, ?_⟩
        rw [counted, ruled] at planned
        cases formed : optionOr OutputFormat.ofName request.format settings.output.format with
        | error e =>
          rw [formed] at planned
          cases planned
        | ok format =>
          rw [formed] at planned
          cases planned
          rfl

/-- A request for the same sources with other options about the output. -/
def withForm (request : TokenizeRequest) (format : Option String) (byFile verbose : Bool) : TokenizeRequest :=
  { request with format := format, byFile := byFile, verbose := verbose }

/-- **The form of output does not touch the run.** -/
theorem Completes.withForm {format : Option String} {byFile verbose : Bool} {output : OutputSettings}
    {plan' : TokenizePlan} (completes : request.Completes tree settings plan final)
    (planned' : (request.withForm format byFile verbose).plan { settings with output := output } = .ok plan') :
    (request.withForm format byFile verbose).Completes tree { settings with output := output } plan' final := by
  obtain ⟨numbering, identifiers, counted, ruled, policy⟩ := plan_ok completes.planned
  obtain ⟨numbering', identifiers', counted', ruled', policy'⟩ := plan_ok planned'
  cases counted.symm.trans counted'
  cases ruled.symm.trans ruled'
  refine ⟨planned', completes.present, ?_⟩
  rw [policy']
  exact policy ▸ completes.ran

theorem Completes.exists_sections (completes : request.Completes tree settings plan final) :
    ∃ parts, final.Sections parts := by
  obtain ⟨start, fresh, visited⟩ := completes.exists_visits
  obtain ⟨parts, attributed⟩ := visited.attributed fresh
  exact ⟨parts, attributed.toSections⟩

/-- **All forms of output carry the same stream.** Behind a request that succeeds there is a list of files, those
that were opened, in order, whose tokens together are the stream. Whatever options about the output the same
request has, and whatever the settings say about it, the report is the same, and so is the list: plain lines
are those of the files, grouped lines have a header before each file, and the document has a member for each
file, grouped or not. Read back, the document and the plain lines have the same rows. -/
theorem execute_modes {room : Option Nat}
    (succeeded : (request.execute tree settings { room := room }).result = .ok told) :
    ∃ plan final, request.Completes tree settings plan final ∧
      final.fileTokens.map FileTokens.name = final.files.toList.map Provenance.name ∧
      final.fileTokens.flatMap FileTokens.tokens = final.tokens.toList ∧
      Dump.readDocument? (Dump.document final.fileTokens) =
        some (final.fileTokens.map fun file => (file.name, file.tokens.map Token.row)) ∧
      ∀ (format : Option String) (byFile verbose : Bool) (output : OutputSettings) (room' : Option Nat)
        (plan' : TokenizePlan),
        (request.withForm format byFile verbose).plan { settings with output := output } = .ok plan' →
        let outcome := (request.withForm format byFile verbose).execute tree { settings with output := output }
          { room := room' }
        (room' = none → outcome.result = .ok told) ∧
        ∀ told', outcome.result = .ok told' → told' = told ∧
          (plan'.format = .text → plan'.byFile = false →
            outcome.sink.text = String.join (final.fileTokens.map fun file => Dump.lines file.tokens) ∧
            Dump.rows? outcome.sink.text =
              some (final.fileTokens.flatMap fun file => file.tokens.map Token.row)) ∧
          (plan'.format = .text → plan'.byFile = true →
            outcome.sink.text = String.join (final.fileTokens.map fun file =>
              "# " ++ file.name ++ "\n" ++ Dump.lines file.tokens)) ∧
          (plan'.format = .json →
            outcome.sink.text = (Dump.document final.fileTokens).indented ++ "\n" ∧
            (Json.read? outcome.sink.text).bind Dump.readDocument? =
              some (final.fileTokens.map fun file => (file.name, file.tokens.map Token.row))) := by
  obtain ⟨plan, final, completes, reported, -⟩ := execute_ok succeeded
  obtain ⟨parts, sections⟩ := completes.exists_sections
  have stream := sections.flatMap_fileTokens
  refine ⟨plan, final, completes, final.map_name_fileTokens, stream, Dump.readDocument?_document _, ?_⟩
  intro format byFile verbose output room' plan' planned' outcome
  have completes' := completes.withForm planned'
  dsimp only [outcome]
  refine ⟨?_, ?_⟩
  · intro unbounded
    rw [reported]
    exact completes'.execute unbounded
  intro told' succeeded'
  obtain ⟨plan'', final', other, reported', written⟩ := execute_ok succeeded'
  obtain ⟨rfl, rfl⟩ := completes'.unique other
  rw [String.empty_append] at written
  refine ⟨reported'.trans reported.symm, ?_, ?_, ?_⟩
  · intro plain ungrouped
    have lines : plan''.output final' = Dump.lines final'.tokens.toList := by
      rw [TokenizePlan.output, plain, ungrouped]
    rw [written, lines]
    constructor
    · rw [← stream, Dump.lines_flatMap]
    · rw [Dump.rows?_lines completes.newline_not_mem, ← stream, List.map_flatMap]
  · intro plain grouped
    rw [written, TokenizePlan.output, plain, grouped]
    rfl
  · intro json
    have document : plan''.output final' = (Dump.document final'.fileTokens).indented ++ "\n" := by
      rw [TokenizePlan.output, json]
    rw [written, document]
    refine ⟨rfl, ?_⟩
    have blank : ∀ c ∈ "\n".toList, Json.isSpace c = true := by simp [Json.isSpace]
    rw [Json.read?_indented _ blank, Option.bind_some, Dump.readDocument?_document]

/-- The law at a directory that lists a file with two strings twice, and behind it a file without a line. The forms
have one report. In grouped lines each file has its header, also the one without tokens and the one that comes again;
the document has a member for each of them, and is the same grouped or not. -/
theorem execute_modes_repeated :
    let tree := FileTree.ofTexts [("A.jack", tabbed), ("A.jack", tabbed), ("B.jack", [])]
    let request : TokenizeRequest := { path := "/" }
    let shown (byFile : Bool) (format : OutputFormat) :=
      (request.withForm none byFile false).execute tree { output := { format := format } } {}
    let rows (line : Nat) : List Row := [⟨line, "stringConstant", "a\tb\r"⟩, ⟨line, "stringConstant", ""⟩]
    (∃ told, ∀ byFile format, (shown byFile format).result = .ok told) ∧
      (shown false .text).sink.text =
        "1\tstringConstant\ta\tb\r\n1\tstringConstant\t\n2\tstringConstant\ta\tb\r\n2\tstringConstant\t\n" ∧
      (shown true .text).sink.text =
        "# A.jack\n1\tstringConstant\ta\tb\r\n1\tstringConstant\t\n" ++
          "# A.jack\n2\tstringConstant\ta\tb\r\n2\tstringConstant\t\n# B.jack\n" ∧
      (Json.read? (shown false .json).sink.text).bind Dump.readDocument? =
        some [("A.jack", rows 1), ("A.jack", rows 2), ("B.jack", [])] ∧
      (shown true .json).sink.text = (shown false .json).sink.text := by
  intro tree request shown rows
  have bare : bareExtension "jack" = "jack" := by decide +kernel
  have planned (byFile : Bool) (format : OutputFormat) :
      (request.withForm none byFile false).plan { output := { format := format } } =
        .ok { policy := {}, format := format, byFile := byFile } := by
    unfold plan
    simp only [withForm, request, Option.getD_none, bare, Bool.or_false]
    rfl
  have ungrouped : request.plan {} = .ok { policy := {}, format := .text, byFile := false } :=
    planned false .text
  -- The queue, in which a path comes twice.
  have listed : tree.Lists "/" [] := FileTree.lists_ofTexts _
  have taken : Source.select tree "/" "jack" ["A.jack", "A.jack", "B.jack"] = ["A.jack", "A.jack", "B.jack"] :=
    Source.select_eq_self (by decide +kernel) (by decide +kernel)
  let queue := ["/A.jack", "/A.jack", "/B.jack"]
  have collected : Source.collect tree "/" "jack" = .ok (queue, [.queued "/" 3]) := by
    have names : tree.namesBelow [] = ["A.jack", "A.jack", "B.jack"] := FileTree.namesBelow_ofTexts _
    rw [Source.collect_eq_of_lists listed, names, taken]
    decide +kernel
  let start : Tokenizer := { policy := {}, queue := queue, journal := #[.queued "/" 3] }
  have made : Tokenizer.ofPath tree {} "/" = .ok start :=
    Tokenizer.ofPath_eq_ok_iff.mpr ⟨queue, [.queued "/" 3], collected, rfl⟩
  have fresh : start.Fresh := .path made
  -- The run, which is over after so many steps.
  have readable : ∀ file ∈ [("/A.jack", tabbed), ("/A.jack", tabbed), ("/B.jack", [])],
      tree.readText file.1 = .ok file.2 := by
    simp only [List.forall_mem_cons]
    exact ⟨rfl, rfl, rfl, List.forall_mem_nil _⟩
  obtain ⟨whole, ran, -⟩ := fresh.tokenizeAll_of_readable rfl readable
  have done : (start.after tree 15).state = .exhausted := by decide +kernel
  have last : whole = start.after tree 15 := by
    have ended := fresh.coherent.tokenizeAll_eq_after done
    rwa [ran] at ended
  have completes : request.Completes tree {} { policy := {}, format := .text, byFile := false } whole :=
    ⟨ungrouped, by decide +kernel, start, made, ran⟩
  have succeeded : (request.execute tree {} {}).result = .ok (whole.report "/") := completes.execute rfl
  -- The law, at each of the forms.
  obtain ⟨plan, final, completes', -, -, -, forms⟩ := execute_modes succeeded
  obtain ⟨rfl, rfl⟩ := completes.unique completes'
  have each (byFile : Bool) (format : OutputFormat) :=
    forms none byFile false { format := format } none _ (planned byFile format)
  have ok (byFile : Bool) (format : OutputFormat) := (each byFile format).1 rfl
  obtain ⟨-, lines, -, -⟩ := (each false .text).2 _ (ok false .text)
  obtain ⟨-, -, grouped, -⟩ := (each true .text).2 _ (ok true .text)
  obtain ⟨-, -, -, document⟩ := (each false .json).2 _ (ok false .json)
  obtain ⟨-, -, -, document'⟩ := (each true .json).2 _ (ok true .json)
  simp only [shown]
  dsimp only at lines grouped document document'
  refine ⟨⟨_, ok⟩, (lines rfl rfl).1.trans ?_, (grouped rfl rfl).trans ?_, (document rfl).2.trans ?_,
    (document' rfl).1.trans (document rfl).1.symm⟩
  · rw [last]
    decide +kernel
  · rw [last]
    decide +kernel
  · rw [last]
    decide +kernel

end TokenizeRequest

end JackTokens
