import JackTokens.Proofs.Requests

/-!
# What the journal tells

A run notes an event when it opens a file and when it closes it, when it yields a token, when a line leaves a
comment open, and when it is complete. One more event comes late: that a file has ended inside a comment is
noted when the next file is opened, behind the opening of that file. This module says how the events of a whole
run follow each other.

**Inside a file.** A lexeme notes its token, or that a comment goes on, or nothing (`exists_notes_absorb`). So
between the opening of a file and its closing there is nothing else, and the tokens that are noted are those
that the file appends to the stream (`Notes`).

**A file** has a trace (`FileTrace`): its opening, the warning about the file before it, what happens inside,
and its closing. It is closed whether it is read to its end or breaks off (`exists_traces`).

**The law** (`askAll_journal`). However a run was driven to its end, the journal is that of the queue, the traces
of the files that were opened, and the note that the run is complete if no failure was met. A file is warned
about exactly if it ends inside a comment and another is opened behind it. Nothing is noted after the end.
-/

namespace JackTokens

namespace Event

/-- Is this an event of the inside of a file? -/
def isInside : Event → Bool
  | emitted _ => true
  | commentContinues _ => true
  | _ => false

/-- The token that was yielded. -/
def token? : Event → Option Token
  | emitted token => some token
  | _ => none

end Event

/-- **What the journal tells about a file.** -/
structure FileTrace where
  name : String
  path : String
  /-- The name of the file before it, where there is a warning about that file. -/
  warning : Option String
  /-- What happens between the opening and the closing. -/
  inside : List Event
  /-- The line on which the file is closed. -/
  line : UInt32
  deriving DecidableEq, Repr

namespace FileTrace

/-- The events of a trace. -/
def events (trace : FileTrace) : List Event :=
  .opened trace.name ::
    (trace.warning.toList.map .endedInComment ++ trace.inside ++ [.closed trace.name trace.line])

/-- The tokens of a trace. -/
def tokens (trace : FileTrace) : List Token := trace.inside.filterMap Event.token?

/-- Only what happens inside a file is about tokens. -/
@[simp] theorem filterMap_events (trace : FileTrace) : trace.events.filterMap Event.token? = trace.tokens := by
  have warned : (trace.warning.toList.map Event.endedInComment).filterMap Event.token? = [] := by
    cases trace.warning <;> rfl
  unfold events
  rw [List.filterMap_cons_none rfl, List.filterMap_append, List.filterMap_append, warned, List.nil_append]
  exact List.append_nil _

/-- The name and the path of the file. -/
def source (trace : FileTrace) : String × String := (trace.name, trace.path)

end FileTrace

/-- The name and the path of a file that was opened. -/
def Provenance.source (record : Provenance) : String × String := (record.name, record.path)

/-- **Does a file end inside a block comment?** -/
def FileTree.endsInComment (tree : FileTree) (rule : IdentifierRule) (path : String) : Bool :=
  match tree.readText path with
  | .ok text => (Text.lines text).foldl (leavesOpen rule) false
  | .error _ => false

/-- The name of a file that ends inside a block comment. -/
def FileTrace.unfinished? (tree : FileTree) (rule : IdentifierRule) (trace : FileTrace) : Option String :=
  if tree.endsInComment rule trace.path then some trace.name else none

theorem SourceFile.name_of_readLine {tree : FileTree} {file next : SourceFile}
    {line : Except FileError (Option (List Char))} (read : file.readLine tree = (next, line)) :
    next.name = file.name :=
  (congrArg (·.1.name) read).symm

namespace Tokenizer

variable {tree : FileTree} {t middle next final start : Tokenizer} {inside : List Event}

/-! ## Inside a file -/

/-- **Events are noted between two states** inside a file, and the last section takes their tokens. -/
structure Notes (t next : Tokenizer) (inside : List Event) : Prop where
  journal : next.journal.toList = t.journal.toList ++ inside
  only : ∀ event ∈ inside, event.isInside = true
  sections : ∀ {parts part}, t.Sections (parts ++ [part]) →
    next.Sections (parts ++ [part ++ inside.filterMap Event.token?])

theorem Notes.nothing (journal : next.journal = t.journal) (tokens : next.tokens = t.tokens)
    (files : next.files = t.files) : t.Notes next [] where
  journal := by rw [journal, List.append_nil]
  only := fun event none => absurd none List.not_mem_nil
  sections := fun before => by
    rw [List.filterMap_nil, List.append_nil]
    exact before.congr tokens files

theorem Notes.trans {first second : List Event} (one : t.Notes middle first)
    (two : middle.Notes next second) : t.Notes next (first ++ second) where
  journal := by rw [two.journal, one.journal, List.append_assoc]
  only := fun event member => (List.mem_append.mp member).elim (one.only event) (two.only event)
  sections := fun before => by
    rw [List.filterMap_append, ← List.append_assoc]
    exact two.sections (one.sections before)

/-- **A lexeme notes its token**, or that a comment goes on, or nothing. -/
theorem exists_notes_absorb (t : Tokenizer) (content : Content) :
    ∃ inside, t.Notes (t.absorb content) inside := by
  rcases content with kind | (_ | _ | _)
  · refine ⟨[.emitted ⟨kind, t.cursor.line⟩], Array.toList_push, ?_, fun before => before.emit _⟩
    exact List.forall_mem_singleton.mpr rfl
  · exact ⟨[], .nothing rfl rfl rfl⟩
  · exact ⟨[], .nothing rfl rfl rfl⟩
  · refine ⟨[.commentContinues t.cursor.line], Array.toList_push, ?_, fun before => ?_⟩
    · exact List.forall_mem_singleton.mpr rfl
    · rw [show [Event.commentContinues t.cursor.line].filterMap Event.token? = [] from rfl, List.append_nil]
      exact before.congr rfl rfl

theorem exists_notes_foldl {α : Type} {effect : Tokenizer → α → Tokenizer}
    (each : ∀ t a, ∃ inside, Notes t (effect t a) inside) (items : List α) (t : Tokenizer) :
    ∃ inside, t.Notes (items.foldl effect t) inside := by
  induction items generalizing t with
  | nil => exact ⟨[], .nothing rfl rfl rfl⟩
  | cons a items ih =>
    obtain ⟨first, one⟩ := each t a
    obtain ⟨second, two⟩ := ih (effect t a)
    exact ⟨first ++ second, one.trans two⟩

theorem exists_notes_passLine (t : Tokenizer) (raw : List Char) :
    ∃ inside, t.Notes (t.passLine raw) inside := by
  let inComment := (codeOf t.cursor.inBlockComment raw).isNone
  let counted : Tokenizer := { t with cursor := .start [] (t.cursor.line + 1) inComment }
  have before : t.Notes counted [] := .nothing rfl rfl rfl
  obtain ⟨inside, notes⟩ := exists_notes_foldl exists_notes_absorb
    (lineContents t.policy.identifiers t.cursor.inBlockComment raw) counted
  exact ⟨inside, before.trans notes⟩

/-! ## The trace of a file -/

/-- The name of the last file, where it has left a comment open. -/
def openComment? (t : Tokenizer) : Option String :=
  if t.cursor.inBlockComment then t.files.back?.map Provenance.name else none

theorem toList_openingEvents (t : Tokenizer) (file : SourceFile) :
    (t.openingEvents file).toList =
      .opened file.name :: t.openComment?.toList.map .endedInComment := by
  unfold openingEvents openComment?
  cases t.cursor.inBlockComment <;> cases t.files.back? <;> rfl

/-- **A file is traced between two states**, from before its opening to behind its closing. -/
structure Traces (t next : Tokenizer) (trace : FileTrace) : Prop where
  policy : next.policy = t.policy
  warning : trace.warning = t.openComment?
  journal : next.journal.toList = t.journal.toList ++ trace.events
  files : next.files.toList.map Provenance.source = t.files.toList.map Provenance.source ++ [trace.source]
  inside : ∀ event ∈ trace.inside, event.isInside = true
  sections : ∀ {parts}, t.Sections parts → next.Sections (parts ++ [trace.tokens])

/-- **A file from its opening through some of its lines to its closing**, wherever that comes. -/
theorem exists_traces {path : String} {queue : List String} {file last ended : SourceFile}
    {lines : List (List Char)} (idle : t.phase = .idle) (queued : t.queue = path :: queue)
    (opened : SourceFile.openAt tree path = .ok file) (reads : file.Reads tree lines last)
    (named : ended.name = file.name) :
    ∃ middle trace, Reaches tree t middle ∧ middle.phase = .lineEmpty last ∧ middle.queue = queue ∧
      trace.source = (file.name, path) ∧
      (∀ state, t.Traces (middle.close ended state) trace) ∧
      ∀ state, (middle.close ended state).openComment? =
        if lines.foldl (leavesOpen t.policy.identifiers) false then some file.name else none := by
  have opens := step_opened idle queued opened
  obtain ⟨middle, reached, settled⟩ := reaches_lines reads (rfl : (t.opening file queue).phase = _)
  have appends := appends_foldl_passLine lines (t.opening file queue).settle
  obtain ⟨count, -, counted⟩ := Counts.foldl counts_passLine lines (t.opening file queue).settle
  obtain ⟨inside, notes⟩ := exists_notes_foldl exists_notes_passLine lines (t.opening file queue).settle
  have tokens : middle.settle.tokens = _ := congrArg Tokenizer.tokens settled
  have files : middle.settle.files = _ := congrArg Tokenizer.files settled
  have recorded : middle.files = t.files.push ⟨file.name, file.path, t.tokens.size, 0 + count⟩ :=
    files.trans (counted rfl)
  have journal : middle.journal.toList = (t.opening file queue).journal.toList ++ inside :=
    (congrArg (·.journal.toList) settled).trans notes.journal
  have comment : middle.cursor.inBlockComment = lines.foldl (leavesOpen t.policy.identifiers) false :=
    (congrArg (·.cursor.inBlockComment) settled).trans appends.inComment
  obtain ⟨-, samePath⟩ := SourceFile.name_of_openAt opened
  refine ⟨middle, ⟨file.name, path, t.openComment?, inside, middle.cursor.line⟩, .working opens reached,
    congrArg Tokenizer.phase settled, (congrArg Tokenizer.queue settled).trans appends.queue, rfl,
    fun state => ?_, fun state => ?_⟩
  · exact {
      policy := (congrArg Tokenizer.policy settled).trans appends.policy
      warning := rfl
      journal := by
        show (middle.journal.push (.closed ended.name middle.cursor.line)).toList = _
        rw [Array.toList_push, journal, named]
        show (t.journal ++ t.openingEvents file).toList ++ inside ++ _ = _
        rw [Array.toList_append, toList_openingEvents]
        simp [FileTrace.events]
      files := by
        show middle.files.toList.map Provenance.source = _
        rw [recorded, Array.toList_push, List.map_append, ← samePath]
        rfl
      inside := notes.only
      sections := fun before => by
        have empty : (t.opening file queue).settle.Sections (_ ++ [[]]) := before.push rfl rfl rfl rfl
        exact (notes.sections empty).congr tokens files }
  · show (if middle.cursor.inBlockComment then middle.files.back?.map Provenance.name else none) = _
    rw [comment, recorded, Array.back?_push]
    rfl

/-- **A file that can be read is traced**, and the run goes on behind it. -/
theorem exists_traces_of_readText {path : String} {queue : List String} {text : List Char} (idle : t.phase = .idle)
    (queued : t.queue = path :: queue) (readable : tree.readText path = .ok text) :
    ∃ next trace, t.tokenizeAll tree = next.tokenizeAll tree ∧ next.phase = .idle ∧ next.queue = queue ∧
      t.Traces next trace ∧ trace.source = (Path.displayName path, path) ∧
      next.openComment? = trace.unfinished? tree t.policy.identifiers := by
  obtain ⟨file, bytes, opened, holds, spelled, -, -⟩ := SourceFile.openAt_of_readText readable
  obtain ⟨last, ended, reads, noMore, -⟩ := SourceFile.reads_lines holds spelled
  have named := (SourceFile.name_of_readLine noMore).trans reads.name
  obtain ⟨middle, trace, reached, phase, behind, source, traced, comment⟩ :=
    exists_traces idle queued opened reads named
  have same : t.tokenizeAll tree = (middle.close ended .idle).tokenizeAll tree :=
    tokenizeAll_of_drain_eq (reached.trans (.working (step_ended phase noMore) (.refl _))).drain_eq
  have unfinished : trace.unfinished? tree t.policy.identifiers =
      if (Text.lines text).foldl (leavesOpen t.policy.identifiers) false then some file.name else none := by
    rw [FileTrace.unfinished?, FileTree.endsInComment, (Prod.mk.inj source).1, (Prod.mk.inj source).2, readable]
  refine ⟨_, trace, same, rfl, behind, traced .idle, ?_, (comment .idle).trans unfinished.symm⟩
  rw [source, (SourceFile.name_of_openAt opened).1]

/-! ## The journal of a run -/

/-- **The rest of a run is told** by the traces of the files that it opens, and by what is noted at its end. Each
trace warns of the file before it, if that file ends inside a comment. -/
structure Tells (tree : FileTree) (t final : Tokenizer) (traces : List FileTrace) (ending : List Event) :
    Prop where
  journal : final.journal.toList = t.journal.toList ++ traces.flatMap FileTrace.events ++ ending
  files : final.files.toList.map Provenance.source =
    t.files.toList.map Provenance.source ++ traces.map FileTrace.source
  warnings : traces.map FileTrace.warning =
    (t.openComment? :: traces.map (FileTrace.unfinished? tree t.policy.identifiers)).take traces.length
  inside : ∀ trace ∈ traces, ∀ event ∈ trace.inside, event.isInside = true
  sections : ∀ {parts}, t.Sections parts → final.Sections (parts ++ traces.map FileTrace.tokens)

/-- A run that opens no more files. -/
theorem Tells.nil {ending : List Event} (journal : final.journal.toList = t.journal.toList ++ ending)
    (tokens : final.tokens = t.tokens) (files : final.files = t.files) : t.Tells tree final [] ending where
  journal := by rw [journal, List.flatMap_nil, List.append_nil]
  files := by rw [files, List.map_nil, List.append_nil]
  warnings := rfl
  inside := fun trace none => absurd none List.not_mem_nil
  sections := fun before => by
    rw [List.map_nil, List.append_nil]
    exact before.congr tokens files

/-- A file, and the rest of the run behind it. -/
theorem Tells.cons {trace : FileTrace} {traces : List FileTrace} {ending : List Event}
    (first : t.Traces next trace)
    (comment : next.openComment? = trace.unfinished? tree t.policy.identifiers)
    (rest : next.Tells tree final traces ending) : t.Tells tree final (trace :: traces) ending where
  journal := by
    rw [rest.journal, first.journal, List.flatMap_cons]
    simp only [List.append_assoc]
  files := by
    rw [rest.files, first.files, List.map_cons, List.append_assoc, List.singleton_append]
  warnings := by
    rw [List.map_cons, rest.warnings, comment, first.policy, first.warning]
    rfl
  inside := List.forall_mem_cons.mpr ⟨first.inside, rest.inside⟩
  sections := fun before => by
    rw [List.map_cons, List.append_cons]
    exact rest.sections (first.sections before)

/-- A file behind which nothing comes. -/
theorem Tells.single {trace : FileTrace} (only : t.Traces final trace) : t.Tells tree final [trace] [] where
  journal := by rw [only.journal, List.flatMap_singleton, List.append_nil]
  files := only.files
  warnings := by rw [List.map_singleton, only.warning]; rfl
  inside := List.forall_mem_singleton.mpr only.inside
  sections := only.sections

/-- What is noted at the end of a run: that it is complete, if it has not failed. -/
def ending : Tokenizer × Except TokenizeError (Array Token) → List Event
  | (final, .ok _) => [.completed final.files.size final.tokens.size]
  | (_, .error _) => []

/-- **A run from between two files to its end.** -/
theorem exists_tells (tree : FileTree) (idle : t.phase = .idle) :
    ∃ traces, t.Tells tree (t.tokenizeAll tree).1 traces (ending (t.tokenizeAll tree)) := by
  induction queued : t.queue generalizing t with
  | nil =>
    rw [(Reaches.refl t).tokenizeAll_of_idle idle queued]
    exact ⟨[], .nil Array.toList_push rfl rfl⟩
  | cons path queue ih =>
    rcases SourceFile.read_cases tree path with
      ⟨text, readable⟩ | ⟨cause, unopened⟩ | ⟨lines, cause, file, last, ended, opened, reads, fails⟩
    · obtain ⟨next, trace, same, between, behind, traced, -, comment⟩ := exists_traces_of_readText idle queued readable
      obtain ⟨traces, rest⟩ := ih between behind
      rw [same]
      exact ⟨trace :: traces, .cons traced comment rest⟩
    · rw [(Reaches.refl t).tokenizeAll_of_failed (step_unopened idle queued unopened)]
      exact ⟨[], .nil (List.append_nil _).symm rfl rfl⟩
    · have named := (SourceFile.name_of_readLine fails).trans reads.name
      obtain ⟨middle, trace, reached, phase, -, -, traced, -⟩ := exists_traces idle queued opened reads named
      rw [reached.tokenizeAll_of_failed (step_unreadable phase fails)]
      exact ⟨[trace], .single (traced .exhausted)⟩

/-! ## The law -/

/-- Nothing is asked of a run that is over. -/
theorem askAll_of_exhausted (done : t.phase = .exhausted) (tree : FileTree) (requests : List Request) :
    (t.askAll tree requests).1 = t := by
  obtain ⟨advanced, whole, taken⟩ := requests_of_exhausted done tree
  have stays : ∀ request, (t.ask tree request).1 = t := by
    intro request
    cases request with
    | token => exact congrArg Prod.fst advanced
    | items n => exact congrArg Prod.fst (taken n)
    | all => exact congrArg Prod.fst whole
  induction requests with
  | nil => rfl
  | cons request requests ih =>
    show ((t.ask tree request).1.askAll tree requests).1 = t
    rw [stays, ih]

/-- However a run comes to its end, it is the same end, and it has reported the same failure. -/
theorem Coherent.askAll_eq (coherent : t.Coherent) {requests : List Request}
    (done : (t.askAll tree requests).1.phase = .exhausted) :
    (t.askAll tree requests).1 = (t.tokenizeAll tree).1 ∧
      (t.askAll tree requests).2.flatMap Reply.failures = t.failuresAhead tree := by
  obtain ⟨tokens, continues⟩ := coherent.exists_continues_askAll tree requests
  have same := continues.final
  have reported := continues.failures
  rw [(requests_of_exhausted done tree).2.1] at same
  rw [failuresAhead_of_exhausted done, List.append_nil] at reported
  exact ⟨same, reported⟩

theorem ending_tokenizeAll (tree : FileTree) (t : Tokenizer) :
    ending (t.tokenizeAll tree) =
      if (t.failuresAhead tree).isEmpty then
        [.completed (t.tokenizeAll tree).1.files.size (t.tokenizeAll tree).1.tokens.size]
      else [] := by
  unfold failuresAhead
  rcases t.tokenizeAll tree with ⟨final, e | stream⟩ <;> rfl

@[simp] theorem filterMap_ending (run : Tokenizer × Except TokenizeError (Array Token)) :
    (ending run).filterMap Event.token? = [] := by
  rcases run with ⟨final, e | stream⟩ <;> rfl

theorem Fresh.filterMap_journal (fresh : start.Fresh) :
    start.journal.toList.filterMap Event.token? = [] := by
  cases fresh with
  | queue policy queue => rfl
  | path made =>
    unfold ofPath at made
    split at made
    · cases made
    · rename_i queue events collected
      cases made
      unfold Source.collect at collected
      split at collected
      · split at collected
        · cases collected
        · simp only [Except.ok.injEq, Prod.mk.injEq] at collected
          rw [← collected.2]
          split <;> rfl
      · cases collected
        rfl

theorem Tells.filterMap_journal {traces : List FileTrace} {run : Tokenizer × Except TokenizeError (Array Token)}
    (tells : start.Tells tree final traces (ending run)) (fresh : start.Fresh)
    (sections : final.Sections (traces.map FileTrace.tokens)) :
    final.journal.toList.filterMap Event.token? = final.tokens.toList := by
  rw [tells.journal, List.filterMap_append, List.filterMap_append, fresh.filterMap_journal, filterMap_ending,
    List.filterMap_flatMap, sections.tokens, List.nil_append, List.append_nil, List.flatMap_def]
  simp only [FileTrace.filterMap_events]

/-- **The journal traces the run.** However a run was driven to its end, its journal is that of the queue, and
then for each file that was opened, in order: its opening; a warning that names the file before it, exactly if
that file ends inside a block comment; tokens and comments that go on, and nothing else; and its closing, also
where the file breaks off. The last event says that the run is complete, with the number of its files and of
its tokens, and it is there exactly if no failure was reported. The tokens that were noted, file by file and
as a whole, are the stream. Nothing is noted after the end. -/
theorem askAll_journal (fresh : start.Fresh) (tree : FileTree) (requests : List Request)
    (done : (start.askAll tree requests).1.phase = .exhausted) :
    let t := (start.askAll tree requests).1
    let failures := (start.askAll tree requests).2.flatMap Reply.failures
    ∃ traces : List FileTrace,
      t.journal.toList = start.journal.toList ++ traces.flatMap FileTrace.events ++
        (if failures.isEmpty then [.completed t.files.size t.tokens.size] else []) ∧
      traces.map FileTrace.source = t.files.toList.map Provenance.source ∧
      traces.map FileTrace.warning =
        (none :: traces.map (FileTrace.unfinished? tree start.policy.identifiers)).take traces.length ∧
      (∀ trace ∈ traces, ∀ event ∈ trace.inside, event.isInside = true) ∧
      (∀ i, t.tokensOf? i = (traces[i]?).map FileTrace.tokens) ∧
      t.journal.toList.filterMap Event.token? = t.tokens.toList ∧
      ∀ (tree' : FileTree) (later : List Request), (t.askAll tree' later).1.journal = t.journal := by
  intro t failures
  obtain ⟨same, reported⟩ : t = (start.tokenizeAll tree).1 ∧ failures = start.failuresAhead tree :=
    fresh.coherent.askAll_eq done
  have idle : start.phase = .idle := congrArg Tokenizer.phase fresh.eq
  have unopened : start.files = #[] := congrArg Tokenizer.files fresh.eq
  have unwarned : start.openComment? = none := by rw [fresh.eq]; rfl
  have nothing : start.Sections [] := by rw [fresh.eq]; exact ⟨rfl, rfl⟩
  obtain ⟨traces, tells⟩ := exists_tells tree idle
  have sections : (start.tokenizeAll tree).1.Sections (traces.map FileTrace.tokens) := tells.sections nothing
  refine ⟨traces, ?_, ?_, ?_, tells.inside, ?_, ?_, ?_⟩
  · rw [same, reported, tells.journal, ending_tokenizeAll]
  · rw [same, tells.files, unopened, List.map_nil, List.nil_append]
  · rw [tells.warnings, unwarned]
  · intro i
    rw [same, sections.tokensOf?_eq, List.getElem?_map]
  · rw [same]
    exact tells.filterMap_journal fresh sections
  · intro tree' later
    rw [askAll_of_exhausted done]

/-- The law at two files of which the first ends inside a comment, asked for a token and then for the rest. -/
theorem askAll_journal_leftOpen :
    let tree := FileTree.ofTexts [("A.jack", "a /* b\n".toList), ("B.jack", "c\n".toList)]
    let start := ofQueue {} ["A.jack", "B.jack"]
    let t := (start.askAll tree [.token, .all]).1
    start.Fresh ∧ t.phase = .exhausted ∧
      t.journal.toList =
        [.opened "A.jack", .emitted ⟨.identifier "a", 1⟩, .commentContinues 1, .closed "A.jack" 1,
          .opened "B.jack", .endedInComment "A.jack", .emitted ⟨.identifier "c", 2⟩, .closed "B.jack" 2,
          .completed 2 2] ∧
      t.journal.toList.filterMap Event.token? = t.tokens.toList ∧
      ∃ traces : List FileTrace,
        traces.map FileTrace.source = [("A.jack", "A.jack"), ("B.jack", "B.jack")] ∧
        traces.map FileTrace.warning = [none, some "A.jack"] := by
  intro tree start t
  have fresh : start.Fresh := .queue _ _
  obtain ⟨_, earlier⟩ := fresh.coherent.exists_continues_askAll tree [.token]
  have done : t.phase = .exhausted := (earlier.coherent fresh.coherent).phase_tokenizeAll tree
  -- What the run comes to is found by steps.
  have halted : (start.after tree 20).phase = .exhausted := by decide +kernel
  have stepped : t = start.after tree 20 := by
    obtain ⟨_, _, continues⟩ := fresh.coherent.exists_continues_after tree 20
    have same := continues.final
    rw [(requests_of_exhausted halted tree).2.1] at same
    exact (fresh.coherent.askAll_eq done).1.trans same.symm
  obtain ⟨traces, -, sources, warnings, -, -, noted, -⟩ := askAll_journal fresh tree _ done
  have names : traces.map FileTrace.source = [("A.jack", "A.jack"), ("B.jack", "B.jack")] := by
    rw [sources]
    show t.files.toList.map Provenance.source = _
    rw [stepped]
    decide +kernel
  refine ⟨fresh, done, by rw [stepped]; decide +kernel, noted, traces, names, ?_⟩
  obtain ⟨first, rest, rfl, firstSource, more⟩ := List.map_eq_cons_iff.mp names
  obtain ⟨second, none, rfl, -, nil⟩ := List.map_eq_cons_iff.mp more
  cases List.map_eq_nil_iff.mp nil
  have unfinished : first.unfinished? tree .alphanumeric = some "A.jack" := by
    rw [FileTrace.unfinished?, (Prod.mk.inj firstSource).1, (Prod.mk.inj firstSource).2]
    decide +kernel
  rw [warnings]
  show [none, first.unfinished? tree .alphanumeric] = _
  rw [unfinished]

end Tokenizer

end JackTokens
