import JackTokens.Proofs.Composition
import JackTokens.Proofs.Transitions

/-!
# Runs that fail

A run fails where a file cannot be opened, or where a line of it cannot be read. What it has found before
that moment stays: the stream and the records are those of a run over what could be read, as if the unit
had ended there.

**Files.** A path is readable as a whole, or it cannot be opened, or it breaks off behind some lines
(`SourceFile.read_cases`). The lines before the break are the physical lines of a text of their own
(`SourceFile.Reads.lines_flatten`), so a file that was cut down to them reads the same.

**Queues.** What is queued behind a file makes no difference before its turn comes (`Reaches.queueUp`).
A run over readable files followed by others therefore comes to the state in which a run over the readable
ones alone ends, but for the rest of the queue, and goes on from there.

**The law** (`tokenizeAll_failure`): a run that fails has gone through readable files and then met a path
that cannot be opened or that breaks off; in both cases the failure, the stream, the records and the queue
are known.
-/

namespace JackTokens

/-! ## Files that break off -/

namespace SourceFile

variable {tree : FileTree} {file last : SourceFile} {lines : List (List Char)} {path : String}

/-- **A path breaks off** behind some lines: it can be opened and hands out these lines, but the next one
cannot be read. -/
def BreaksOff (tree : FileTree) (path : String) (lines : List (List Char)) (cause : FileError) : Prop :=
  ∃ file last ended, openAt tree path = .ok file ∧ file.Reads tree lines last ∧
    last.readLine tree = (ended, .error cause)

theorem openAt_of_openFile {handle : Handle} (opened : tree.openFile path = .ok handle) :
    openAt tree path = .ok ⟨Path.displayName path, path, handle⟩ := by
  rw [openAt, opened]
  rfl

theorem name_of_openAt (opened : openAt tree path = .ok file) :
    file.name = Path.displayName path ∧ file.path = path := by
  unfold openAt at opened
  cases found : tree.openFile path with
  | error cause =>
    rw [found] at opened
    cases opened
  | ok handle =>
    rw [found] at opened
    cases opened
    exact ⟨rfl, rfl⟩

theorem Reads.name (reads : file.Reads tree lines last) : last.name = file.name := by
  induction reads with
  | nil file => rfl
  | @cons file next last raw rest read _ ih =>
    have same : (file.readLine tree).1 = next := congrArg Prod.fst read
    rw [ih, ← same]
    rfl

/-- A file that has no bytes left hands out nothing. -/
theorem Reads.eq_nil (reads : file.Reads tree lines last) (left : file.Holds tree []) : lines = [] := by
  obtain ⟨next, read, -⟩ := readLine_of_holds left
  cases reads with
  | nil => rfl
  | cons other _ =>
    rw [read] at other
    cases other

/-- A line of bytes that can be read and ends in a newline is a line of text. -/
theorem exists_line_of_lineText {body : List UInt8} {raw : List Char} (oneLine : newlineByte ∉ body)
    (text : lineText (body ++ [newlineByte]) = .ok (some raw)) :
    ∃ line, '\n' ∉ line ∧ raw = line ++ ['\n'] := by
  unfold lineText at text
  rw [if_neg (by simp)] at text
  split at text
  · rename_i spelling spelled
    cases text
    obtain ⟨line, more, within, -, nothing, rfl⟩ := Utf8.decode_line oneLine spelled
    cases nothing
    exact ⟨line, within, rfl⟩
  · cases text

theorem lines_flatten_of_holds (reads : file.Reads tree lines last) {bytes : List UInt8}
    (left : file.Holds tree bytes) : Text.lines lines.flatten = lines := by
  induction reads generalizing bytes with
  | nil file => rfl
  | @cons file next last raw rest read reads ih =>
    obtain ⟨behind, reading, holds, -⟩ := readLine_of_holds left
    rw [reading, Prod.mk.injEq] at read
    obtain ⟨rfl, text⟩ := read
    rcases newlineByte_cases bytes with oneLine | ⟨body, more, oneLine, rfl⟩
    · -- The last line, without a newline: there is nothing behind it.
      rw [cutLine_of_not_mem oneLine] at text holds
      cases reads.eq_nil holds
      unfold lineText at text
      split at text
      · cases text
      · rename_i nonempty
        split at text
        · rename_i spelling spelled
          cases text
          have empty : raw ≠ [] := fun none => nonempty (Utf8.eq_nil_of_decode (none ▸ spelled))
          have within := Utf8.newline_not_mem_of_decode oneLine spelled
          rw [List.flatten_cons, List.flatten_nil, List.append_nil, Text.lines_of_not_mem within empty]
        · cases text
    · rw [cutLine_append_newline oneLine] at text holds
      obtain ⟨line, within, rfl⟩ := exists_line_of_lineText oneLine text
      rw [List.flatten_cons, List.append_assoc, List.singleton_append,
        Text.lines_append_newline within, ih holds]

/-- **The lines that a file hands out** are the physical lines of what they make up. -/
theorem Reads.lines_flatten (reads : file.Reads tree lines last) : Text.lines lines.flatten = lines := by
  cases opened : file.handle with
  | file slot taken pending => exact lines_flatten_of_holds reads ⟨slot, taken, pending, opened, rfl⟩
  | directory =>
    cases reads with
    | nil => rfl
    | cons read _ =>
      simp only [readLine, opened, FileTree.readLine] at read
      cases read

/-- Bytes that spell no text are handed out line by line up to a line that spells none. -/
theorem exists_reads_of_undecodable {file : SourceFile} {bytes : List UInt8} (left : file.Holds tree bytes)
    (garbled : Utf8.decode bytes = none) :
    ∃ lines last ended, file.Reads tree lines last ∧ last.readLine tree = (ended, .error .invalidData) := by
  obtain ⟨next, read, holds, -⟩ := readLine_of_holds left
  rcases newlineByte_cases bytes with oneLine | ⟨body, rest, oneLine, rfl⟩
  · rw [cutLine_of_not_mem oneLine, lineText_of_decode_eq_none garbled] at read
    exact ⟨[], file, next, .nil file, read⟩
  · rw [cutLine_append_newline oneLine] at read holds
    cases spelled : Utf8.decode (body ++ [newlineByte]) with
    | none =>
      rw [lineText_of_decode_eq_none spelled] at read
      exact ⟨[], file, next, .nil file, read⟩
    | some raw =>
      have later : Utf8.decode rest = none := by
        have split := Utf8.decode_append spelled rest
        rw [List.append_assoc, List.singleton_append, garbled] at split
        exact Option.map_eq_none_iff.mp split.symm
      obtain ⟨lines, last, ended, reads, fails⟩ := exists_reads_of_undecodable holds later
      refine ⟨raw :: lines, last, ended, .cons ?_ reads, fails⟩
      rw [read, lineText, if_neg (by simp), spelled]
termination_by bytes.length
decreasing_by simp_all; omega

/-- What a file that has been opened holds is its whole text. -/
theorem readText_of_openFile {slot taken : Nat} {pending : List UInt8}
    (opened : tree.openFile path = .ok (.file slot taken pending)) :
    taken = 0 ∧ pending = [] ∧
      ∀ text, Utf8.decode (tree.bytes slot) = some text → tree.readText path = .ok text := by
  unfold FileTree.openFile at opened
  cases found : tree.locate path with
  | error cause =>
    rw [found] at opened
    cases opened
  | ok location =>
    simp only [found, bind, Except.bind] at opened
    split at opened
    · cases opened
    · rename_i allowed
      split at opened
      · rename_i slot' isFile
        cases opened
        refine ⟨rfl, rfl, ?_⟩
        intro text spelled
        simp [FileTree.readText, found, allowed, isFile, spelled, bind, Except.bind, pure, Except.pure]
      · cases opened

/-- **A path is readable, cannot be opened, or breaks off.** -/
theorem read_cases (tree : FileTree) (path : String) :
    (∃ text, tree.readText path = .ok text) ∨ (∃ cause, openAt tree path = .error cause) ∨
      ∃ lines cause, BreaksOff tree path lines cause := by
  cases opened : tree.openFile path with
  | error cause => exact .inr (.inl ⟨cause, by rw [openAt, opened]; rfl⟩)
  | ok handle =>
    let file : SourceFile := ⟨Path.displayName path, path, handle⟩
    have found : openAt tree path = .ok file := openAt_of_openFile opened
    cases handle with
    | directory => exact .inr (.inr ⟨[], .isADirectory, file, file, file, found, .nil file, rfl⟩)
    | file slot taken pending =>
      obtain ⟨rfl, rfl, whole⟩ := readText_of_openFile opened
      cases spelled : Utf8.decode (tree.bytes slot) with
      | some text => exact .inl ⟨text, whole text spelled⟩
      | none =>
        have left : file.Holds tree (tree.bytes slot) := ⟨slot, 0, [], rfl, rfl⟩
        obtain ⟨lines, last, ended, reads, fails⟩ := exists_reads_of_undecodable left spelled
        exact .inr (.inr ⟨lines, .invalidData, file, last, ended, found, reads, fails⟩)

end SourceFile

/-! ## What is queued behind -/

namespace Tokenizer

variable {tree : FileTree} {t final : Tokenizer}

/-- A state with more paths at the end of its queue. -/
def queueUp (t : Tokenizer) (more : List String) : Tokenizer := { t with queue := t.queue ++ more }

@[simp] theorem closeFile_queueUp (t : Tokenizer) (more : List String) :
    (t.queueUp more).closeFile = t.closeFile.queueUp more := by
  unfold closeFile queueUp
  cases t.file <;> rfl

@[simp] theorem abort_queueUp (t : Tokenizer) (more : List String) :
    (t.queueUp more).abort = t.abort.queueUp more := by
  rw [abort, closeFile_queueUp]
  rfl

/-- A step takes no notice of what is queued behind, unless it finds that there is nothing to open. -/
theorem step_queueUp (tree : FileTree) (more : List String) (busy : t.state = .idle → t.queue ≠ []) :
    (t.queueUp more).step tree = ((t.step tree).1.queueUp more, (t.step tree).2) := by
  have same : (t.queueUp more).state = t.state := rfl
  unfold step
  rw [same]
  cases state : t.state with
  | exhausted => rfl
  | idle =>
    cases queued : t.queue with
    | nil => exact absurd queued (busy state)
    | cons path queue =>
      have longer : (t.queueUp more).queue = path :: (queue ++ more) := by
        rw [queueUp, queued, List.cons_append]
      cases found : SourceFile.openAt tree path with
      | error cause =>
        simp only [openNext, longer, queued, found]
        exact Prod.ext (abort_queueUp { t with queue := queue } more) rfl
      | ok file =>
        simp only [openNext_of_openAt longer found, openNext_of_openAt queued found]
        rfl
  | lineEmpty =>
    have file : (t.queueUp more).file = t.file := rfl
    simp only [nextLine, file]
    split
    · rfl
    · split <;> rfl
  | lineBuffered =>
    have cursor : (t.queueUp more).cursor = t.cursor := rfl
    have policy : (t.queueUp more).policy = t.policy := rfl
    simp only [nextLexeme, cursor, policy]
    split
    · exact Prod.ext (abort_queueUp t more) rfl
    · rename_i there _
      split
      · rfl
      · split
        · exact Prod.ext (abort_queueUp { t with cursor := there } more) rfl
        · split <;> rfl

/-- Nothing is reached from the last state. -/
theorem Reaches.eq_of_exhausted (reached : Reaches tree t final) (done : t.state = .exhausted) :
    final = t := by
  have stepped : t.step tree = (t, .finished) := step_of_exhausted done
  cases reached with
  | refl => rfl
  | working taken _ =>
    rw [stepped] at taken
    cases taken
  | yielded taken _ =>
    rw [stepped] at taken
    cases taken

/-- A step that does not end the run had something to do. -/
theorem queue_ne_nil_of_reaches {next : Tokenizer} {outcome : Outcome}
    (stepped : t.step tree = (next, outcome)) (reached : Reaches tree next final)
    (busy : final.state ≠ .exhausted) (idle : t.state = .idle) : t.queue ≠ [] := by
  intro empty
  have ended : next.state = .exhausted := by
    rw [step_completed idle empty] at stepped
    cases stepped
    rfl
  exact busy (reached.eq_of_exhausted ended ▸ ended)

/-- **What is queued behind makes no difference** before its turn comes. -/
theorem Reaches.queueUp (reached : Reaches tree t final) (busy : final.state ≠ .exhausted)
    (more : List String) : Reaches tree (t.queueUp more) (final.queueUp more) := by
  induction reached with
  | refl t => exact .refl _
  | working stepped reached ih =>
    have longer := step_queueUp tree more (queue_ne_nil_of_reaches stepped reached busy)
    rw [stepped] at longer
    exact .working longer (ih busy)
  | yielded stepped reached ih =>
    have longer := step_queueUp tree more (queue_ne_nil_of_reaches stepped reached busy)
    rw [stepped] at longer
    exact .yielded longer (ih busy)

/-! ## Behind the readable files -/

theorem unitSections_append_singleton (policy : Policy) (line : UInt32) (texts : List (List Char))
    (text : List Char) :
    unitSections policy line (texts ++ [text]) =
      unitSections policy line texts ++
        [textTokens policy.identifiers (lineBase policy.lineNumbering (unitLine policy line texts)) text] := by
  induction texts generalizing line with
  | nil => rfl
  | cons first texts ih =>
    rw [List.cons_append, unitSections, ih]
    rfl

/-- A file behind others is counted on from their lines, or from its own start. -/
theorem lineBase_unitLine (policy : Policy) (line : UInt32) (texts : List (List Char)) :
    lineBase policy.lineNumbering (unitLine policy line texts) =
      lineBase policy.lineNumbering line +
        UInt32.ofNat (lineOffset policy.lineNumbering texts texts.length) := by
  induction texts generalizing line with
  | nil => cases policy.lineNumbering <;> simp [unitLine, lineOffset]
  | cons text texts ih =>
    rw [unitLine, ih]
    cases policy.lineNumbering with
    | perFile => rfl
    | global =>
      simp only [lineBase, lineOffset, List.take_length, List.flatMap_cons, List.length_append,
        UInt32.ofNat_add, UInt32.add_assoc]

theorem lineBase_unitLine_zero (policy : Policy) (texts : List (List Char)) :
    lineBase policy.lineNumbering (unitLine policy 0 texts) =
      UInt32.ofNat (lineOffset policy.lineNumbering texts texts.length) := by
  rw [lineBase_unitLine, lineBase_zero, UInt32.zero_add]

/-! ## Failures -/

/-- A failure ends the run. -/
theorem Reaches.tokenizeAll_of_failed {last : Tokenizer} {e : TokenizeError}
    (reached : Reaches tree t last) (stepped : last.step tree = (final, .failed e)) :
    t.tokenizeAll tree = (final, .error e) := by
  have drained : last.drain tree = (final, .error e) := by
    rw [drain]
    split <;> simp_all
  rw [tokenizeAll, reached.drain_eq, drained]

/-- **A failure comes before what is queued behind it**: the run fails in the same way, whatever that is,
and leaves it in the queue. -/
theorem Reaches.tokenizeAll_queueUp {last : Tokenizer} {e : TokenizeError}
    (reached : Reaches tree t last) (stepped : last.step tree = (final, .failed e)) (more : List String) :
    (t.queueUp more).tokenizeAll tree = (final.queueUp more, .error e) := by
  have busy : last.state ≠ .exhausted := by
    intro done
    rw [step_of_exhausted done] at stepped
    cases stepped
  have nonempty : last.state = .idle → last.queue ≠ [] := by
    intro idle empty
    rw [step_completed idle empty] at stepped
    cases stepped
  have longer := step_queueUp tree more nonempty
  rw [stepped] at longer
  exact (reached.queueUp busy more).tokenizeAll_of_failed longer

/-- The same behind a queue that ends with the path where the failure is. -/
theorem Reaches.tokenizeAll_append {policy : Policy} {paths : List String} {path : String}
    {last : Tokenizer} {e : TokenizeError}
    (reached : Reaches tree ((ofQueue policy paths).queueUp [path]) last)
    (stepped : last.step tree = (final, .failed e)) (empty : final.queue = []) (later : List String) :
    (ofQueue policy (paths ++ path :: later)).tokenizeAll tree =
      ({ final with queue := later }, .error e) := by
  have whole : ofQueue policy (paths ++ path :: later) =
      ((ofQueue policy paths).queueUp [path]).queueUp later := by
    simp only [ofQueue, Tokenizer.queueUp, List.append_assoc, List.singleton_append]
  rw [whole, reached.tokenizeAll_queueUp stepped later, Tokenizer.queueUp, empty, List.nil_append]

/-- **At a path that breaks off** a run goes through the lines before the break, and fails on the line
behind them. The file has a record, and a section with the tokens of these lines. -/
theorem reaches_breaksOff {path : String} {queue : List String} {lines : List (List Char)}
    {cause : FileError} (idle : t.phase = .idle) (queued : t.queue = path :: queue)
    (breaks : SourceFile.BreaksOff tree path lines cause) {parts : List (List Token)}
    (before : t.Sections parts) :
    let base := lineBase t.policy.lineNumbering t.cursor.line
    ∃ last final count, Reaches tree t last ∧
      last.step tree = (final, .failed (.unreadable (Path.displayName path)
        (base + UInt32.ofNat lines.length + 1) cause)) ∧
      final.queue = queue ∧ final.tokens.size = t.tokens.size + count ∧
      final.files = t.files.push ⟨Path.displayName path, path, t.tokens.size, count⟩ ∧
      final.Sections (parts ++ [textTokens t.policy.identifiers base lines.flatten]) := by
  intro base
  obtain ⟨file, behind, ended, opened, reads, fails⟩ := breaks
  obtain ⟨name, samePath⟩ := SourceFile.name_of_openAt opened
  obtain ⟨last, count, reached, phase, -, queue, line, -, size, files, sections⟩ :=
    reaches_opened idle queued opened reads
  refine ⟨last, last.close ended .exhausted, count, reached, ?_, queue, size, ?_, ?_⟩
  · rw [step_unreadable phase fails, reads.name, name, line]
  · rw [← name, ← samePath]
    exact files
  · rw [textTokens, reads.lines_flatten]
    exact (sections before).congr rfl rfl

/-- With a path behind them, a run over files comes to where it ends without it, and has the path to open. -/
theorem Reaches.before_path {policy : Policy} {paths : List String}
    (reached : Reaches tree (ofQueue policy paths) t) (idle : t.phase = .idle) (empty : t.queue = [])
    (path : String) :
    Reaches tree ((ofQueue policy paths).queueUp [path]) (t.queueUp [path]) ∧
      (t.queueUp [path]).queue = [path] := by
  refine ⟨reached.queueUp (by rw [state_of_idle idle]; nofun) [path], ?_⟩
  rw [Tokenizer.queueUp, empty, List.nil_append]

/-- **A path that cannot be opened**, behind files that a run has gone through. -/
theorem tokenizeAll_unopened {policy : Policy} {paths : List String} {path : String} {cause : FileError}
    (reached : Reaches tree (ofQueue policy paths) t) (idle : t.phase = .idle) (empty : t.queue = [])
    (unopened : SourceFile.openAt tree path = .error cause) (later : List String) :
    (ofQueue policy (paths ++ path :: later)).tokenizeAll tree =
      ({ t with queue := later, state := .exhausted, file := none, cursor := t.cursor.clear },
        .error (.sourceNotFound path cause)) := by
  obtain ⟨there, queued⟩ := reached.before_path idle empty path
  have between : (t.queueUp [path]).phase = .idle := idle
  have stepped := step_unopened between queued unopened
  exact there.tokenizeAll_append stepped rfl later

/-- **A path that breaks off**, behind files that a run has gone through. -/
theorem tokenizeAll_breaksOff {policy : Policy} {paths : List String} {path : String}
    {lines : List (List Char)} {cause : FileError} (reached : Reaches tree (ofQueue policy paths) t)
    (idle : t.phase = .idle) (same : t.policy = policy) (empty : t.queue = [])
    (breaks : SourceFile.BreaksOff tree path lines cause) {parts : List (List Token)}
    (before : t.Sections parts) :
    let base := lineBase policy.lineNumbering t.cursor.line
    ∃ (final : Tokenizer) (count : Nat), final.tokens.size = t.tokens.size + count ∧
      final.files = t.files.push ⟨Path.displayName path, path, t.tokens.size, count⟩ ∧
      final.Sections (parts ++ [textTokens policy.identifiers base lines.flatten]) ∧
      ∀ later, (ofQueue policy (paths ++ path :: later)).tokenizeAll tree =
        ({ final with queue := later }, .error (.unreadable (Path.displayName path)
          (base + UInt32.ofNat lines.length + 1) cause)) := by
  subst same
  intro base
  obtain ⟨there, queued⟩ := reached.before_path idle empty path
  have between : (t.queueUp [path]).phase = .idle := idle
  have sections : (t.queueUp [path]).Sections parts := before.congr rfl rfl
  obtain ⟨last, final, count, more, failed, nothing, size, record, appended⟩ :=
    reaches_breaksOff between queued breaks sections
  exact ⟨final, count, size, record, appended, (there.trans more).tokenizeAll_append failed nothing⟩

/-- A queue is readable as a whole, or it begins with readable files and a path that cannot be opened or
breaks off. -/
theorem queue_cases (tree : FileTree) (queue : List String) :
    ∃ unit : List (String × List Char), (∀ file ∈ unit, tree.readText file.1 = .ok file.2) ∧
      (queue = unit.map Prod.fst ∨
        ∃ path later, queue = unit.map Prod.fst ++ path :: later ∧
          ((∃ cause, SourceFile.openAt tree path = .error cause) ∨
            ∃ lines cause, SourceFile.BreaksOff tree path lines cause)) := by
  induction queue with
  | nil => exact ⟨[], List.forall_mem_nil _, .inl rfl⟩
  | cons path queue ih =>
    rcases SourceFile.read_cases tree path with ⟨text, first⟩ | obstacle
    · obtain ⟨unit, readable, rest⟩ := ih
      refine ⟨(path, text) :: unit, List.forall_mem_cons.mpr ⟨first, readable⟩, ?_⟩
      rcases rest with rfl | ⟨other, later, rfl, obstacle⟩
      · exact .inl rfl
      · exact .inr ⟨other, later, rfl, obstacle⟩
    · exact ⟨[], List.forall_mem_nil _, .inr ⟨path, queue, rfl, obstacle⟩⟩

/-- States with the same sections have the same stream, as a whole and file by file. -/
theorem Sections.same_tokens {next : Tokenizer} {parts : List (List Token)} (first : t.Sections parts)
    (second : next.Sections parts) : t.tokens = next.tokens ∧ ∀ i, t.tokensOf? i = next.tokensOf? i := by
  refine ⟨Array.toList_inj.mp (first.tokens.trans second.tokens.symm), ?_⟩
  intro i
  rw [first.tokensOf?_eq, second.tokensOf?_eq]

/-! ## The law -/

/-- **A failed run yields what could be read.** Behind readable files, a path that cannot be opened fails
as not found; the stream and the records are those of a run over the files before it. A path that breaks
off fails on the line behind the ones it has handed out, counted on from the files before it where the unit
is numbered through; it has the last record, which counts what its lines have yielded, and the stream is
that of a run over the files before it and a file that ends where it breaks off, section by section. What
is queued behind is neither opened nor looked at. And a run fails in no other way. -/
theorem tokenizeAll_failure (tree : FileTree) (policy : Policy) :
    (∀ (unit : List (String × List Char)) (path : String),
      (∀ file ∈ unit, tree.readText file.1 = .ok file.2) →
      ∃ done, (ofQueue policy (unit.map Prod.fst)).tokenizeAll tree = (done, .ok done.tokens) ∧
        (∀ cause, SourceFile.openAt tree path = .error cause →
          ∃ final : Tokenizer, final.tokens = done.tokens ∧ final.files = done.files ∧
            ∀ later, (ofQueue policy (unit.map Prod.fst ++ path :: later)).tokenizeAll tree =
              ({ final with queue := later }, .error (.sourceNotFound path cause))) ∧
        ∀ lines cause, SourceFile.BreaksOff tree path lines cause →
          ∃ (final : Tokenizer) (count : Nat), final.tokens.size = done.tokens.size + count ∧
            final.files =
              done.files.push ⟨Path.displayName path, path, done.tokens.size, count⟩ ∧
            (∀ later, (ofQueue policy (unit.map Prod.fst ++ path :: later)).tokenizeAll tree =
              ({ final with queue := later }, .error (.unreadable (Path.displayName path)
                (UInt32.ofNat (lineOffset policy.lineNumbering (unit.map Prod.snd) unit.length +
                  lines.length + 1)) cause))) ∧
            ∀ (cutTree : FileTree) (cut : List (String × List Char)),
              (∀ file ∈ cut, cutTree.readText file.1 = .ok file.2) →
              cut.map Prod.snd = unit.map Prod.snd ++ [lines.flatten] →
              ∃ whole, (ofQueue policy (cut.map Prod.fst)).tokenizeAll cutTree =
                  (whole, .ok whole.tokens) ∧
                final.tokens = whole.tokens ∧ ∀ i, final.tokensOf? i = whole.tokensOf? i) ∧
    ∀ queue e, ((ofQueue policy queue).tokenizeAll tree).2 = .error e →
      ∃ (unit : List (String × List Char)) (path : String) (later : List String),
        queue = unit.map Prod.fst ++ path :: later ∧
        (∀ file ∈ unit, tree.readText file.1 = .ok file.2) ∧
        ((∃ cause, SourceFile.openAt tree path = .error cause) ∨
          ∃ lines cause, SourceFile.BreaksOff tree path lines cause) := by
  constructor
  · intro unit path readable
    obtain ⟨t, reached, idle, same, empty, counter, sections⟩ := reaches_ofQueue policy readable
    refine ⟨_, reached.tokenizeAll_of_idle idle empty, ?_, ?_⟩
    · intro cause unopened
      refine ⟨{ t with state := .exhausted, file := none, cursor := t.cursor.clear }, rfl, rfl, ?_⟩
      intro later
      exact tokenizeAll_unopened reached idle empty unopened later
    · intro lines cause breaks
      obtain ⟨final, count, size, record, parts, fails⟩ :=
        tokenizeAll_breaksOff reached idle same empty breaks sections
      rw [counter] at parts fails
      refine ⟨final, count, size, record, ?_, ?_⟩
      · intro later
        rw [lineBase_unitLine_zero, List.length_map] at fails
        rw [fails, UInt32.ofNat_add, UInt32.ofNat_add]
        rfl
      · intro cutTree cut cutReadable texts
        obtain ⟨whole, ran, wholeParts⟩ := tokenizeAll_unit policy cutReadable
        rw [texts, unitSections_append_singleton] at wholeParts
        exact ⟨whole, ran, parts.same_tokens wholeParts⟩
  · intro queue e failed
    obtain ⟨unit, readable, rfl | ⟨path, later, split, obstacle⟩⟩ := queue_cases tree queue
    · obtain ⟨final, ran, -⟩ := tokenizeAll_unit policy readable
      rw [ran] at failed
      cases failed
    · exact ⟨unit, path, later, split, readable, obstacle⟩

/-- A file, and one that breaks off on its second line, inside a comment. -/
def brokenSecond : FileTree where
  entries := [(["A.jack"], .file 0), (["B.jack"], .file 1)]
  slots := #[Utf8.encode "a\n".toList, Utf8.encode "b; /* c\n".toList ++ [255]]

/-- The same files, with the second cut down to its first line. -/
def cutSecond : List (String × List Char) := [("A.jack", "a\n".toList), ("B.jack", "b; /* c\n".toList)]

/-- The law at both failures: a file that breaks off, and one that is missing, each in front of the
other. -/
theorem tokenizeAll_failure_brokenSecond :
    SourceFile.BreaksOff brokenSecond "B.jack" ["b; /* c\n".toList] .invalidData ∧
    SourceFile.openAt brokenSecond "C.jack" = .error .notFound ∧
    (∃ final : Tokenizer, (ofQueue {} ["A.jack", "B.jack", "C.jack"]).tokenizeAll brokenSecond =
        ({ final with queue := ["C.jack"] }, .error (.unreadable "B.jack" 3 .invalidData)) ∧
      final.tokens = #[⟨.identifier "a", 1⟩, ⟨.identifier "b", 2⟩, ⟨.symbol ';', 2⟩] ∧
      final.files.back? = some ⟨"B.jack", "B.jack", 1, 2⟩) ∧
    ∃ final : Tokenizer, (ofQueue {} ["A.jack", "C.jack", "B.jack"]).tokenizeAll brokenSecond =
        ({ final with queue := ["B.jack"] }, .error (.sourceNotFound "C.jack" .notFound)) ∧
      final.tokens = #[⟨.identifier "a", 1⟩] := by
  have breaks : SourceFile.BreaksOff brokenSecond "B.jack" ["b; /* c\n".toList] .invalidData := by
    let file : SourceFile := ⟨"B.jack", "B.jack", .file 1 0 []⟩
    have left : file.Holds brokenSecond (brokenSecond.bytes 1) := ⟨1, 0, [], rfl, rfl⟩
    obtain ⟨last, read, holds, -⟩ := SourceFile.readLine_of_holds left
    obtain ⟨ended, fails, -⟩ := SourceFile.readLine_of_holds holds
    exact ⟨file, last, ended, rfl, .cons read (.nil last), fails⟩
  have readable : ∀ file ∈ [("A.jack", "a\n".toList)], brokenSecond.readText file.1 = .ok file.2 :=
    List.forall_mem_singleton.mpr rfl
  have cutReadable : ∀ file ∈ cutSecond, (FileTree.ofTexts cutSecond).readText file.1 = .ok file.2 :=
    List.forall_mem_cons.mpr ⟨rfl, List.forall_mem_singleton.mpr rfl⟩
  -- The streams of the runs that do not fail are known from their texts.
  have alone {done : Tokenizer} (ran : (ofQueue {} ["A.jack"]).tokenizeAll brokenSecond =
      (done, .ok done.tokens)) : done.tokens = #[⟨.identifier "a", 1⟩] := by
    obtain ⟨other, ran', sections⟩ := tokenizeAll_unit {} readable
    cases ran.symm.trans ran'
    exact Array.toList_inj.mp (sections.tokens.trans (by decide +kernel))
  obtain ⟨failure, -⟩ := tokenizeAll_failure brokenSecond {}
  refine ⟨breaks, rfl, ?_, ?_⟩
  · obtain ⟨done, ran, -, broken⟩ := failure _ "B.jack" readable
    obtain ⟨final, count, size, files, fails, cut⟩ := broken _ _ breaks
    obtain ⟨whole, ran', tokens, -⟩ := cut (FileTree.ofTexts cutSecond) cutSecond cutReadable rfl
    obtain ⟨other, ran'', sections⟩ := tokenizeAll_unit {} cutReadable
    cases ran'.symm.trans ran''
    have stream : final.tokens = #[⟨.identifier "a", 1⟩, ⟨.identifier "b", 2⟩, ⟨.symbol ';', 2⟩] :=
      tokens.trans (Array.toList_inj.mp (sections.tokens.trans (by decide +kernel)))
    rw [stream, alone ran] at size
    have two : count = 2 := Nat.add_left_cancel size.symm
    refine ⟨final, fails ["C.jack"], stream, ?_⟩
    rw [files, alone ran, two]
    exact Array.back?_push
  · obtain ⟨done, ran, missing, -⟩ := failure _ "C.jack" readable
    obtain ⟨final, tokens, -, fails⟩ := missing .notFound rfl
    exact ⟨final, fails ["B.jack"], tokens.trans (alone ran)⟩

end Tokenizer

end JackTokens
