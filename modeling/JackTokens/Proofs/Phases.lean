import JackTokens.Tokenizer.Run

/-!
# Phases

The state of a tokenizer says what it is about to do, and the file that it has open says what there is to do
it with. They are changed by different functions at different moments. A **phase** is what the two say
together: between files and at the end no file is open, and to read or to scan a line takes one. A tokenizer
whose state and file say anything else is astray. There its steps still do something (without a file to read
from, the next one is to be opened), but no run ever leads there; that is a matter of all the steps together.

From a phase, what a step does can be told without looking into it: each case of a step has its equation here,
under the conditions that lead to it. What is said about steps later rests on these.
-/

namespace JackTokens

/-- **Where a tokenizer stands**, by its state and its open file. -/
inductive Phase where
  /-- Between files. -/
  | idle
  /-- In a file, between lines. -/
  | lineEmpty (file : SourceFile)
  /-- In a file, with a line to scan. -/
  | lineBuffered (file : SourceFile)
  /-- Done, with or without a failure. -/
  | exhausted
  /-- The state and the open file contradict each other. -/
  | astray
  deriving DecidableEq

namespace Tokenizer

variable {tree : FileTree} {t : Tokenizer} {file : SourceFile}

/-- The phase of a tokenizer. -/
def phase (t : Tokenizer) : Phase :=
  match t.state, t.file with
  | .idle, none => .idle
  | .lineEmpty, some file => .lineEmpty file
  | .lineBuffered, some file => .lineBuffered file
  | .exhausted, none => .exhausted
  | _, _ => .astray

theorem phase_eq_idle_iff : t.phase = .idle ↔ t.state = .idle ∧ t.file = none := by
  unfold phase
  cases t.state <;> cases t.file <;> simp

theorem phase_eq_lineEmpty_iff : t.phase = .lineEmpty file ↔ t.state = .lineEmpty ∧ t.file = some file := by
  unfold phase
  cases t.state <;> cases t.file <;> simp

theorem phase_eq_lineBuffered_iff :
    t.phase = .lineBuffered file ↔ t.state = .lineBuffered ∧ t.file = some file := by
  unfold phase
  cases t.state <;> cases t.file <;> simp

theorem phase_eq_exhausted_iff : t.phase = .exhausted ↔ t.state = .exhausted ∧ t.file = none := by
  unfold phase
  cases t.state <;> cases t.file <;> simp

/-- State and file fit together if no file is open exactly between files and at the end. -/
theorem phase_ne_astray_iff :
    t.phase ≠ .astray ↔ (t.file = none ↔ t.state = .idle ∨ t.state = .exhausted) := by
  unfold phase
  cases t.state <;> cases t.file <;> simp

theorem file_of_lineEmpty (phase : t.phase = .lineEmpty file) : t.file = some file :=
  (phase_eq_lineEmpty_iff.mp phase).2

theorem file_of_lineBuffered (phase : t.phase = .lineBuffered file) : t.file = some file :=
  (phase_eq_lineBuffered_iff.mp phase).2

theorem state_of_idle (idle : t.phase = .idle) : t.state = .idle := (phase_eq_idle_iff.mp idle).1

theorem file_of_idle (idle : t.phase = .idle) : t.file = none := (phase_eq_idle_iff.mp idle).2

theorem state_of_exhausted (done : t.phase = .exhausted) : t.state = .exhausted :=
  (phase_eq_exhausted_iff.mp done).1

theorem file_of_exhausted (done : t.phase = .exhausted) : t.file = none := (phase_eq_exhausted_iff.mp done).2

/-! ## The states that steps lead to -/

/-- A state in which a file has been closed. -/
def close (t : Tokenizer) (file : SourceFile) (next : DriverState) : Tokenizer :=
  { ({ t with file := some file } : Tokenizer).closeFile with state := next }

/-- A state in which a line has just been read. -/
def loading (t : Tokenizer) (behind : SourceFile) (raw : List Char) : Tokenizer :=
  { t with
    file := some behind
    cursor := (t.cursor.load raw).1
    state := if (t.cursor.load raw).2 then .lineBuffered else .lineEmpty }

theorem phase_loading (t : Tokenizer) (behind : SourceFile) (raw : List Char) :
    (t.loading behind raw).phase =
      if (t.cursor.load raw).2 then .lineBuffered behind else .lineEmpty behind := by
  unfold loading phase
  cases (t.cursor.load raw).2 <;> rfl

/-- What there is to tell when a file is opened: that it is open, and that the file before it has left a
comment open. -/
def openingEvents (t : Tokenizer) (file : SourceFile) : Array Event :=
  match t.cursor.inBlockComment, t.files.back? with
  | true, some previous => #[.opened file.name, .endedInComment previous.name]
  | _, _ => #[.opened file.name]

/-- A state in which a file has just been opened: it has a record without tokens, and the cursor stands
before its first line. -/
def opening (t : Tokenizer) (file : SourceFile) (queue : List String) : Tokenizer :=
  { t with
    queue := queue
    state := .lineEmpty
    file := some file
    cursor := (t.cursor.beginFile t.policy.lineNumbering).1
    files := t.files.push ⟨file.name, file.path, t.tokens.size, 0⟩
    journal := t.journal ++ t.openingEvents file }

/-! ## The steps -/

theorem step_of_exhausted (done : t.state = .exhausted) : t.step tree = (t, .finished) := by
  rw [step, done]

/-- With nothing left to open the run is over. -/
theorem step_completed (idle : t.state = .idle) (empty : t.queue = []) :
    t.step tree =
      ({ (t.note (.completed t.files.size t.tokens.size)) with state := .exhausted }, .working) := by
  simp only [step, idle, openNext, empty]

/-- The step at a file that cannot be opened. No other file is open that would have to be closed. -/
theorem step_unopened {path : String} {queue : List String} {cause : FileError} (idle : t.phase = .idle)
    (queued : t.queue = path :: queue) (unopened : SourceFile.openAt tree path = .error cause) :
    t.step tree =
      ({ t with queue := queue, state := .exhausted, file := none, cursor := t.cursor.clear },
        .failed (.sourceNotFound path cause)) := by
  obtain ⟨between, closed⟩ := phase_eq_idle_iff.mp idle
  simp only [step, between, openNext, queued, unopened, abort, closeFile, closed]

theorem openNext_of_openAt {path : String} {queue : List String} (queued : t.queue = path :: queue)
    (opened : SourceFile.openAt tree path = .ok file) :
    t.openNext tree = (t.opening file queue, .working) := by
  simp only [openNext, queued, opened, opening, openingEvents, LineCursor.beginFile, note]
  split <;> simp_all [← Array.toList_inj]

theorem step_opened {path : String} {queue : List String} (idle : t.phase = .idle)
    (queued : t.queue = path :: queue) (opened : SourceFile.openAt tree path = .ok file) :
    t.step tree = (t.opening file queue, .working) := by
  rw [step, state_of_idle idle]
  exact openNext_of_openAt queued opened

theorem step_of_lineEmpty (phase : t.phase = .lineEmpty file) : t.step tree = t.nextLine tree := by
  rw [step, (phase_eq_lineEmpty_iff.mp phase).1]

/-- The step at a line that cannot be read. -/
theorem step_unreadable {behind : SourceFile} {cause : FileError} (phase : t.phase = .lineEmpty file)
    (fails : file.readLine tree = (behind, .error cause)) :
    t.step tree =
      (t.close behind .exhausted, .failed (.unreadable file.name (t.cursor.line + 1) cause)) := by
  rw [step_of_lineEmpty phase]
  simp only [nextLine, file_of_lineEmpty phase, fails]
  rfl

/-- The step at the end of a file. -/
theorem step_ended {behind : SourceFile} (phase : t.phase = .lineEmpty file)
    (noMore : file.readLine tree = (behind, .ok none)) :
    t.step tree = (t.close behind .idle, .working) := by
  rw [step_of_lineEmpty phase]
  simp only [nextLine, file_of_lineEmpty phase, noMore]
  rfl

/-- The step at a line. -/
theorem step_loaded {behind : SourceFile} {raw : List Char} (phase : t.phase = .lineEmpty file)
    (read : file.readLine tree = (behind, .ok (some raw))) :
    t.step tree = (t.loading behind raw, .working) := by
  rw [step_of_lineEmpty phase]
  simp only [nextLine, file_of_lineEmpty phase, read]
  rfl

theorem step_of_lineBuffered (phase : t.phase = .lineBuffered file) : t.step tree = t.nextLexeme := by
  rw [step, (phase_eq_lineBuffered_iff.mp phase).1]

end Tokenizer

end JackTokens
