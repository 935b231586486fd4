import JackTokens.Lexeme
import JackTokens.LineCursor
import JackTokens.Source

/-!
# A tokenizer and its steps

A tokenizer works through a queue of sources. Its state says what it is about to do: to open a file, to
read a line, to scan one, or nothing any more. The file it has open is kept beside the state, and so are
the line and its position; each step changes what it has to, and that these fit together is not built in.
What has been produced so far stays with the tokenizer: the tokens, a record for each file that was opened,
and the events.

`step` does the least that can be done: it opens a file, reads a line, or passes one lexeme. A step
may yield a token, find that there is nothing left, or fail; a failure closes the file and ends the
run. Each step that neither ends the run nor finds it ended leaves less to do, counted first in queued
files, then in unread bytes of the open file, then in bytes of the line, and last in states
(`workload_step`).
-/

namespace JackTokens

/-- **What a tokenizer is about to do.** -/
inductive DriverState where
  /-- To open the next file. -/
  | idle
  /-- To read the next line of a file. -/
  | lineEmpty
  /-- To scan a line. -/
  | lineBuffered
  /-- Nothing, with or without a failure before. -/
  | exhausted
  deriving DecidableEq, Repr, Inhabited

/-- States in the order in which a step without input passes through them, the last one first. -/
def DriverState.rank : DriverState → Nat
  | exhausted => 0
  | idle => 1
  | lineEmpty => 2
  | lineBuffered => 3

/-- **The record of an opened file**: which tokens of the stream are its own. -/
structure Provenance where
  name : String
  path : String
  /-- How many tokens came before the file. -/
  first : Nat
  /-- How many tokens the file has yielded. -/
  count : Nat
  deriving DecidableEq, Repr, Inhabited

/-- **A tokenizer.** -/
structure Tokenizer where
  policy : Policy
  /-- The sources still to be opened. -/
  queue : List String
  state : DriverState := .idle
  /-- The file that is being read. -/
  file : Option SourceFile := none
  cursor : LineCursor := .fresh
  /-- The tokens yielded so far. -/
  tokens : Array Token := #[]
  /-- The files opened so far. -/
  files : Array Provenance := #[]
  /-- The place in `files` of the file that yielded the last token. -/
  lastEmitted : Option Nat := none
  /-- The events so far. -/
  journal : Array Event := #[]
  deriving Repr, Inhabited

/-- What a step came to. -/
inductive Outcome where
  /-- There is more to do. -/
  | working
  /-- A token was found. -/
  | yielded (token : Token)
  /-- There is nothing left. -/
  | finished
  | failed (error : TokenizeError)
  deriving DecidableEq, Repr, Inhabited

namespace Tokenizer

/-- Notes an event. -/
def note (t : Tokenizer) (event : Event) : Tokenizer :=
  { t with journal := t.journal.push event }

/-- Closes the open file, if there is one, and drops the line. -/
def closeFile (t : Tokenizer) : Tokenizer :=
  let told := match t.file with
    | some file => t.note (.closed file.name t.cursor.line)
    | none => t
  { told with file := none, cursor := t.cursor.clear }

/-- Gives the run up. -/
def abort (t : Tokenizer) : Tokenizer := { t.closeFile with state := .exhausted }

/-- Opens the next file of the queue, or ends the run where there is none. -/
def openNext (tree : FileTree) (t : Tokenizer) : Tokenizer × Outcome :=
  match t.queue with
  | [] =>
    ({ (t.note (.completed t.files.size t.tokens.size)) with state := .exhausted }, .working)
  | path :: queue =>
    match SourceFile.openAt tree path with
    | .error cause => ({ t with queue := queue }.abort, .failed (.sourceNotFound path cause))
    | .ok file =>
      let opened := t.note (.opened file.name)
      let (cursor, wasInComment) := t.cursor.beginFile t.policy.lineNumbering
      let warned := match wasInComment, t.files.back? with
        | true, some previous => opened.note (.endedInComment previous.name)
        | _, _ => opened
      let record : Provenance := ⟨file.name, file.path, t.tokens.size, 0⟩
      ({ warned with
          queue := queue, state := .lineEmpty, file := some file, cursor := cursor
          files := t.files.push record }, .working)

/-- Reads a line of the open file. At its end the file is closed. Without an open file there is nothing
to read, and the next one is to be opened. -/
def nextLine (tree : FileTree) (t : Tokenizer) : Tokenizer × Outcome :=
  match t.file with
  | none => ({ t with state := .idle }, .working)
  | some file =>
    match file.readLine tree with
    | (behind, .error cause) =>
      ({ t with file := some behind }.abort, .failed (.unreadable file.name (t.cursor.line + 1) cause))
    | (behind, .ok none) =>
      ({ { t with file := some behind }.closeFile with state := .idle }, .working)
    | (behind, .ok (some raw)) =>
      let (cursor, scannable) := t.cursor.load raw
      ({ t with
          file := some behind, cursor := cursor
          state := if scannable then .lineBuffered else .lineEmpty }, .working)

/-- Appends a token to the stream, in the name of the last file. -/
def emit (t : Tokenizer) (token : Token) : Tokenizer :=
  let last := t.files.size - 1
  { (t.note (.emitted token)) with
    tokens := t.tokens.push token
    files := t.files.modify last fun record => { record with count := record.count + 1 }
    lastEmitted := if t.files.isEmpty then t.lastEmitted else some last }

/-- The name of the open file; empty if there is none. -/
def openFileName (t : Tokenizer) : String :=
  match t.file with
  | some file => file.name
  | none => ""

/-- Passes one lexeme of the line, or leaves the line where nothing but blanks is left. -/
def nextLexeme (t : Tokenizer) : Tokenizer × Outcome :=
  match t.cursor.skipBlank? with
  | none => (t.abort, .failed (.malformedLexeme t.openFileName t.cursor.line ""))
  | some cursor =>
    if cursor.atEnd then ({ t with cursor := cursor, state := .lineEmpty }, .working)
    else
      let text := cursor.remaining?.getD []
      match (classify t.policy.identifiers text).filter (0 < ·.length) with
      | none =>
        ({ t with cursor := cursor }.abort,
          .failed (.malformedLexeme t.openFileName cursor.line (String.ofList text)))
      | some lexeme =>
        let passed := { t with cursor := cursor.advance lexeme.length }
        match lexeme.content with
        | .token kind =>
          let token : Token := ⟨kind, cursor.line⟩
          (passed.emit token, .yielded token)
        | .discard .openBlockComment =>
          let noted := passed.note (.commentContinues cursor.line)
          ({ noted with cursor := noted.cursor.enterBlockComment }, .working)
        | .discard _ => (passed, .working)

/-- **One step of a run.** -/
def step (tree : FileTree) (t : Tokenizer) : Tokenizer × Outcome :=
  match t.state with
  | .exhausted => (t, .finished)
  | .idle => t.openNext tree
  | .lineEmpty => t.nextLine tree
  | .lineBuffered => t.nextLexeme

/-! ## Each step leaves less to do -/

/-- How many bytes of the open file are unread. -/
def unread (tree : FileTree) (t : Tokenizer) : Nat :=
  match t.file with
  | some file => file.unread tree
  | none => 0

/-- **What is left to do**: queued files, unread bytes of the open file, bytes of the line, states. -/
def workload (tree : FileTree) (t : Tokenizer) : Nat × Nat × Nat × Nat :=
  (t.queue.length, t.unread tree, t.cursor.bytesLeft, t.state.rank)

/-- The order of workloads: the first difference decides. -/
abbrev Workload.Less : Nat × Nat × Nat × Nat → Nat × Nat × Nat × Nat → Prop :=
  Prod.Lex (· < ·) (Prod.Lex (· < ·) (Prod.Lex (· < ·) (· < ·)))

theorem Workload.less_queue {a a' b b' c c' d d' : Nat} (h : a < a') :
    Workload.Less (a, b, c, d) (a', b', c', d') := Prod.Lex.left _ _ h

theorem Workload.less_unread {a b b' c c' d d' : Nat} (h : b < b') :
    Workload.Less (a, b, c, d) (a, b', c', d') := Prod.Lex.right _ (Prod.Lex.left _ _ h)

theorem Workload.less_line {a b c c' d d' : Nat} (h : c < c') :
    Workload.Less (a, b, c, d) (a, b, c', d') :=
  Prod.Lex.right _ (Prod.Lex.right _ (Prod.Lex.left _ _ h))

theorem Workload.less_state {a b b' c c' d d' : Nat} (hb : b ≤ b') (hc : c ≤ c') (hd : d < d') :
    Workload.Less (a, b, c, d) (a, b', c', d') := by
  rcases Nat.lt_or_eq_of_le hb with hb | rfl
  · exact Workload.less_unread hb
  · rcases Nat.lt_or_eq_of_le hc with hc | rfl
    · exact Workload.less_line hc
    · exact Prod.Lex.right _ (Prod.Lex.right _ (Prod.Lex.right _ hd))

/-- Closing the file leaves nothing to read and nothing of the line, so it is enough to go on to an earlier
state. -/
theorem workload_closeFile {tree : FileTree} {t closing : Tokenizer} {next : DriverState}
    (queue : closing.queue = t.queue) (earlier : next.rank < t.state.rank) :
    Workload.Less (({ closing.closeFile with state := next } : Tokenizer).workload tree) (t.workload tree) := by
  have kept : closing.closeFile.queue = closing.queue := by
    unfold closeFile
    cases closing.file <;> rfl
  have same : ({ closing.closeFile with state := next } : Tokenizer).workload tree =
      (t.queue.length, 0, 0, next.rank) := by
    rw [← queue, ← kept]
    rfl
  rw [same]
  exact Workload.less_state (Nat.zero_le _) (Nat.zero_le _) earlier

/-- Opening a file shortens the queue, and ending the run is the last state. -/
theorem workload_openNext {tree : FileTree} {t : Tokenizer} (idle : t.state = .idle) :
    Workload.Less ((t.openNext tree).1.workload tree) (t.workload tree) := by
  unfold openNext
  split
  · refine Workload.less_state (Nat.le_refl _) (Nat.le_refl _) ?_
    rw [idle]
    exact Nat.zero_lt_one
  · rename_i path queue nonempty
    split
    · refine Workload.less_queue ?_
      have kept : ({ t with queue := queue } : Tokenizer).abort.queue = queue := by
        unfold abort closeFile
        cases t.file <;> rfl
      rw [kept, nonempty]
      exact Nat.lt_succ_self _
    · exact Workload.less_queue (by simp [nonempty])

/-- Reading a line leaves fewer unread bytes, and the end of the file leads to an earlier state. -/
theorem workload_nextLine {tree : FileTree} {t : Tokenizer} (between : t.state = .lineEmpty) :
    Workload.Less ((t.nextLine tree).1.workload tree) (t.workload tree) := by
  unfold nextLine
  split
  · refine Workload.less_state (Nat.le_refl _) (Nat.le_refl _) ?_
    rw [between]
    exact Nat.lt_succ_self 1
  · rename_i file isOpen
    split
    · exact workload_closeFile rfl (by rw [between]; decide)
    · exact workload_closeFile rfl (by rw [between]; decide)
    · rename_i behind raw read
      refine Workload.less_unread ?_
      have less := SourceFile.unread_readLine read
      rw [unread, unread, isOpen]
      exact less

/-- Passing a lexeme takes bytes off the line, and leaving the line leads to an earlier state. -/
theorem workload_nextLexeme {tree : FileTree} {t : Tokenizer} (buffered : t.state = .lineBuffered) :
    Workload.Less (t.nextLexeme.1.workload tree) (t.workload tree) := by
  unfold nextLexeme
  split
  · exact workload_closeFile rfl (by rw [buffered]; decide)
  · rename_i cursor skipped
    have fewer := LineCursor.bytesLeft_skipBlank? skipped
    split
    · refine Workload.less_state (Nat.le_refl _) fewer ?_
      rw [buffered]
      exact Nat.lt_succ_self 2
    · rename_i before
      have left := LineCursor.bytesLeft_pos (by simpa using before)
      dsimp only
      split
      · exact workload_closeFile rfl (by rw [buffered]; decide)
      · rename_i lexeme found
        have takes : 0 < lexeme.length := by simpa using (Option.filter_eq_some_iff.mp found).2
        have shorter : (cursor.advance lexeme.length).bytesLeft < t.cursor.bytesLeft := by
          rw [LineCursor.bytesLeft_advance]
          omega
        split <;> exact Workload.less_line shorter

/-- **Each step leaves less to do**, unless the run is done already. -/
theorem workload_step {tree : FileTree} {t : Tokenizer} (busy : t.state ≠ .exhausted) :
    Workload.Less ((t.step tree).1.workload tree) (t.workload tree) := by
  unfold step
  split
  · rename_i done
    exact absurd done busy
  · rename_i idle
    exact workload_openNext idle
  · rename_i between
    exact workload_nextLine between
  · rename_i buffered
    exact workload_nextLexeme buffered

/-- A step that goes on was not taken at the end of the run. -/
theorem workload_lt {tree : FileTree} {t next : Tokenizer} {outcome : Outcome}
    (taken : t.step tree = (next, outcome)) (busy : outcome ≠ .finished) :
    Workload.Less (next.workload tree) (t.workload tree) := by
  have less : Workload.Less ((t.step tree).1.workload tree) (t.workload tree) := by
    apply workload_step
    intro done
    have ended : t.step tree = (t, .finished) := by simp [step, done]
    rw [taken] at ended
    exact busy (congrArg Prod.snd ended)
  rwa [taken] at less

end Tokenizer

end JackTokens
