import JackTokens.Proofs.Run

/-!
# States of a run

A tokenizer is several things at once: a state, an open file, a line with a position in it, a flag for an
open comment, a stream, and a record for each file. They are changed at different moments, by the opening of
a file, a line, a lexeme, the end of a file or a failure, and they have to fit together at each of them.

**What a step can do** (`Transition`). Each case holds all that is asked for, and the state and the outcome
that the step comes to. Where state and file do not contradict each other, and from a cursor that is not
inside a character, a step does one of these things and nothing else (`transition_step`); what is said about
steps later goes by cases on it and never opens `step`.

**What fits together** (`Coherent`). A file is open exactly where there are lines to read or to scan. The
position is between two characters. Without an open file there is no line. Between two lines, and where a
comment is open, the line has been passed. The open file is the one of the last record. The place of the last
token and the sections of the records lie inside the lists they point into. Each step keeps this up
(`Coherent.step`), so it holds in every state that is ever visited (`coherent_of_visits`), whatever was asked
for and whatever became of the files in between.

**The law** (`visits_phases`) says what this means for each state, and that the last of them is the end:
it is entered with nothing left or by a failure, and it is never left again.
-/

namespace JackTokens

/-- A load keeps a line, and then no comment is open, or it keeps none. -/
theorem LineCursor.load_cases (cursor : LineCursor) (raw : List Char) :
    (∃ text, cursor.load raw = (start text (cursor.line + 1) false, true)) ∨
      ∃ inComment, cursor.load raw = (start [] (cursor.line + 1) inComment, false) := by
  cases found : codeOf cursor.inBlockComment raw with
  | none => exact .inr ⟨true, load_of_codeOf_eq_none found⟩
  | some code =>
    obtain ⟨text, load, -⟩ := load_of_codeOf_eq_some found
    rcases keep_cases (start [] (cursor.line + 1) false) text with kept | ⟨unkept, -⟩
    · exact .inl ⟨text, load.trans kept⟩
    · exact .inr ⟨false, load.trans unkept⟩

theorem LineCursor.atEnd_of_text_eq_nil {cursor : LineCursor} (empty : cursor.text = []) :
    cursor.atEnd = true := by
  simp [atEnd, cursor.size_eq, empty]

theorem LineCursor.eq_nil_of_atEnd {cursor : LineCursor} {rest : List Char}
    (remaining : cursor.remaining? = some rest) (ended : cursor.atEnd = true) : rest = [] := by
  cases rest with
  | nil => rfl
  | cons c rest =>
    rw [atEnd_cons remaining] at ended
    cases ended

namespace Tokenizer

variable {tree : FileTree} {t : Tokenizer}

/-! ## What a step can do -/

/-- **What a step can do**, and what it comes to. -/
inductive Transition (tree : FileTree) (t : Tokenizer) : Tokenizer → Outcome → Prop
  | finished : t.phase = .exhausted → Transition tree t t .finished
  | completed : t.phase = .idle → t.queue = [] →
      Transition tree t
        { (t.note (.completed t.files.size t.tokens.size)) with state := .exhausted } .working
  | unopened {path : String} {queue : List String} {cause : FileError} :
      t.phase = .idle → t.queue = path :: queue → SourceFile.openAt tree path = .error cause →
      Transition tree t { t with queue := queue, state := .exhausted, file := none, cursor := t.cursor.clear }
        (.failed (.sourceNotFound path cause))
  | opened {path : String} {queue : List String} {file : SourceFile} :
      t.phase = .idle → t.queue = path :: queue → SourceFile.openAt tree path = .ok file →
      Transition tree t (t.opening file queue) .working
  | unreadable {file behind : SourceFile} {cause : FileError} :
      t.phase = .lineEmpty file → file.readLine tree = (behind, .error cause) →
      Transition tree t (t.close behind .exhausted)
        (.failed (.unreadable file.name (t.cursor.line + 1) cause))
  | ended {file behind : SourceFile} :
      t.phase = .lineEmpty file → file.readLine tree = (behind, .ok none) →
      Transition tree t (t.close behind .idle) .working
  | loaded {file behind : SourceFile} {raw : List Char} :
      t.phase = .lineEmpty file → file.readLine tree = (behind, .ok (some raw)) →
      Transition tree t (t.loading behind raw) .working
  | blank {file : SourceFile} {run : List Char} :
      t.phase = .lineBuffered file → t.cursor.remaining? = some run → Text.Blank run →
      Transition tree t
        { t with cursor := t.cursor.advance (Utf8.size run), state := .lineEmpty } .working
  | lexeme {file : SourceFile} {run piece rest : List Char} {content : Content} :
      t.phase = .lineBuffered file → t.cursor.remaining? = some (run ++ (piece ++ rest)) →
      Text.Blank run → Front t.policy.identifiers content piece rest →
      Transition tree t ((t.pass run piece).absorb content) (outcomeOf t.cursor.line content)

/-- **A step does one of these things**, unless its state and its file contradict each other, or its cursor
is inside a character. -/
theorem transition_step (tree : FileTree) {text : List Char} (agrees : t.phase ≠ .astray)
    (remaining : t.cursor.remaining? = some text) :
    Transition tree t (t.step tree).1 (t.step tree).2 := by
  cases phase : t.phase with
  | astray => exact absurd phase agrees
  | exhausted =>
    rw [step_of_exhausted (state_of_exhausted phase)]
    exact .finished phase
  | idle =>
    cases queued : t.queue with
    | nil =>
      rw [step_completed (state_of_idle phase) queued]
      exact .completed phase queued
    | cons path queue =>
      cases found : SourceFile.openAt tree path with
      | error cause =>
        rw [step_unopened phase queued found]
        exact .unopened phase queued found
      | ok file =>
        rw [step_opened phase queued found]
        exact .opened phase queued found
  | lineEmpty file =>
    obtain ⟨⟨behind, line⟩, read⟩ : ∃ result, file.readLine tree = result := ⟨_, rfl⟩
    rcases line with cause | _ | raw
    · rw [step_unreadable phase read]
      exact .unreadable phase read
    · rw [step_ended phase read]
      exact .ended phase read
    · rw [step_loaded phase read]
      exact .loaded phase read
  | lineBuffered file =>
    rw [step_of_lineBuffered phase]
    rcases Text.blank_cases text with blank | ⟨run, c, behind, blank, visible, split⟩
    · rw [nextLexeme_of_blank remaining blank]
      exact .blank phase remaining blank
    · obtain ⟨content, piece, rest, cut, front⟩ := exists_front t.policy.identifiers visible behind
      rw [split, cut] at remaining
      rw [nextLexeme_of_front remaining blank front]
      exact .lexeme phase remaining blank front

/-! ## What fits together -/

/-- **The parts of a state fit together.** -/
structure Coherent (t : Tokenizer) : Prop where
  /-- A file is open exactly where there are lines to read or to scan. -/
  agrees : t.phase ≠ .astray
  /-- The position is between two characters of the line. -/
  boundary : ∃ text, t.cursor.remaining? = some text
  /-- Without an open file there is no line. -/
  unbuffered : t.file = none → t.cursor.text = []
  /-- Between two lines, and inside a comment, the line has been passed. -/
  passed : t.state = .lineEmpty ∨ t.cursor.inBlockComment = true → t.cursor.atEnd = true
  /-- The open file is the one of the last record. -/
  recorded : ∀ {file : SourceFile}, t.file = some file →
    ∃ record, t.files.back? = some record ∧ record.name = file.name ∧ record.path = file.path
  /-- The last token came from one of the files. -/
  emitted : ∀ {i : Nat}, t.lastEmitted = some i → i < t.files.size
  /-- The sections of the files lie inside the stream. -/
  sections : ∀ {record : Provenance}, record ∈ t.files → record.first + record.count ≤ t.tokens.size

/-- No file is open exactly between files and at the end. -/
theorem Coherent.file_eq_none_iff (coherent : t.Coherent) :
    t.file = none ↔ t.state = .idle ∨ t.state = .exhausted :=
  phase_ne_astray_iff.mp coherent.agrees

theorem Coherent.phase_of_exhausted (coherent : t.Coherent) (done : t.state = .exhausted) :
    t.phase = .exhausted :=
  phase_eq_exhausted_iff.mpr ⟨done, coherent.file_eq_none_iff.mpr (.inr done)⟩

theorem coherent_ofQueue (policy : Policy) (queue : List String) : (ofQueue policy queue).Coherent where
  agrees := fun astray => by cases astray
  boundary := ⟨[], rfl⟩
  unbuffered := fun _ => rfl
  passed := fun _ => rfl
  recorded := fun none => by cases none
  emitted := fun none => by cases none
  sections := fun member => by cases Array.not_mem_empty _ member

/-- A state between files, or the last one, fits together if nothing was done to the lists. -/
theorem Coherent.unopened (coherent : t.Coherent) {next : Tokenizer}
    (phase : next.phase = .idle ∨ next.phase = .exhausted)
    (boundary : ∃ text, next.cursor.remaining? = some text) (empty : next.cursor.text = [])
    (tokens : next.tokens = t.tokens) (files : next.files = t.files)
    (lastEmitted : next.lastEmitted = t.lastEmitted) : next.Coherent where
  agrees := by rcases phase with idle | done <;> simp_all
  boundary := boundary
  unbuffered := fun _ => empty
  passed := fun _ => LineCursor.atEnd_of_text_eq_nil empty
  recorded := by
    intro file isOpen
    have closed : next.file = none := phase.elim file_of_idle file_of_exhausted
    rw [closed] at isOpen
    cases isOpen
  emitted := by
    intro i found
    rw [files]
    exact coherent.emitted (lastEmitted ▸ found)
  sections := by
    intro record member
    rw [tokens]
    exact coherent.sections (files ▸ member)

theorem Coherent.opening (coherent : t.Coherent) (file : SourceFile) (queue : List String) :
    (t.opening file queue).Coherent where
  agrees := fun astray => by cases astray
  boundary := ⟨[], rfl⟩
  unbuffered := fun _ => rfl
  passed := fun _ => rfl
  recorded := by
    intro other isOpen
    cases isOpen
    exact ⟨_, Array.back?_push, rfl, rfl⟩
  emitted := by
    intro i found
    have inside := coherent.emitted found
    simp only [Tokenizer.opening, Array.size_push]
    omega
  sections := by
    intro record member
    rcases Array.mem_push.mp member with earlier | rfl
    · exact coherent.sections earlier
    · exact Nat.le_refl _

/-- A line that has been loaded, and kept or not. -/
theorem Coherent.loading (coherent : t.Coherent) {file behind : SourceFile} {raw : List Char}
    (phase : t.phase = .lineEmpty file) (read : file.readLine tree = (behind, .ok (some raw))) :
    (t.loading behind raw).Coherent := by
  have recorded : ∃ record, t.files.back? = some record ∧
      record.name = behind.name ∧ record.path = behind.path := by
    have same : (file.readLine tree).1 = behind := congrArg Prod.fst read
    obtain ⟨record, last, named⟩ := coherent.recorded (file_of_lineEmpty phase)
    exact ⟨record, last, same ▸ named⟩
  have agrees : (t.loading behind raw).phase ≠ .astray := by
    rw [phase_loading]
    split <;> simp
  unfold Tokenizer.loading at agrees ⊢
  rcases t.cursor.load_cases raw with ⟨text, kept⟩ | ⟨inComment, unkept⟩
  · rw [kept] at agrees ⊢
    refine ⟨agrees, ⟨text, rfl⟩, nofun, ?_, ?_, coherent.emitted, coherent.sections⟩
    · rintro (empty | comment)
      · cases empty
      · cases comment
    · intro other isOpen
      cases isOpen
      exact recorded
  · rw [unkept] at agrees ⊢
    refine ⟨agrees, ⟨[], rfl⟩, fun _ => rfl, fun _ => rfl, ?_, coherent.emitted, coherent.sections⟩
    intro other isOpen
    cases isOpen
    exact recorded

theorem Coherent.blank (coherent : t.Coherent) {file : SourceFile} {run : List Char}
    (phase : t.phase = .lineBuffered file) (remaining : t.cursor.remaining? = some run) :
    Coherent { t with cursor := t.cursor.advance (Utf8.size run), state := .lineEmpty } := by
  have isOpen := file_of_lineBuffered phase
  have behind : (t.cursor.advance (Utf8.size run)).remaining? = some [] :=
    LineCursor.remaining?_advance (by rw [List.append_nil, remaining])
  refine ⟨?_, ⟨[], behind⟩, ?_, fun _ => LineCursor.atEnd_nil behind, coherent.recorded, coherent.emitted,
    coherent.sections⟩
  · rw [phase_ne_astray_iff]
    simp [isOpen]
  · intro closed
    rw [show t.file = none from closed] at isOpen
    cases isOpen

/-- A token is appended in the name of the open file. -/
theorem Coherent.emit (coherent : t.Coherent) {file : SourceFile} (isOpen : t.file = some file)
    (token : Token) : (t.emit token).Coherent := by
  obtain ⟨record, last, name, path⟩ := coherent.recorded isOpen
  obtain ⟨front, files⟩ := Array.back?_eq_some_iff.mp last
  have counted := files_emit files token
  refine ⟨coherent.agrees, coherent.boundary, coherent.unbuffered, coherent.passed, ?_, ?_, ?_⟩
  · intro other same
    cases isOpen.symm.trans same
    rw [counted]
    exact ⟨_, Array.back?_push, name, path⟩
  · intro i found
    rw [lastEmitted_emit (files ▸ Array.size_push record)] at found
    cases found
    rw [counted, Array.size_push]
    exact Nat.lt_succ_self _
  · intro other member
    have longer : (t.emit token).tokens.size = t.tokens.size + 1 := Array.size_push _
    rw [counted] at member
    rcases Array.mem_push.mp member with earlier | rfl
    · have inside := coherent.sections (files ▸ Array.mem_push_of_mem record earlier)
      omega
    · have inside := coherent.sections (files ▸ Array.mem_push_self)
      simp only
      omega

/-- Where a lexeme stands in front, no comment is open, and none is opened by passing it. -/
theorem Coherent.pass (coherent : t.Coherent) {file : SourceFile} {run piece rest : List Char}
    {content : Content} (phase : t.phase = .lineBuffered file)
    (remaining : t.cursor.remaining? = some (run ++ (piece ++ rest)))
    (front : Front t.policy.identifiers content piece rest) : (t.pass run piece).Coherent := by
  obtain ⟨buffered, isOpen⟩ := phase_eq_lineBuffered_iff.mp phase
  refine ⟨coherent.agrees, ⟨rest, remaining?_pass remaining⟩, ?_, ?_, coherent.recorded, coherent.emitted,
    coherent.sections⟩
  · intro closed
    rw [show t.file = none from closed] at isOpen
    cases isOpen
  · rintro (empty | comment)
    · rw [show t.state = .lineEmpty from empty] at buffered
      cases buffered
    · -- An open comment leaves nothing of the line, but there is a lexeme.
      have nothing := LineCursor.eq_nil_of_atEnd remaining (coherent.passed (.inr comment))
      obtain ⟨c, tail, rfl, -⟩ := front.head
      simp at nothing

theorem Coherent.absorb (coherent : t.Coherent) {file : SourceFile} {run piece rest : List Char}
    {content : Content} (phase : t.phase = .lineBuffered file)
    (remaining : t.cursor.remaining? = some (run ++ (piece ++ rest)))
    (front : Front t.policy.identifiers content piece rest) :
    ((t.pass run piece).absorb content).Coherent := by
  have passed := coherent.pass phase remaining front
  rcases content with kind | (_ | _ | _)
  · have isOpen : (t.pass run piece).file = some file := file_of_lineBuffered phase
    exact passed.emit isOpen _
  · exact passed
  · exact passed
  · -- A comment that is left open reaches to the end of the line.
    have behind := remaining?_pass remaining
    cases front with
    | openBlockComment unclosed =>
      exact ⟨passed.agrees, passed.boundary, passed.unbuffered, fun _ => LineCursor.atEnd_nil behind, passed.recorded,
        passed.emitted, passed.sections⟩

theorem Coherent.transition (coherent : t.Coherent) {next : Tokenizer} {outcome : Outcome}
    (taken : Transition tree t next outcome) : next.Coherent := by
  cases taken with
  | finished _ => exact coherent
  | completed idle _ =>
    have closed := file_of_idle idle
    exact coherent.unopened (.inr (phase_eq_exhausted_iff.mpr ⟨rfl, closed⟩)) coherent.boundary
      (coherent.unbuffered closed) rfl rfl rfl
  | unopened _ _ _ => exact coherent.unopened (.inr rfl) ⟨[], rfl⟩ rfl rfl rfl rfl
  | opened _ _ _ => exact coherent.opening _ _
  | unreadable _ _ => exact coherent.unopened (.inr rfl) ⟨[], rfl⟩ rfl rfl rfl rfl
  | ended _ _ => exact coherent.unopened (.inl rfl) ⟨[], rfl⟩ rfl rfl rfl rfl
  | loaded phase read => exact coherent.loading phase read
  | blank phase remaining _ => exact coherent.blank phase remaining
  | lexeme phase remaining _ front => exact coherent.absorb phase remaining front

/-- What a step does from a state whose parts fit together. -/
theorem Coherent.transition_step (coherent : t.Coherent) (tree : FileTree) :
    Transition tree t (t.step tree).1 (t.step tree).2 := by
  obtain ⟨text, remaining⟩ := coherent.boundary
  exact Tokenizer.transition_step tree coherent.agrees remaining

/-- **Each step keeps the parts of a state together.** -/
theorem Coherent.step (coherent : t.Coherent) (tree : FileTree) : (t.step tree).1.Coherent :=
  coherent.transition (coherent.transition_step tree)

/-! ## Every state that is visited -/

/-- **A state is visited** on the way from another: any number of steps lead there, whatever they come to,
and whatever has become of the files between them. -/
inductive Visits (start : Tokenizer) : Tokenizer → Prop
  | refl : Visits start start
  | step {t : Tokenizer} (tree : FileTree) : Visits start t → Visits start (t.step tree).1

variable {start : Tokenizer}

theorem Visits.trans {final : Tokenizer} (first : Visits start t) (second : Visits t final) :
    Visits start final := by
  induction second with
  | refl => exact first
  | step tree _ ih => exact ih.step tree

theorem Visits.of_step {next : Tokenizer} {outcome : Outcome} (stepped : t.step tree = (next, outcome)) :
    Visits t next := by
  have visited := (@Visits.refl t).step tree
  rwa [stepped] at visited

theorem Visits.coherent (visited : Visits start t) (coherent : start.Coherent) : t.Coherent := by
  induction visited with
  | refl => exact coherent
  | step tree _ ih => exact ih.step tree

/-- **Whatever was asked for, the parts of a state fit together.** -/
theorem coherent_of_visits {policy : Policy} {queue : List String}
    (visited : Visits (ofQueue policy queue) t) : t.Coherent :=
  visited.coherent (coherent_ofQueue policy queue)

/-- **A tokenizer that has just been made**, for a queue or for a path. -/
inductive Fresh : Tokenizer → Prop
  | queue (policy : Policy) (queue : List String) : Fresh (ofQueue policy queue)
  | path {tree : FileTree} {policy : Policy} {path : String} {t : Tokenizer} :
      ofPath tree policy path = .ok t → Fresh t

/-- A tokenizer that was made for a path has a queue, too, and something to tell about it. -/
theorem Fresh.eq (fresh : start.Fresh) :
    start = { ofQueue start.policy start.queue with journal := start.journal } := by
  cases fresh with
  | queue policy queue => rfl
  | path made =>
    unfold ofPath at made
    split at made
    · cases made
    · cases made
      rfl

theorem Fresh.coherent (fresh : start.Fresh) : start.Coherent := by
  rw [fresh.eq]
  exact (coherent_ofQueue start.policy start.queue).unopened (.inl rfl) ⟨[], rfl⟩ rfl rfl rfl rfl

/-- The state behind so many steps. -/
def after (tree : FileTree) (t : Tokenizer) : Nat → Tokenizer
  | 0 => t
  | n + 1 => ((after tree t n).step tree).1

theorem Visits.after (tree : FileTree) (n : Nat) : Visits start (start.after tree n) := by
  induction n with
  | zero => exact .refl
  | succ n ih => exact ih.step tree

theorem after_succ (tree : FileTree) (t : Tokenizer) (n : Nat) :
    t.after tree (n + 1) = (t.step tree).1.after tree n := by
  induction n with
  | zero => rfl
  | succ n ih => rw [after, ih, after]

theorem Reaches.exists_after {final : Tokenizer} (reached : Reaches tree t final) :
    ∃ n, final = t.after tree n := by
  induction reached with
  | refl t => exact ⟨0, rfl⟩
  | working stepped _ ih =>
    obtain ⟨n, same⟩ := ih
    exact ⟨n + 1, by rw [same, after_succ, stepped]⟩
  | yielded stepped _ ih =>
    obtain ⟨n, same⟩ := ih
    exact ⟨n + 1, by rw [same, after_succ, stepped]⟩

/-! ## Requests

A request takes steps, and the last of them decides what it comes back with. -/

/-- **The last step of a request for a token** yields it, finds nothing left, or fails. -/
theorem advance_last (tree : FileTree) (t : Tokenizer) :
    ∃ last, Visits t last ∧ (last.step tree).1 = (t.advance tree).1 ∧
      ((∃ token, (last.step tree).2 = .yielded token ∧ (t.advance tree).2 = .ok (some token)) ∨
        (last.step tree).2 = .finished ∧ (t.advance tree).2 = .ok none ∨
        ∃ e, (last.step tree).2 = .failed e ∧ (t.advance tree).2 = .error e) := by
  fun_induction Tokenizer.advance tree t with
  | case1 t next stepped ih =>
    obtain ⟨last, visited, ends⟩ := ih
    exact ⟨last, (Visits.of_step stepped).trans visited, ends⟩
  | case2 t next token stepped =>
    exact ⟨t, .refl, congrArg Prod.fst stepped, .inl ⟨token, congrArg Prod.snd stepped, rfl⟩⟩
  | case3 t next stepped =>
    exact ⟨t, .refl, congrArg Prod.fst stepped, .inr (.inl ⟨congrArg Prod.snd stepped, rfl⟩)⟩
  | case4 t next e stepped =>
    exact ⟨t, .refl, congrArg Prod.fst stepped, .inr (.inr ⟨e, congrArg Prod.snd stepped, rfl⟩)⟩

/-- **The last step of a request for the whole stream** finds nothing left, or fails. -/
theorem tokenizeAll_last (tree : FileTree) (t : Tokenizer) :
    ∃ last, Visits t last ∧ (last.step tree).1 = (t.tokenizeAll tree).1 ∧
      ((last.step tree).2 = .finished ∧ (t.tokenizeAll tree).2 = .ok (t.tokenizeAll tree).1.tokens ∨
        ∃ e, (last.step tree).2 = .failed e ∧ (t.tokenizeAll tree).2 = .error e) := by
  unfold tokenizeAll
  fun_induction Tokenizer.drain tree t with
  | case1 t next stepped ih =>
    obtain ⟨last, visited, ends⟩ := ih
    exact ⟨last, (Visits.of_step stepped).trans visited, ends⟩
  | case2 t next token stepped ih =>
    obtain ⟨last, visited, ends⟩ := ih
    exact ⟨last, (Visits.of_step stepped).trans visited, ends⟩
  | case3 t next stepped =>
    exact ⟨t, .refl, congrArg Prod.fst stepped, .inl ⟨congrArg Prod.snd stepped, rfl⟩⟩
  | case4 t next e stepped =>
    exact ⟨t, .refl, congrArg Prod.fst stepped, .inr ⟨e, congrArg Prod.snd stepped, rfl⟩⟩

/-- A request for the whole stream comes to one of the states that steps lead to. -/
theorem exists_after_tokenizeAll (tree : FileTree) (t : Tokenizer) :
    ∃ n, (t.tokenizeAll tree).1 = t.after tree n := by
  unfold tokenizeAll
  fun_induction Tokenizer.drain tree t with
  | case1 t next stepped ih =>
    obtain ⟨n, same⟩ := ih
    exact ⟨n + 1, by rw [same, after_succ, stepped]⟩
  | case2 t next token stepped ih =>
    obtain ⟨n, same⟩ := ih
    exact ⟨n + 1, by rw [same, after_succ, stepped]⟩
  | case3 t next stepped => exact ⟨1, (congrArg Prod.fst stepped).symm⟩
  | case4 t next e stepped => exact ⟨1, (congrArg Prod.fst stepped).symm⟩

theorem Visits.advance (visited : Visits start t) (tree : FileTree) : Visits start (t.advance tree).1 := by
  obtain ⟨last, more, same, -⟩ := advance_last tree t
  rw [← same]
  exact (visited.trans more).step tree

theorem Visits.tokenizeAll (visited : Visits start t) (tree : FileTree) :
    Visits start (t.tokenizeAll tree).1 := by
  obtain ⟨last, more, same, -⟩ := tokenizeAll_last tree t
  rw [← same]
  exact (visited.trans more).step tree

theorem Visits.take (visited : Visits start t) (tree : FileTree) (n : Nat) :
    Visits start (t.take tree n).1 := by
  induction n generalizing t with
  | zero => exact visited
  | succ n ih =>
    have first := visited.advance tree
    rw [Tokenizer.take]
    split
    · rename_i next asked
      rwa [asked] at first
    · rename_i next token asked
      rw [asked] at first
      exact ih first
    · rename_i next e asked
      rw [asked] at first
      exact ih first

/-! ## The last phase -/

@[simp] theorem phase_absorb (t : Tokenizer) (content : Content) : (t.absorb content).phase = t.phase := by
  rcases content with kind | (_ | _ | _) <;> rfl

/-- A step that finds nothing left, or fails, is the last one. -/
theorem Transition.exhausted {next : Tokenizer} {outcome : Outcome}
    (taken : Transition tree t next outcome) (stopped : outcome = .finished ∨ ∃ e, outcome = .failed e) :
    next.phase = .exhausted := by
  cases taken with
  | finished done => exact done
  | completed idle _ =>
    have closed := file_of_idle idle
    exact phase_eq_exhausted_iff.mpr ⟨rfl, closed⟩
  | unopened _ _ _ => rfl
  | unreadable _ _ => rfl
  | @lexeme file run piece rest content _ _ _ _ =>
    cases content <;> rcases stopped with stopped | ⟨e, stopped⟩ <;> cases stopped
  | opened _ _ _ => rcases stopped with stopped | ⟨e, stopped⟩ <;> cases stopped
  | ended _ _ => rcases stopped with stopped | ⟨e, stopped⟩ <;> cases stopped
  | loaded _ _ => rcases stopped with stopped | ⟨e, stopped⟩ <;> cases stopped
  | blank _ _ _ => rcases stopped with stopped | ⟨e, stopped⟩ <;> cases stopped

/-- **The last phase is entered** with nothing left to open, or by a failure. -/
theorem Transition.enters_exhausted {next : Tokenizer} {outcome : Outcome}
    (taken : Transition tree t next outcome) (busy : t.phase ≠ .exhausted)
    (done : next.phase = .exhausted) :
    t.queue = [] ∧ next.queue = [] ∧ outcome = .working ∨ ∃ e, outcome = .failed e := by
  cases taken with
  | finished before => exact absurd before busy
  | completed _ empty => exact .inl ⟨empty, empty, rfl⟩
  | unopened _ _ _ => exact .inr ⟨_, rfl⟩
  | unreadable _ _ => exact .inr ⟨_, rfl⟩
  | opened _ _ _ => cases done
  | ended _ _ => cases done
  | loaded _ _ =>
    rw [phase_loading] at done
    split at done <;> cases done
  | blank _ _ _ => cases state_of_exhausted done
  | lexeme phase _ _ _ =>
    rw [phase_absorb] at done
    exact absurd done busy

/-- **Where a request ends without a token**, the run has come to its end. -/
theorem Coherent.phase_advance (coherent : t.Coherent) (tree : FileTree)
    (stopped : (t.advance tree).2 = .ok none ∨ ∃ e, (t.advance tree).2 = .error e) :
    (t.advance tree).1.phase = .exhausted := by
  obtain ⟨last, visited, same, ends⟩ := advance_last tree t
  have taken := (visited.coherent coherent).transition_step tree
  rw [← same]
  rcases ends with ⟨token, -, found⟩ | ⟨finished, -⟩ | ⟨e, failed, -⟩
  · rw [found] at stopped
    rcases stopped with stopped | ⟨e, stopped⟩ <;> cases stopped
  · exact taken.exhausted (.inl finished)
  · exact taken.exhausted (.inr ⟨e, failed⟩)

theorem Coherent.phase_tokenizeAll (coherent : t.Coherent) (tree : FileTree) :
    (t.tokenizeAll tree).1.phase = .exhausted := by
  obtain ⟨last, visited, same, ends⟩ := tokenizeAll_last tree t
  have taken := (visited.coherent coherent).transition_step tree
  rw [← same]
  rcases ends with ⟨finished, -⟩ | ⟨e, failed, -⟩
  · exact taken.exhausted (.inl finished)
  · exact taken.exhausted (.inr ⟨e, failed⟩)

theorem after_of_exhausted {n m : Nat} (done : (t.after tree n).state = .exhausted) (later : n ≤ m) :
    t.after tree m = t.after tree n := by
  induction later with
  | refl => rfl
  | step _ ih =>
    have stepped : (t.after tree n).step tree = (t.after tree n, .finished) := step_of_exhausted done
    rw [after, ih, stepped]

/-- **The end of a run** is where its steps have come when there is nothing left to do. -/
theorem Coherent.tokenizeAll_eq_after (coherent : t.Coherent) {n : Nat} (done : (t.after tree n).state = .exhausted) :
    (t.tokenizeAll tree).1 = t.after tree n := by
  obtain ⟨m, same⟩ := exists_after_tokenizeAll tree t
  have ended : (t.after tree m).state = .exhausted := by
    rw [← same]
    exact state_of_exhausted (coherent.phase_tokenizeAll tree)
  rw [same]
  rcases Nat.le_total n m with later | earlier
  · exact after_of_exhausted done later
  · exact (after_of_exhausted ended earlier).symm

theorem advance_of_exhausted (done : t.phase = .exhausted) (tree : FileTree) :
    t.advance tree = (t, .ok none) := by
  have stepped : t.step tree = (t, .finished) := step_of_exhausted (state_of_exhausted done)
  rw [advance]
  split <;> simp_all

/-- **The last phase is never left**: whatever is asked for, nothing changes and nothing is found. -/
theorem requests_of_exhausted (done : t.phase = .exhausted) (tree : FileTree) :
    t.advance tree = (t, .ok none) ∧ t.tokenizeAll tree = (t, .ok t.tokens) ∧
      ∀ n, t.take tree n = (t, []) := by
  have asked := advance_of_exhausted done tree
  refine ⟨asked, ?_, ?_⟩
  · rw [tokenizeAll, drain_of_exhausted done]
  · intro n
    cases n with
    | zero => rfl
    | succ n => rw [take, asked]

/-! ## The law -/

/-- **States, files, lines and the end of a run.** In every state that a tokenizer visits, under any
requests: between files and at the end no file is open and there is no line; elsewhere a file is open, and
it is that of the last record; between two lines, and where a comment is open, the line has been passed. The
last state is entered with an empty queue or by a failure. Every request leads to a state that is visited
in this sense, and where it ends without a token it has come to the last state. From there on every
request finds nothing and changes nothing. -/
theorem visits_phases {policy : Policy} {queue : List String}
    (visited : Visits (ofQueue policy queue) t) :
    (t.state = .idle ∨ t.state = .exhausted → t.file = none ∧ t.cursor.text = []) ∧
    (t.state = .lineEmpty ∨ t.state = .lineBuffered → ∃ file record, t.file = some file ∧
      t.files.back? = some record ∧ record.name = file.name ∧ record.path = file.path) ∧
    (t.state = .lineEmpty → t.cursor.atEnd = true) ∧
    (t.cursor.inBlockComment = true → t.cursor.atEnd = true) ∧
    (∀ tree, t.state ≠ .exhausted → (t.step tree).1.state = .exhausted →
      t.queue = [] ∧ (t.step tree).1.queue = [] ∧ (t.step tree).2 = .working ∨
        ∃ e, (t.step tree).2 = .failed e) ∧
    (∀ tree, Visits (ofQueue policy queue) (t.advance tree).1 ∧
      Visits (ofQueue policy queue) (t.tokenizeAll tree).1 ∧
      ∀ n, Visits (ofQueue policy queue) (t.take tree n).1) ∧
    (∀ tree, (t.tokenizeAll tree).1.state = .exhausted ∧
      ((t.advance tree).2 = .ok none ∨ (∃ e, (t.advance tree).2 = .error e) →
        (t.advance tree).1.state = .exhausted)) ∧
    (t.state = .exhausted → ∀ tree,
      t.advance tree = (t, .ok none) ∧ t.tokenizeAll tree = (t, .ok t.tokens) ∧
      ∀ n, t.take tree n = (t, [])) := by
  have coherent := coherent_of_visits visited
  refine ⟨?_, ?_, fun between => coherent.passed (.inl between), fun comment => coherent.passed (.inr comment),
    ?_, ?_, ?_, fun done => requests_of_exhausted (coherent.phase_of_exhausted done)⟩
  · intro between
    have closed := coherent.file_eq_none_iff.mpr between
    exact ⟨closed, coherent.unbuffered closed⟩
  · intro inside
    cases isOpen : t.file with
    | none => rcases inside with empty | buffered <;> simp_all [coherent.file_eq_none_iff]
    | some file =>
      obtain ⟨record, last, named⟩ := coherent.recorded isOpen
      exact ⟨file, record, rfl, last, named⟩
  · intro tree busy done
    exact (coherent.transition_step tree).enters_exhausted (busy ∘ state_of_exhausted)
      ((coherent.step tree).phase_of_exhausted done)
  · intro tree
    exact ⟨visited.advance tree, visited.tokenizeAll tree, visited.take tree⟩
  · intro tree
    exact ⟨state_of_exhausted (coherent.phase_tokenizeAll tree),
      state_of_exhausted ∘ coherent.phase_advance tree⟩

/-- A file that breaks off on its second line, inside a comment. -/
def leftOpen : FileTree where
  entries := [(["Main.jack"], .file 0)]
  slots := #[Utf8.encode "a /* b\n".toList ++ [255]]

/-- The law at two states of a run over that file: four steps lead into the comment, and two more to the
failure, with another file still in the queue. -/
theorem visits_phases_leftOpen :
    let start := ofQueue {} ["Main.jack", "Other.jack"]
    let inside := start.after leftOpen 4
    let failed := start.after leftOpen 6
    Visits start inside ∧ inside.cursor.inBlockComment = true ∧ inside.cursor.atEnd = true ∧
      inside.state = .lineBuffered ∧ inside.file ≠ none ∧
      Visits start failed ∧ failed.state = .exhausted ∧ failed.queue = ["Other.jack"] ∧
      failed.file = none ∧ failed.cursor.text = [] ∧
      ∀ tree, failed.advance tree = (failed, .ok none) ∧ failed.tokenizeAll tree = (failed, .ok failed.tokens) := by
  intro start inside failed
  have entered : Visits start inside := .after leftOpen 4
  have ended : Visits start failed := .after leftOpen 6
  have comment : inside.cursor.inBlockComment = true := by decide +kernel
  have buffered : inside.state = .lineBuffered := by decide +kernel
  have done : failed.state = .exhausted := by decide +kernel
  obtain ⟨-, within, -, passed, -, -, -, -⟩ := visits_phases entered
  obtain ⟨between, -, -, -, -, -, -, last⟩ := visits_phases ended
  obtain ⟨file, -, isOpen, -⟩ := within (.inr buffered)
  refine ⟨entered, comment, passed comment, buffered, by simp [isOpen], ended, done, by decide +kernel,
    (between (.inr done)).1, (between (.inr done)).2, fun tree => ?_⟩
  obtain ⟨asked, whole, -⟩ := last done tree
  exact ⟨asked, whole⟩

end Tokenizer

end JackTokens
