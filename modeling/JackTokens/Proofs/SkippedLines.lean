import JackTokens.Proofs.Requests

/-!
# Lines that are skipped

Line comments are known in two places. The cursor does not keep a line that begins with two slashes, and the
last rule of the classifier discards such a text. The first is a shortcut: a driver without it would keep the
line, find a lexeme that takes all of it, and go on to the next line.

**The driver without the shortcut** differs from the real one in how it loads a line, and in nothing else.
`loadWith` and `stepWith` leave that one place open; with `keep` and `load` in it they are what they are taken from
(`loadWith_keep`, `stepWith_load`). `loadAny` keeps every line of which anything is left, also behind the end of
a comment (`loadAny_keeps_iff`).

**One step or three** (`stepWith_loadAny_cases`). Where the two drivers load a line in different ways, the real one
is between lines after one step, and the other after three. The cursors then hold different texts, but a step
between lines does not look at the text, so that the steps from there on are the same (`stepWith_settle`).

**The law** (`askAllWith_loadAny`): from any state, and whatever is asked for, both drivers come back with the same
replies and are in the same state. Nothing they have noted, yielded, recorded or counted on the way is different.
-/

namespace JackTokens

/-! ## Loading -/

theorem Text.trimStart_eq_nil_iff {text : List Char} : trimStart text = [] ↔ Blank text := by
  constructor
  · intro nothing
    obtain ⟨lead, blank, split⟩ := exists_trimStart text
    rw [split, nothing, List.append_nil]
    exact blank
  · exact trimStart_of_blank

theorem Text.trim_eq_nil_iff {text : List Char} : trim text = [] ↔ Blank text := by
  constructor
  · intro nothing
    obtain ⟨lead, trail, before, after, split⟩ := exists_trim text
    rw [split, nothing, List.nil_append]
    exact before.append after
  · intro blank
    rw [trim, trimStart_of_blank blank]
    rfl

namespace LineCursor

/-- Loads a line as `load` does, with another way to keep what is left of it. -/
def loadWith (keep : LineCursor → List Char → LineCursor × Bool) (cursor : LineCursor) (raw : List Char) :
    LineCursor × Bool :=
  let next := { cursor.clear with line := cursor.line + 1 }
  let text := Text.trim raw
  if cursor.inBlockComment then
    match Text.cutAt? '*' '/' text with
    | none => (next, false)
    | some (_, rest) => keep { next with inBlockComment := false } (Text.trimStart rest)
  else keep next text

@[simp] theorem loadWith_keep (cursor : LineCursor) (raw : List Char) :
    cursor.loadWith keep raw = cursor.load raw := rfl

/-- Keeps a line that has anything in it, a line comment or not. -/
def keepAny (cursor : LineCursor) (text : List Char) : LineCursor × Bool :=
  match text with
  | [] => (cursor, false)
  | _ => (start text cursor.line cursor.inBlockComment, true)

/-- **Loads a line without the shortcut.** -/
def loadAny (cursor : LineCursor) (raw : List Char) : LineCursor × Bool := cursor.loadWith keepAny raw

theorem keepAny_of_ne_nil {text : List Char} (nonempty : text ≠ []) (cursor : LineCursor) :
    cursor.keepAny text = (start text cursor.line cursor.inBlockComment, true) := by
  cases text with
  | nil => exact absurd rfl nonempty
  | cons c rest => rfl

/-- The two ways to keep a line differ on line comments only. -/
theorem keepAny_cases (cursor : LineCursor) (text : List Char) :
    cursor.keepAny text = cursor.keep text ∨
      ∃ body, text = '/' :: '/' :: body ∧ cursor.keep text = (cursor, false) := by
  unfold keep
  split
  · exact .inl rfl
  · exact .inr ⟨_, rfl, rfl⟩
  · rename_i nonempty _
    exact .inl (keepAny_of_ne_nil nonempty cursor)

/-- What a line is loaded as: nothing where all of it is comment, and otherwise what is left of its code without
the blanks around it, which is to be kept or not. -/
theorem loadWith_cases (cursor : LineCursor) (raw : List Char) :
    (codeOf cursor.inBlockComment raw = none ∧
      ∀ keep, cursor.loadWith keep raw = (start [] (cursor.line + 1) true, false)) ∨
    ∃ code text, codeOf cursor.inBlockComment raw = some code ∧ (text = [] ↔ Text.Blank code) ∧
      ∀ keep, cursor.loadWith keep raw = keep (start [] (cursor.line + 1) false) text := by
  cases inComment : cursor.inBlockComment with
  | false =>
    refine .inr ⟨raw, Text.trim raw, rfl, Text.trim_eq_nil_iff, fun keep => ?_⟩
    simp only [loadWith, clear, inComment]
    rfl
  | true =>
    rw [codeOf, if_pos rfl]
    rcases cutAt?_trim raw with ⟨trimmed, whole⟩ | ⟨before, rest, trail, trimmed, blank, inside, whole⟩
    · rw [whole]
      refine .inl ⟨rfl, fun keep => ?_⟩
      simp only [loadWith, clear, inComment, if_true, trimmed]
      rfl
    · rw [whole]
      refine .inr ⟨rest ++ trail, Text.trimStart rest, rfl, ?_, fun keep => ?_⟩
      · rw [Text.trimStart_eq_nil_iff]
        constructor
        · intro nothing
          exact nothing.append blank
        · intro all c member
          exact all c (List.mem_append_left trail member)
      · simp only [loadWith, clear, inComment, if_true, trimmed]
        rfl

/-- **Every line of which anything is left is kept**, and no other. -/
theorem loadAny_keeps_iff (cursor : LineCursor) (raw : List Char) :
    (cursor.loadAny raw).2 = true ↔
      ∃ code, codeOf cursor.inBlockComment raw = some code ∧ ¬ Text.Blank code := by
  unfold loadAny
  rcases cursor.loadWith_cases raw with ⟨comment, loaded⟩ | ⟨code, text, found, empty, loaded⟩
  · rw [loaded, comment]
    simp
  · rw [loaded, found]
    by_cases nothing : text = []
    · subst nothing
      simp [keepAny, empty.mp rfl]
    · rw [keepAny_of_ne_nil nothing]
      simpa using (not_congr empty).mp nothing

/-- The two ways to load a line differ on lines of which a line comment is left, and on no others. -/
theorem loadAny_cases (cursor : LineCursor) (raw : List Char) :
    cursor.loadAny raw = cursor.load raw ∨
      ∃ body, cursor.loadAny raw = (start ('/' :: '/' :: body) (cursor.line + 1) false, true) ∧
        cursor.load raw = (start [] (cursor.line + 1) false, false) := by
  rw [loadAny, ← loadWith_keep]
  rcases cursor.loadWith_cases raw with ⟨-, loaded⟩ | ⟨code, text, -, -, loaded⟩
  · exact .inl ((loaded keepAny).trans (loaded keep).symm)
  · rw [loaded, loaded]
    rcases keepAny_cases (start [] (cursor.line + 1) false) text with same | ⟨body, rfl, unkept⟩
    · exact .inl same
    · exact .inr ⟨body, rfl, unkept⟩

-- What is left behind the end of a comment may be a line comment, too.
example : ((start [] 3 true).loadAny "a */ // b".toList).2 = true ∧
    ((start [] 3 true).load "a */ // b".toList).2 = false := by decide

end LineCursor

/-! ## Stepping -/

namespace Tokenizer

variable {tree : FileTree} {t next : Tokenizer} {load : LineCursor → List Char → LineCursor × Bool}

/-- **A step of a driver that loads lines in another way.** -/
def stepWith (load : LineCursor → List Char → LineCursor × Bool) (tree : FileTree) (t : Tokenizer) :
    Tokenizer × Outcome :=
  match t.phase with
  | .lineEmpty file =>
    match file.readLine tree with
    | (behind, .ok (some raw)) =>
      let (cursor, scannable) := load t.cursor raw
      ({ t with
          file := some behind, cursor := cursor
          state := if scannable then .lineBuffered else .lineEmpty }, .working)
    | _ => t.step tree
  | _ => t.step tree

/-- The driver that loads lines as they are loaded is the driver. -/
@[simp] theorem stepWith_load (tree : FileTree) (t : Tokenizer) : t.stepWith LineCursor.load tree = t.step tree := by
  unfold stepWith
  split
  · rename_i file phase
    split
    · rename_i behind raw read
      exact (step_loaded phase read).symm
    · rfl
  · rfl

theorem stepWith_of_readLine {file behind : SourceFile} {raw : List Char} (phase : t.phase = .lineEmpty file)
    (read : file.readLine tree = (behind, .ok (some raw))) :
    t.stepWith load tree = ({ t with
      file := some behind
      cursor := (load t.cursor raw).1
      state := if (load t.cursor raw).2 then .lineBuffered else .lineEmpty }, .working) := by
  simp only [stepWith, phase, read]

/-- A step that loads no line is the same whatever the way to load lines is. -/
theorem stepWith_cases (load : LineCursor → List Char → LineCursor × Bool) (tree : FileTree) (t : Tokenizer) :
    t.stepWith load tree = t.step tree ∨
      ∃ file behind raw, t.phase = .lineEmpty file ∧ file.readLine tree = (behind, .ok (some raw)) := by
  unfold stepWith
  split
  · rename_i file phase
    split
    · rename_i behind raw read
      exact .inr ⟨file, behind, raw, phase, read⟩
    · exact .inl rfl
  · exact .inl rfl

theorem workload_stepWith {outcome : Outcome} (taken : t.stepWith load tree = (next, outcome))
    (busy : outcome ≠ .finished) : Workload.Less (next.workload tree) (t.workload tree) := by
  rcases stepWith_cases load tree t with same | ⟨file, behind, raw, phase, read⟩
  · exact workload_lt (same.symm.trans taken) busy
  · rw [stepWith_of_readLine phase read, Prod.mk.injEq] at taken
    obtain ⟨rfl, -⟩ := taken
    apply Workload.less_unread
    have less := SourceFile.unread_readLine read
    rw [unread, unread, file_of_lineEmpty phase]
    exact less

/-- **A step between lines does not look at the text** that the cursor holds. -/
theorem stepWith_settle (forgets : ∀ cursor raw, load (LineCursor.clear cursor) raw = load cursor raw)
    {file : SourceFile} (phase : t.phase = .lineEmpty file) :
    t.settle.stepWith load tree = t.stepWith load tree := by
  have between : t.settle.phase = .lineEmpty file := phase
  obtain ⟨⟨behind, line⟩, read⟩ : ∃ result, file.readLine tree = result := ⟨_, rfl⟩
  rcases line with cause | _ | raw
  · simp only [stepWith, phase, between, read, step_unreadable phase read, step_unreadable between read]
    rfl
  · simp only [stepWith, phase, between, read, step_ended phase read, step_ended between read]
    rfl
  · rw [stepWith_of_readLine phase read, stepWith_of_readLine between read]
    simp only [settle, forgets]

theorem stepWith_of_lineBuffered {file : SourceFile} (phase : t.phase = .lineBuffered file) :
    t.stepWith load tree = t.nextLexeme := by
  rw [stepWith, phase]
  exact step_of_lineBuffered phase

/-- **From a line comment to the next line**: one step discards it, and one more leaves the line. -/
theorem steps_lineComment (load : LineCursor → List Char → LineCursor × Bool) (tree : FileTree)
    {file : SourceFile} {body : List Char} (phase : t.phase = .lineBuffered file)
    (remaining : t.cursor.remaining? = some ('/' :: '/' :: body)) :
    ∃ passing passed, t.stepWith load tree = (passing, .working) ∧
      passing.stepWith load tree = (passed, .working) ∧
      passed.settle = { t.settle with state := .lineEmpty } := by
  have whole : t.cursor.remaining? = some ([] ++ ('/' :: '/' :: body ++ [])) := by
    rw [List.append_nil]
    exact remaining
  have discarded := nextLexeme_of_front whole .nil (.lineComment body)
  have left := nextLexeme_of_blank (remaining?_pass whole) .nil
  have still : (t.pass [] ('/' :: '/' :: body)).phase = .lineBuffered file := phase
  exact ⟨_, _, (stepWith_of_lineBuffered phase).trans discarded, (stepWith_of_lineBuffered still).trans left, rfl⟩

/-- **One step or three.** The driver without the shortcut does what the driver does, or the driver skips a line
comment; the other one is then three steps later at a state from which it goes on in the same way. -/
theorem stepWith_loadAny_cases (tree : FileTree) (t : Tokenizer) :
    t.stepWith LineCursor.loadAny tree = t.step tree ∨
      ∃ skipped kept passing passed, t.step tree = (skipped, .working) ∧
        t.stepWith LineCursor.loadAny tree = (kept, .working) ∧
        kept.stepWith LineCursor.loadAny tree = (passing, .working) ∧
        passing.stepWith LineCursor.loadAny tree = (passed, .working) ∧
        passed.stepWith LineCursor.loadAny tree = skipped.stepWith LineCursor.loadAny tree := by
  rcases stepWith_cases LineCursor.loadAny tree t with same | ⟨file, behind, raw, phase, read⟩
  · exact .inl same
  have real := stepWith_load tree t
  rw [stepWith_of_readLine phase read] at real
  rw [stepWith_of_readLine phase read]
  rcases t.cursor.loadAny_cases raw with same | ⟨body, kept, skipped⟩
  · left
    rw [same]
    exact real
  · right
    rw [skipped] at real
    rw [kept]
    let buffered : Tokenizer :=
      { t with
        file := some behind
        cursor := .start ('/' :: '/' :: body) (t.cursor.line + 1) false
        state := .lineBuffered }
    have phase' : buffered.phase = .lineBuffered behind := rfl
    obtain ⟨passing, passed, first, second, settled⟩ := steps_lineComment LineCursor.loadAny tree phase' rfl
    refine ⟨_, buffered, passing, passed, real.symm, rfl, first, second, ?_⟩
    have between : passed.phase = .lineEmpty behind := congrArg Tokenizer.phase settled
    rw [← stepWith_settle (fun _ _ => rfl) between, settled]
    rfl

theorem stepWith_loadAny_of_ne_working {outcome : Outcome} (stepped : t.step tree = (next, outcome))
    (stops : outcome ≠ .working) : t.stepWith LineCursor.loadAny tree = (next, outcome) := by
  rcases stepWith_loadAny_cases tree t with same | ⟨_, _, _, _, real, _⟩
  · exact same.trans stepped
  · cases stepped.symm.trans real
    exact absurd rfl stops

/-- **Where the driver goes on, so does the one without the shortcut.** Whatever is asked for by taking steps, and
decided by the next of them, it may as well be asked for in the state that the driver goes on to. -/
theorem eq_of_step_working {α : Type} {run : Tokenizer → α}
    (goesOn : ∀ {t next}, t.stepWith LineCursor.loadAny tree = (next, .working) → run t = run next)
    (decided : ∀ {t next}, t.stepWith LineCursor.loadAny tree = next.stepWith LineCursor.loadAny tree →
      run t = run next)
    (stepped : t.step tree = (next, .working)) : run t = run next := by
  rcases stepWith_loadAny_cases tree t with same | ⟨skipped, kept, passing, passed, real, first, second, third, meet⟩
  · exact goesOn (same.trans stepped)
  · cases stepped.symm.trans real
    calc run t
        = run kept := goesOn first
      _ = run passing := goesOn second
      _ = run passed := goesOn third
      _ = run next := decided meet

/-! ## Running -/

/-- **The next token** of a driver that loads lines in another way. -/
def advanceWith (load : LineCursor → List Char → LineCursor × Bool) (tree : FileTree) (t : Tokenizer) :
    Tokenizer × Except TokenizeError (Option Token) :=
  match _ : t.stepWith load tree with
  | (next, .working) => advanceWith load tree next
  | (next, .yielded token) => (next, .ok (some token))
  | (next, .finished) => (next, .ok none)
  | (next, .failed e) => (next, .error e)
termination_by t.workload tree
decreasing_by exact workload_stepWith (by assumption) (by simp)

/-- Its steps, until nothing is left or one fails. -/
def drainWith (load : LineCursor → List Char → LineCursor × Bool) (tree : FileTree) (t : Tokenizer) :
    Tokenizer × Except TokenizeError Unit :=
  match _ : t.stepWith load tree with
  | (next, .working) => drainWith load tree next
  | (next, .yielded _) => drainWith load tree next
  | (next, .finished) => (next, .ok ())
  | (next, .failed e) => (next, .error e)
termination_by t.workload tree
decreasing_by all_goals exact workload_stepWith (by assumption) (by simp)

/-- **Its whole stream.** -/
def tokenizeAllWith (load : LineCursor → List Char → LineCursor × Bool) (tree : FileTree) (t : Tokenizer) :
    Tokenizer × Except TokenizeError (Array Token) :=
  match t.drainWith load tree with
  | (final, .ok ()) => (final, .ok final.tokens)
  | (final, .error e) => (final, .error e)

/-- Up to `n` of its items. -/
def takeWith (load : LineCursor → List Char → LineCursor × Bool) (tree : FileTree) (t : Tokenizer) : Nat →
    Tokenizer × List (Except TokenizeError Token)
  | 0 => (t, [])
  | n + 1 =>
    match t.advanceWith load tree with
    | (next, .ok none) => (next, [])
    | (next, .ok (some token)) =>
      let (final, items) := next.takeWith load tree n
      (final, .ok token :: items)
    | (next, .error e) =>
      let (final, items) := next.takeWith load tree n
      (final, .error e :: items)

/-- A request to it. -/
def askWith (load : LineCursor → List Char → LineCursor × Bool) (tree : FileTree) (t : Tokenizer) :
    Request → Tokenizer × Reply
  | .token => ((t.advanceWith load tree).1, .token (t.advanceWith load tree).2)
  | .items n => ((t.takeWith load tree n).1, .items (t.takeWith load tree n).2)
  | .all => ((t.tokenizeAllWith load tree).1, .all (t.tokenizeAllWith load tree).2)

/-- **Requests to it**, one after the other. -/
def askAllWith (load : LineCursor → List Char → LineCursor × Bool) (tree : FileTree) (t : Tokenizer) :
    List Request → Tokenizer × List Reply
  | [] => (t, [])
  | request :: requests =>
    let (final, replies) := (t.askWith load tree request).1.askAllWith load tree requests
    (final, (t.askWith load tree request).2 :: replies)

theorem advanceWith_eq (load : LineCursor → List Char → LineCursor × Bool) (tree : FileTree) (t : Tokenizer) :
    t.advanceWith load tree =
      match t.stepWith load tree with
      | (next, .working) => next.advanceWith load tree
      | (next, .yielded token) => (next, .ok (some token))
      | (next, .finished) => (next, .ok none)
      | (next, .failed e) => (next, .error e) := by
  rw [advanceWith]
  split <;> simp_all

theorem drainWith_eq (load : LineCursor → List Char → LineCursor × Bool) (tree : FileTree) (t : Tokenizer) :
    t.drainWith load tree =
      match t.stepWith load tree with
      | (next, .working) => next.drainWith load tree
      | (next, .yielded _) => next.drainWith load tree
      | (next, .finished) => (next, .ok ())
      | (next, .failed e) => (next, .error e) := by
  rw [drainWith]
  split <;> simp_all

theorem advanceWith_of_working (stepped : t.stepWith load tree = (next, .working)) :
    t.advanceWith load tree = next.advanceWith load tree := by
  rw [advanceWith_eq, stepped]

theorem advanceWith_congr (same : t.stepWith load tree = next.stepWith load tree) :
    t.advanceWith load tree = next.advanceWith load tree := by
  rw [advanceWith_eq, same, ← advanceWith_eq]

theorem drainWith_of_working (stepped : t.stepWith load tree = (next, .working)) :
    t.drainWith load tree = next.drainWith load tree := by
  rw [drainWith_eq, stepped]

theorem drainWith_congr (same : t.stepWith load tree = next.stepWith load tree) :
    t.drainWith load tree = next.drainWith load tree := by
  rw [drainWith_eq, same, ← drainWith_eq]

/-- **The next token is the same without the shortcut**, and so is the state behind it. -/
@[simp] theorem advanceWith_loadAny (tree : FileTree) (t : Tokenizer) :
    t.advanceWith LineCursor.loadAny tree = t.advance tree := by
  fun_induction Tokenizer.advance tree t with
  | case1 t next stepped ih =>
    exact (eq_of_step_working advanceWith_of_working advanceWith_congr stepped).trans ih
  | case2 t next token stepped => rw [advanceWith_eq, stepWith_loadAny_of_ne_working stepped (by simp)]
  | case3 t next stepped => rw [advanceWith_eq, stepWith_loadAny_of_ne_working stepped (by simp)]
  | case4 t next e stepped => rw [advanceWith_eq, stepWith_loadAny_of_ne_working stepped (by simp)]

/-- **So is the end of the run.** -/
@[simp] theorem drainWith_loadAny (tree : FileTree) (t : Tokenizer) :
    t.drainWith LineCursor.loadAny tree = t.drain tree := by
  fun_induction Tokenizer.drain tree t with
  | case1 t next stepped ih =>
    exact (eq_of_step_working drainWith_of_working drainWith_congr stepped).trans ih
  | case2 t next token stepped ih =>
    rw [drainWith_eq, stepWith_loadAny_of_ne_working stepped (by simp)]
    exact ih
  | case3 t next stepped => rw [drainWith_eq, stepWith_loadAny_of_ne_working stepped (by simp)]
  | case4 t next e stepped => rw [drainWith_eq, stepWith_loadAny_of_ne_working stepped (by simp)]

@[simp] theorem takeWith_loadAny (tree : FileTree) (t : Tokenizer) (n : Nat) :
    t.takeWith LineCursor.loadAny tree n = t.take tree n := by
  induction n generalizing t with
  | zero => rfl
  | succ n ih =>
    rcases advanced : t.advance tree with ⟨next, e | _ | token⟩
    · simp only [takeWith, take, advanceWith_loadAny, advanced, ih]
    · simp only [takeWith, take, advanceWith_loadAny, advanced]
    · simp only [takeWith, take, advanceWith_loadAny, advanced, ih]

@[simp] theorem tokenizeAllWith_loadAny (tree : FileTree) (t : Tokenizer) :
    t.tokenizeAllWith LineCursor.loadAny tree = t.tokenizeAll tree := by
  rcases drained : t.drain tree with ⟨final, e | _⟩
  · simp only [tokenizeAllWith, tokenizeAll, drainWith_loadAny, drained]
  · simp only [tokenizeAllWith, tokenizeAll, drainWith_loadAny, drained]

@[simp] theorem askWith_loadAny (tree : FileTree) (t : Tokenizer) (request : Request) :
    t.askWith LineCursor.loadAny tree request = t.ask tree request := by
  cases request with
  | token => rw [askWith, ask, advanceWith_loadAny]
  | items n => rw [askWith, ask, takeWith_loadAny]
  | all => rw [askWith, ask, tokenizeAllWith_loadAny]

/-! ## The law -/

/-- **Skipping a line comment agrees with scanning it.** A driver that differs from the real one in how it loads
lines, and keeps every line of which anything but blanks is left outside of comments, gives the same replies to
the same requests, whatever it is asked for and in whatever state it begins. It is in the same state behind
them, with the same tokens and lines, records, events and counter. -/
theorem askAllWith_loadAny (tree : FileTree) :
    (∀ t : Tokenizer, t.stepWith LineCursor.load tree = t.step tree) ∧
    (∀ (cursor : LineCursor) (raw : List Char), (cursor.loadAny raw).2 = true ↔
      ∃ code, codeOf cursor.inBlockComment raw = some code ∧ ¬ Text.Blank code) ∧
    ∀ (start : Tokenizer) (requests : List Request),
      start.askAllWith LineCursor.loadAny tree requests = start.askAll tree requests := by
  refine ⟨stepWith_load tree, LineCursor.loadAny_keeps_iff, ?_⟩
  intro start requests
  induction requests generalizing start with
  | nil => rfl
  | cons request requests ih => simp only [askAllWith, askAll, askWith_loadAny, ih]

end Tokenizer

end JackTokens
