import JackTokens.Proofs.Lossless
import JackTokens.Proofs.Transitions

/-!
# Comments are blanks

A tokenizer drops comments in three places: a line that is nothing but a line comment is not kept, the part
of a line inside a block comment is cut off when the line is loaded, and any other comment is passed like a
lexeme. What it drops in all of them might as well have been blank.

**Fading.** A text fades when some of its characters, newlines apart, give way to spaces (`Fades`). Where
the text behind a token fades, the token stays (`Front.fade`): a space ends a word or a number, it is no
quotation mark that would open a string, and no slash or star that would open a comment. So comments can
be blanked out from left to right, each without a look at the others (`contents_uncomment`).

**The law** (`tokenizeAll_uncommented`): a file whose comments have been blanked out has the stream of the
file itself, kinds and lines alike, and a run over it meets no comment any more.
-/

namespace JackTokens

/-! ## Fading -/

/-- **A text fades**: characters give way to spaces, but no newline does. -/
inductive Fades : List Char → List Char → Prop
  | nil : Fades [] []
  | keep (c : Char) {text faded : List Char} : Fades text faded → Fades (c :: text) (c :: faded)
  | blank {c : Char} {text faded : List Char} : c ≠ '\n' → Fades text faded →
      Fades (c :: text) (' ' :: faded)

namespace Fades

variable {text faded : List Char}

theorem refl (text : List Char) : Fades text text := by
  induction text with
  | nil => exact .nil
  | cons c text ih => exact .keep c ih

theorem append (first : Fades text faded) {more less : List Char} (second : Fades more less) :
    Fades (text ++ more) (faded ++ less) := by
  induction first with
  | nil => exact second
  | keep c _ ih => exact .keep c ih
  | blank other _ ih => exact .blank other ih

theorem exists_append {first second : List Char} (fades : Fades (first ++ second) faded) :
    ∃ front back, faded = front ++ back ∧ Fades first front ∧ Fades second back := by
  induction first generalizing faded with
  | nil => exact ⟨[], faded, rfl, .nil, fades⟩
  | cons c first ih =>
    cases fades with
    | keep _ fades =>
      obtain ⟨front, back, rfl, before, behind⟩ := ih fades
      exact ⟨c :: front, back, rfl, .keep c before, behind⟩
    | blank other fades =>
      obtain ⟨front, back, rfl, before, behind⟩ := ih fades
      exact ⟨' ' :: front, back, rfl, .blank other before, behind⟩

/-- What is new in a faded text is a space. -/
theorem not_mem (fades : Fades text faded) {c : Char} (visible : c ≠ ' ') (absent : c ∉ text) :
    c ∉ faded := by
  induction fades with
  | nil => exact absent
  | keep d _ ih =>
    rw [List.mem_cons, not_or] at absent ⊢
    exact ⟨absent.1, ih absent.2⟩
  | blank _ _ ih =>
    rw [List.mem_cons, not_or] at absent ⊢
    exact ⟨visible, ih absent.2⟩

/-- A class without the space stops where it has stopped. -/
theorem stopsAt (fades : Fades text faded) {p : Char → Bool} (space : p ' ' = false)
    (stop : Text.StopsAt p text) : Text.StopsAt p faded := by
  cases fades with
  | nil => exact stop
  | keep c _ => exact .cons (stop c rfl) _
  | blank _ _ => exact .cons space _

theorem eq_nil_iff (fades : Fades text faded) : faded = [] ↔ text = [] := by
  cases fades <;> simp

theorem eq_newline (fades : Fades ['\n'] faded) : faded = ['\n'] := by
  cases fades with
  | keep _ rest =>
    cases rest
    rfl
  | blank other _ => exact absurd rfl other

end Fades

/-- **A token stays where the text behind it fades.** -/
theorem Front.fade {rule : IdentifierRule} {kind : Kind} {piece rest faded : List Char}
    (front : Front rule (.token kind) piece rest) (fades : Fades rest faded) :
    Front rule (.token kind) piece faded := by
  cases front with
  | word first inside stop =>
    exact .word first inside (fades.stopsAt (rule.continues_eq_false_of_isBlank rfl) stop)
  | string _ closed => exact .string faded closed
  | integer digit inside stop => exact .integer digit inside (fades.stopsAt rfl stop)
  | symbol lone =>
    refine .symbol ⟨lone.visible, lone.noWord, lone.noDigit, ?_, ?_⟩
    · intro quote
      exact fades.not_mem (by decide) (lone.noString quote)
    · intro slash d front
      cases fades with
      | nil => cases front
      | keep c _ =>
        cases front
        exact lone.noComment slash d rfl
      | blank _ _ =>
        cases front
        decide

/-! ## Blanking out comments -/

/-- Spaces in place of all characters but newlines. -/
def blankOut (text : List Char) : List Char := text.map fun c => if c = '\n' then c else ' '

theorem blank_blankOut (text : List Char) : Text.Blank (blankOut text) := by
  intro c member
  obtain ⟨d, -, rfl⟩ := List.mem_map.mp member
  split
  · rename_i newline
    rw [newline]
    rfl
  · rfl

theorem fades_blankOut (text : List Char) : Fades text (blankOut text) := by
  induction text with
  | nil => exact .nil
  | cons c text ih =>
    rw [blankOut, List.map_cons]
    split
    · exact .keep c ih
    · rename_i other
      exact .blank other ih

/-- What is left of a piece of text: a token stays, and a comment is blanked out. -/
def Content.left : Content → List Char → List Char
  | .token _, piece => piece
  | .discard _, piece => blankOut piece

/-- **A text with its comments blanked out**, from its front to its end. -/
def uncomment (rule : IdentifierRule) (text : List Char) : List Char :=
  match _ : classify rule (Text.trimStart text) with
  | none => text
  | some lexeme =>
    let piece := Utf8.takeBytes lexeme.length (Text.trimStart text)
    let rest := (Utf8.dropBytes? lexeme.length (Text.trimStart text)).getD []
    text.takeWhile Text.isBlank ++ (lexeme.content.left piece ++ uncomment rule rest)
termination_by text.length
decreasing_by exact length_behind_lexeme (by assumption)

theorem uncomment_of_blank (rule : IdentifierRule) {text : List Char} (blank : Text.Blank text) :
    uncomment rule text = text := by
  have none : classify rule [] = none := by cases rule <;> rfl
  rw [uncomment]
  split
  · rfl
  · rename_i lexeme found
    rw [Text.trimStart_of_blank blank, none] at found
    cases found

theorem uncomment_append {rule : IdentifierRule} {run piece rest : List Char} {content : Content}
    (blank : Text.Blank run) (front : Front rule content piece rest) :
    uncomment rule (run ++ (piece ++ rest)) = run ++ (content.left piece ++ uncomment rule rest) := by
  have stop : Text.StopsAt Text.isBlank (piece ++ rest) := by
    obtain ⟨c, tail, rfl, visible⟩ := front.head
    exact .cons visible (tail ++ rest)
  have trimmed := Text.trimStart_append blank stop
  rw [uncomment]
  split
  · rename_i found
    rw [trimmed, classify_front front] at found
    cases found
  · rename_i lexeme found
    rw [trimmed, classify_front front] at found
    cases found
    rw [trimmed, Utf8.dropBytes?_append, Utf8.takeBytes_append, Text.takeWhile_append_stop blank stop]
    rfl

theorem fades_left (content : Content) (piece : List Char) : Fades piece (content.left piece) := by
  cases content with
  | token kind => exact .refl piece
  | discard comment => exact fades_blankOut piece

theorem fades_uncomment (rule : IdentifierRule) (text : List Char) : Fades text (uncomment rule text) := by
  induction text using lexemeInduction rule with
  | blank run none =>
    rw [uncomment_of_blank rule none]
    exact .refl run
  | lexeme run content piece rest before front ih =>
    rw [uncomment_append before front]
    exact (Fades.refl run).append ((fades_left content piece).append ih)

/-- **Without its comments a text has its tokens**, and nothing else. -/
theorem contents_uncomment (rule : IdentifierRule) (text : List Char) :
    contents rule (uncomment rule text) = ((contents rule text).filterMap Content.kind?).map .token := by
  induction text using lexemeInduction rule with
  | blank run none =>
    rw [uncomment_of_blank rule none, contents_of_blank rule none]
    rfl
  | lexeme run content piece rest before front ih =>
    rw [uncomment_append before front, contents_append before front, filterMap_kind?_cons,
      List.map_append, ← ih]
    cases content with
    | token kind => exact contents_append before (front.fade (fades_uncomment rule rest))
    | discard comment =>
      rw [contents_blank_append rule before]
      exact contents_blank_append rule (blank_blankOut piece) (uncomment rule rest)

/-! ## Lines and texts -/

/-- A line with its comments blanked out, given whether it begins inside a block comment: what it has of
that one, and those behind it. -/
def uncommentLine (rule : IdentifierRule) (inComment : Bool) (raw : List Char) : List Char :=
  match codeOf inComment raw with
  | some code => blankOut (raw.take (raw.length - code.length)) ++ uncomment rule code
  | none => blankOut raw

/-- Lines with their comments blanked out, each in the state that the ones before it leave. -/
def uncommentLines (rule : IdentifierRule) : Bool → List (List Char) → List (List Char)
  | _, [] => []
  | inComment, raw :: lines =>
    uncommentLine rule inComment raw :: uncommentLines rule (leavesOpen rule inComment raw) lines

/-- **A file text with its comments blanked out.** -/
def uncommented (rule : IdentifierRule) (text : List Char) : List Char :=
  (uncommentLines rule false (Text.lines text)).flatten

theorem fades_uncommentLine (rule : IdentifierRule) (inComment : Bool) (raw : List Char) :
    Fades raw (uncommentLine rule inComment raw) := by
  unfold uncommentLine
  split
  · rename_i code found
    obtain ⟨before, rfl⟩ := codeOf_suffix found
    rw [List.length_append, Nat.add_sub_cancel, List.take_left]
    exact (fades_blankOut before).append (fades_uncomment rule code)
  · exact fades_blankOut raw

theorem fades_uncommentLines (rule : IdentifierRule) (inComment : Bool) (lines : List (List Char)) :
    Fades lines.flatten (uncommentLines rule inComment lines).flatten := by
  induction lines generalizing inComment with
  | nil => exact .nil
  | cons raw lines ih => exact (fades_uncommentLine rule inComment raw).append (ih _)

theorem fades_uncommented (rule : IdentifierRule) (text : List Char) :
    Fades text (uncommented rule text) := by
  have fades := fades_uncommentLines rule false (Text.lines text)
  rwa [Text.flatten_lines] at fades

/-- Without its comments a line is all code, and has its tokens. -/
theorem contents_uncommentLine (rule : IdentifierRule) (inComment : Bool) (raw : List Char) :
    contents rule (uncommentLine rule inComment raw) = (lineKinds rule inComment raw).map .token := by
  rw [lineKinds, lineContents, uncommentLine]
  cases codeOf inComment raw with
  | none => exact contents_of_blank rule (blank_blankOut raw)
  | some code =>
    exact (contents_blank_append rule (blank_blankOut _) _).trans (contents_uncomment rule code)

@[simp] theorem lineKinds_uncommentLine (rule : IdentifierRule) (inComment : Bool) (raw : List Char) :
    lineKinds rule false (uncommentLine rule inComment raw) = lineKinds rule inComment raw :=
  (congrArg _ (contents_uncommentLine rule inComment raw)).trans (filterMap_kind?_token _)

@[simp] theorem leavesOpen_uncommentLine (rule : IdentifierRule) (inComment : Bool) (raw : List Char) :
    leavesOpen rule false (uncommentLine rule inComment raw) = false := by
  have found : leavesOpen rule false (uncommentLine rule inComment raw) =
      (contents rule (uncommentLine rule inComment raw)).contains (.discard .openBlockComment) := rfl
  rw [found, contents_uncommentLine]
  simp

@[simp] theorem kindsByLine_uncommentLines (rule : IdentifierRule) (inComment : Bool) (lines : List (List Char)) :
    kindsByLine rule false (uncommentLines rule inComment lines) = kindsByLine rule inComment lines := by
  induction lines generalizing inComment with
  | nil => rfl
  | cons raw lines ih =>
    rw [uncommentLines, kindsByLine, kindsByLine, lineKinds_uncommentLine, leavesOpen_uncommentLine, ih]

/-- Blanking out comments keeps the lines apart. -/
theorem lines_flatten_uncommentLines (rule : IdentifierRule) (inComment : Bool) (text : List Char) :
    Text.lines (uncommentLines rule inComment (Text.lines text)).flatten =
      uncommentLines rule inComment (Text.lines text) := by
  induction text using Text.linesInduction generalizing inComment with
  | nil => rfl
  | last body oneLine nonempty =>
    have fades := fades_uncommentLine rule inComment body
    rw [Text.lines_of_not_mem oneLine nonempty, uncommentLines, uncommentLines, List.flatten_singleton]
    exact Text.lines_of_not_mem (fades.not_mem (by decide) oneLine) (mt fades.eq_nil_iff.mp nonempty)
  | line body rest oneLine ih =>
    have fades := fades_uncommentLine rule inComment (body ++ ['\n'])
    obtain ⟨front, back, split, before, newline⟩ := fades.exists_append
    cases newline.eq_newline
    rw [Text.lines_append_newline oneLine, uncommentLines, List.flatten_cons, split, List.append_assoc,
      List.singleton_append, Text.lines_append_newline (before.not_mem (by decide) oneLine), ih]

@[simp] theorem lines_uncommented (rule : IdentifierRule) (text : List Char) :
    Text.lines (uncommented rule text) = uncommentLines rule false (Text.lines text) :=
  lines_flatten_uncommentLines rule false text

@[simp] theorem textTokens_uncommented (rule : IdentifierRule) (line : UInt32) (text : List Char) :
    Tokenizer.textTokens rule line (uncommented rule text) = Tokenizer.textTokens rule line text := by
  rw [Tokenizer.textTokens, Tokenizer.textTokens, lines_uncommented, kindsByLine_uncommentLines]

/-! ## Runs that meet no comment -/

/-- A text in which no comment is found. -/
def Plain (rule : IdentifierRule) (text : List Char) : Prop :=
  ∀ content ∈ contents rule text, ∃ kind, content = .token kind

theorem plain_uncommentLine (rule : IdentifierRule) (inComment : Bool) (raw : List Char) :
    Plain rule (uncommentLine rule inComment raw) := by
  intro content member
  rw [contents_uncommentLine] at member
  obtain ⟨kind, -, rfl⟩ := List.mem_map.mp member
  exact ⟨kind, rfl⟩

theorem plain_of_mem_uncommentLines {rule : IdentifierRule} {inComment : Bool} {lines : List (List Char)}
    {raw : List Char} (member : raw ∈ uncommentLines rule inComment lines) : Plain rule raw := by
  induction lines generalizing inComment with
  | nil => cases member
  | cons line lines ih =>
    rcases List.mem_cons.mp member with rfl | later
    · exact plain_uncommentLine rule inComment line
    · exact ih later

theorem Plain.congr {rule : IdentifierRule} {text other : List Char} (plain : Plain rule text)
    (same : contents rule other = contents rule text) : Plain rule other := by
  intro content member
  exact plain content (same ▸ member)

/-- A lexeme in front of a plain text is a token, and the text behind it is plain. -/
theorem Plain.front {rule : IdentifierRule} {run piece rest : List Char} {content : Content}
    (plain : Plain rule (run ++ (piece ++ rest))) (blank : Text.Blank run)
    (front : Front rule content piece rest) : (∃ kind, content = .token kind) ∧ Plain rule rest := by
  have whole := contents_append blank front
  constructor
  · exact plain content (whole ▸ List.mem_cons_self)
  · intro other member
    exact plain other (whole ▸ List.mem_cons_of_mem content member)

/-- A plain line is not a line comment. -/
theorem Plain.trim_ne {rule : IdentifierRule} {raw : List Char} (plain : Plain rule raw) (body : List Char) :
    Text.trim raw ≠ '/' :: '/' :: body := by
  intro comment
  have trimmed : Plain rule ([] ++ ('/' :: '/' :: body ++ [])) := by
    rw [List.nil_append, List.append_nil, ← comment]
    exact plain.congr (contents_trim rule raw)
  obtain ⟨⟨kind, token⟩, -⟩ := trimmed.front .nil (.lineComment body)
  cases token

theorem LineCursor.remaining?_skipBlank? {cursor there : LineCursor} {text : List Char}
    (remaining : cursor.remaining? = some text) (skipped : cursor.skipBlank? = some there) :
    there.remaining? = some (Text.trimStart text) := by
  obtain ⟨lead, blank, split⟩ := Text.exists_trimStart text
  rw [split] at remaining
  rw [skipBlank?_append remaining blank (.dropWhile Text.isBlank text)] at skipped
  cases skipped
  exact remaining?_advance remaining

theorem mem_contents_of_classify {rule : IdentifierRule} {text : List Char} {lexeme : Lexeme}
    (found : classify rule (Text.trimStart text) = some lexeme) : lexeme.content ∈ contents rule text := by
  rw [contents]
  split
  · rename_i none
    rw [none] at found
    cases found
  · rename_i other same
    rw [same] at found
    cases found
    exact List.mem_cons_self

namespace Tokenizer

variable {tree : FileTree} {t : Tokenizer}

/-- **A step drops a comment**: it reads a line inside a block comment, it reads a line that is nothing but
a line comment, or it passes a comment on the line. -/
inductive DropsComment (tree : FileTree) (t : Tokenizer) : Prop
  | inside {file behind : SourceFile} {raw : List Char} : t.phase = .lineEmpty file →
      file.readLine tree = (behind, .ok (some raw)) → t.cursor.inBlockComment = true →
      DropsComment tree t
  | line {file behind : SourceFile} {raw body : List Char} : t.phase = .lineEmpty file →
      file.readLine tree = (behind, .ok (some raw)) → Text.trim raw = '/' :: '/' :: body →
      DropsComment tree t
  | passed {file : SourceFile} {there : LineCursor} {lexeme : Lexeme} {comment : Discard} :
      t.phase = .lineBuffered file → t.cursor.skipBlank? = some there →
      classify t.policy.identifiers (there.remaining?.getD []) = some lexeme →
      lexeme.content = .discard comment → DropsComment tree t

/-- What is left of a file has no comments. -/
def PlainFrom (tree : FileTree) (rule : IdentifierRule) (file : SourceFile) : Prop :=
  ∃ lines last ended, file.Reads tree lines last ∧ last.readLine tree = (ended, .ok none) ∧
    ∀ raw ∈ lines, Plain rule raw

theorem plainFrom_of_openAt {rule : IdentifierRule} {path : String} {text : List Char} {file : SourceFile}
    (readable : tree.readText path = .ok text) (plain : ∀ raw ∈ Text.lines text, Plain rule raw)
    (opened : SourceFile.openAt tree path = .ok file) : PlainFrom tree rule file := by
  obtain ⟨other, bytes, opened', holds, spelled, -, -⟩ := SourceFile.openAt_of_readText readable
  cases opened.symm.trans opened'
  obtain ⟨last, ended, reads, noMore, -⟩ := SourceFile.reads_lines holds spelled
  exact ⟨Text.lines text, last, ended, reads, noMore, plain⟩

theorem PlainFrom.readLine {rule : IdentifierRule} {file behind : SourceFile} {raw : List Char}
    (plain : PlainFrom tree rule file) (read : file.readLine tree = (behind, .ok (some raw))) :
    Plain rule raw ∧ PlainFrom tree rule behind := by
  obtain ⟨lines, last, ended, reads, noMore, each⟩ := plain
  cases reads with
  | nil =>
    rw [noMore] at read
    cases read
  | @cons _ next _ line rest first reads =>
    rw [first] at read
    cases read
    exact ⟨each raw List.mem_cons_self,
      rest, last, ended, reads, noMore, fun other member => each other (List.mem_cons_of_mem raw member)⟩

/-- **No comment is ahead** of a state: neither on its line, nor in its file, nor in the queue. -/
structure Uncommented (tree : FileTree) (t : Tokenizer) : Prop where
  coherent : t.Coherent
  queue : ∀ path ∈ t.queue, ∃ text, tree.readText path = .ok text ∧
    ∀ raw ∈ Text.lines text, Plain t.policy.identifiers raw
  file : ∀ {file : SourceFile}, t.file = some file →
    t.cursor.inBlockComment = false ∧ PlainFrom tree t.policy.identifiers file
  line : ∀ {text : List Char}, t.state = .lineBuffered →
    t.cursor.remaining? = some text → Plain t.policy.identifiers text

/-- A line without comments is loaded. -/
theorem Uncommented.loading (plain : t.Uncommented tree) {file behind : SourceFile} {raw : List Char}
    (phase : t.phase = .lineEmpty file) (read : file.readLine tree = (behind, .ok (some raw))) :
    (t.loading behind raw).Uncommented tree := by
  have coherent := plain.coherent.loading phase read
  unfold Tokenizer.loading at coherent ⊢
  obtain ⟨code, ahead⟩ := plain.file (file_of_lineEmpty phase)
  obtain ⟨line, later⟩ := ahead.readLine read
  have found : codeOf t.cursor.inBlockComment raw = some raw := by rw [code]; rfl
  obtain ⟨text, load, same⟩ := LineCursor.load_of_codeOf_eq_some found
  rw [load] at coherent ⊢
  rcases LineCursor.keep_cases (.start [] (t.cursor.line + 1) false) text with kept | ⟨unkept, -⟩
  · rw [kept] at coherent ⊢
    refine ⟨coherent, plain.queue, ?_, ?_⟩
    · intro other isOpen
      cases isOpen
      exact ⟨rfl, later⟩
    · intro rest _ remaining
      cases remaining
      exact line.congr (same _)
  · rw [unkept] at coherent ⊢
    refine ⟨coherent, plain.queue, ?_, nofun⟩
    intro other isOpen
    cases isOpen
    exact ⟨rfl, later⟩

/-- A lexeme is passed, and it is a token. -/
theorem Uncommented.absorb (plain : t.Uncommented tree) {file : SourceFile} {run piece rest : List Char}
    {content : Content} (phase : t.phase = .lineBuffered file)
    (remaining : t.cursor.remaining? = some (run ++ (piece ++ rest))) (blank : Text.Blank run)
    (front : Front t.policy.identifiers content piece rest) :
    ((t.pass run piece).absorb content).Uncommented tree := by
  have coherent := plain.coherent.absorb phase remaining front
  obtain ⟨buffered, -⟩ := phase_eq_lineBuffered_iff.mp phase
  obtain ⟨⟨kind, rfl⟩, behind⟩ := (plain.line buffered remaining).front blank front
  refine ⟨coherent, plain.queue, plain.file, ?_⟩
  intro text _ left
  cases (remaining?_pass remaining).symm.trans left
  exact behind

theorem Uncommented.transition (plain : t.Uncommented tree) {next : Tokenizer} {outcome : Outcome}
    (taken : Transition tree t next outcome) : next.Uncommented tree := by
  have coherent := plain.coherent.transition taken
  cases taken with
  | finished _ => exact plain
  | completed _ _ => exact ⟨coherent, plain.queue, plain.file, nofun⟩
  | unopened _ queued _ =>
    have later := plain.queue
    rw [queued] at later
    exact ⟨coherent, (List.forall_mem_cons.mp later).2, nofun, nofun⟩
  | opened _ queued opened =>
    have later := plain.queue
    rw [queued] at later
    obtain ⟨⟨text, readable, first⟩, later⟩ := List.forall_mem_cons.mp later
    refine ⟨coherent, later, ?_, nofun⟩
    intro file isOpen
    cases isOpen
    exact ⟨rfl, plainFrom_of_openAt readable first opened⟩
  | unreadable _ _ => exact ⟨coherent, plain.queue, nofun, nofun⟩
  | ended _ _ => exact ⟨coherent, plain.queue, nofun, nofun⟩
  | loaded phase read => exact plain.loading phase read
  | blank _ _ _ => exact ⟨coherent, plain.queue, plain.file, nofun⟩
  | lexeme phase remaining blank front => exact plain.absorb phase remaining blank front

/-- **Where no comment is ahead, a step drops none.** -/
theorem Uncommented.not_dropsComment (plain : t.Uncommented tree) : ¬ t.DropsComment tree := by
  rintro (⟨phase, -, comment⟩ | ⟨phase, read, comment⟩ | ⟨phase, skipped, found, comment⟩)
  · have code := (plain.file (file_of_lineEmpty phase)).1
    rw [comment] at code
    cases code
  · obtain ⟨-, ahead⟩ := plain.file (file_of_lineEmpty phase)
    exact (ahead.readLine read).1.trim_ne _ comment
  · obtain ⟨text, remaining⟩ := plain.coherent.boundary
    rw [LineCursor.remaining?_skipBlank? remaining skipped] at found
    obtain ⟨buffered, -⟩ := phase_eq_lineBuffered_iff.mp phase
    obtain ⟨kind, token⟩ := plain.line buffered remaining _ (mem_contents_of_classify found)
    rw [token] at comment
    cases comment

theorem Uncommented.reaches {final : Tokenizer} (plain : t.Uncommented tree)
    (reached : Reaches tree t final) : final.Uncommented tree := by
  induction reached with
  | refl _ => exact plain
  | working stepped _ ih =>
    have next := plain.transition (plain.coherent.transition_step tree)
    rw [stepped] at next
    exact ih next
  | yielded stepped _ ih =>
    have next := plain.transition (plain.coherent.transition_step tree)
    rw [stepped] at next
    exact ih next

/-! ## The law -/

/-- **Comments are blanks.** Blanking out the comments of a file puts spaces in the place of some characters
and leaves the newlines. A run over the file that comes of it yields the stream of a run over the file
itself, with the same kinds on the same lines, and no step of it drops a comment. -/
theorem tokenizeAll_uncommented (policy : Policy) {tree plainTree : FileTree} {path plainPath : String}
    {text : List Char} (readable : tree.readText path = .ok text)
    (plainReadable : plainTree.readText plainPath = .ok (uncommented policy.identifiers text)) :
    Fades text (uncommented policy.identifiers text) ∧
    (∃ final plain, (ofQueue policy [path]).tokenizeAll tree = (final, .ok final.tokens) ∧
      (ofQueue policy [plainPath]).tokenizeAll plainTree = (plain, .ok plain.tokens) ∧
      plain.tokens = final.tokens) ∧
    ∀ t, Reaches plainTree (ofQueue policy [plainPath]) t → ¬ t.DropsComment plainTree := by
  refine ⟨fades_uncommented policy.identifiers text, ?_, ?_⟩
  · obtain ⟨final, ran, tokens⟩ := tokenizeAll_single policy readable
    obtain ⟨plain, plainRan, plainTokens⟩ := tokenizeAll_single policy plainReadable
    rw [textTokens_uncommented, ← tokens] at plainTokens
    exact ⟨final, plain, ran, plainRan, Array.toList_inj.mp plainTokens⟩
  · intro t reached
    have start : (ofQueue policy [plainPath]).Uncommented plainTree := by
      refine ⟨coherent_ofQueue policy [plainPath], List.forall_mem_singleton.mpr ?_, nofun, nofun⟩
      refine ⟨_, plainReadable, ?_⟩
      intro raw member
      rw [lines_uncommented] at member
      exact plain_of_mem_uncommentLines member
    exact (start.reaches reached).not_dropsComment

/-- Comments of every kind: behind a string that looks like one, behind a quotation mark without a partner,
over several lines, and one behind the end of another. -/
def annotated : List Char := "a\"/*\"b//\"\nc/*\"\nd\n*/e\" /*f*/1/**/2 //\n// g".toList

/-- The law at comments of every kind. -/
theorem tokenizeAll_uncommented_annotated :
    let plain := "a\"/*\"b   \nc   \n \n  e\"      1    2   \n    ".toList
    let tree := FileTree.ofTexts [("Main.jack", annotated), ("Plain.jack", plain)]
    tree.readText "Main.jack" = .ok annotated ∧ uncommented .alphanumeric annotated = plain ∧
      tree.readText "Plain.jack" = .ok plain ∧
      ∃ final, (ofQueue {} ["Plain.jack"]).tokenizeAll tree = (final, .ok final.tokens) ∧
        final.tokens.toList = [⟨.identifier "a", 1⟩, ⟨.stringConstant "/*", 1⟩, ⟨.identifier "b", 1⟩,
          ⟨.identifier "c", 2⟩, ⟨.identifier "e", 4⟩, ⟨.symbol '"', 4⟩, ⟨.integerConstant "1", 4⟩,
          ⟨.integerConstant "2", 4⟩] := by
  intro plain tree
  have readable : tree.readText "Main.jack" = .ok annotated := rfl
  have blanked : uncommented .alphanumeric annotated = plain := by decide +kernel
  have plainReadable : tree.readText "Plain.jack" = .ok plain := rfl
  rw [← blanked] at plainReadable
  obtain ⟨-, ⟨first, second, ran, plainRan, same⟩, -⟩ := tokenizeAll_uncommented {} readable plainReadable
  obtain ⟨other, ran', tokens⟩ := tokenizeAll_single {} readable
  cases ran.symm.trans ran'
  refine ⟨readable, blanked, blanked ▸ plainReadable, second, plainRan, ?_⟩
  rw [same, tokens]
  decide +kernel

end Tokenizer

end JackTokens
