import JackTokens.Proofs.Contents
import JackTokens.Proofs.Reading
import JackTokens.Proofs.Phases

/-!
# What a run comes to

A tokenizer takes steps, and most of them concern its cursor: blanks are skipped, bytes are passed, a line
is loaded. This module says what is left of all that when a line, a file or a queue has been worked
through.

**Lines.** `passLine` is the effect of a whole line as one change of state: the counter goes up, the tokens
of the line are appended, and an open comment is noted. It knows the lexemes of the line from `contents`
and uses no position. From a state between lines the steps lead to a state between lines that is the same
but for the text the cursor holds (`reaches_line`); nothing reads that text any more, so the two are
compared after it is taken away (`settle`).

**Files and queues.** The effects of lines add up by induction on the lines a file hands out
(`reaches_lines`), and those of files by induction on the queue (`reaches_unit`). A run over readable files
therefore ends without a failure, and its stream is known: `textTokens` of one file after the other.

`Reaches` is taken by steps that neither end the run nor fail. All that is said here about reachable states
holds for `advance` as it does for `tokenizeAll`, since both repeat the same steps.
-/

namespace JackTokens

/-! ## The cursor on a text -/

namespace LineCursor

variable {cursor : LineCursor}

theorem size_of_remaining? {rest : List Char} (remaining : cursor.remaining? = some rest) :
    cursor.size = cursor.position + Utf8.size rest := by
  obtain ⟨piece, whole, counted⟩ :=
    Utf8.eq_append_of_dropBytes? (cursor.remaining_eq.symm.trans remaining)
  rw [cursor.size_eq, whole, Utf8.size_append, counted]

theorem atEnd_nil (remaining : cursor.remaining? = some []) : cursor.atEnd = true := by
  have counted := size_of_remaining? remaining
  simp [atEnd, counted]

theorem atEnd_cons {c : Char} {rest : List Char} (remaining : cursor.remaining? = some (c :: rest)) :
    cursor.atEnd = false := by
  have counted := size_of_remaining? remaining
  have positive := Utf8.size_pos (List.cons_ne_nil c rest)
  simp only [atEnd, decide_eq_false_iff_not]
  omega

/-- Passing the size of a piece comes to the text behind it. -/
theorem remaining?_advance {piece rest : List Char}
    (remaining : cursor.remaining? = some (piece ++ rest)) :
    (cursor.advance (Utf8.size piece)).remaining? = some rest := by
  have counted := size_of_remaining? remaining
  rw [Utf8.size_append] at counted
  have passed : min (Utf8.size piece) cursor.bytesLeft = Utf8.size piece := by
    simp only [bytesLeft]
    omega
  simp only [advance, passed, behind?, remaining]
  exact Utf8.dropBytes?_append piece rest

theorem skipBlank?_append {run rest : List Char} (remaining : cursor.remaining? = some (run ++ rest))
    (blank : Text.Blank run) (stop : Text.StopsAt Text.isBlank rest) :
    cursor.skipBlank? = some (cursor.advance (Utf8.size run)) := by
  rw [skipBlank?, remaining, Option.map_some, Text.takeWhile_append_stop blank stop]

/-- What a load keeps of a text that it has trimmed: the text, or nothing where the text is empty or a
line comment, which comes to the same. -/
theorem keep_cases (cursor : LineCursor) (text : List Char) :
    cursor.keep text = (start text cursor.line cursor.inBlockComment, true) ∨
      cursor.keep text = (cursor, false) ∧
        ∀ rule, contents rule text = [] ∨ contents rule text = [.discard .lineComment] := by
  unfold keep
  split
  · exact .inr ⟨rfl, fun rule => .inl (contents_of_blank rule .nil)⟩
  · rename_i body
    refine .inr ⟨rfl, fun rule => .inr ?_⟩
    have whole := contents_append .nil (.lineComment body : Front rule _ _ _)
    rwa [List.nil_append, List.append_nil, contents_of_blank rule .nil] at whole
  · exact .inl rfl

theorem load_of_codeOf_eq_none {raw : List Char} (comment : codeOf cursor.inBlockComment raw = none) :
    cursor.load raw = (start [] (cursor.line + 1) true, false) := by
  cases inComment : cursor.inBlockComment with
  | false =>
    rw [inComment] at comment
    cases comment
  | true =>
    rw [inComment, codeOf, if_pos rfl, Option.map_eq_none_iff] at comment
    rcases cutAt?_trim raw with ⟨unmarked, -⟩ | ⟨_, _, _, -, -, _, found⟩
    · simp only [load, inComment, if_true, unmarked, clear]
      rfl
    · rw [comment] at found
      cases found

/-- Of any other line a trimmed text is kept, or not, and it has the contents of the code. -/
theorem load_of_codeOf_eq_some {raw code : List Char}
    (found : codeOf cursor.inBlockComment raw = some code) :
    ∃ text, cursor.load raw = (start [] (cursor.line + 1) false).keep text ∧
      ∀ rule, contents rule text = contents rule code := by
  cases inComment : cursor.inBlockComment with
  | false =>
    rw [inComment] at found
    cases found
    refine ⟨Text.trim raw, ?_, fun rule => contents_trim rule raw⟩
    simp only [load, inComment, clear]
    rfl
  | true =>
    rw [inComment, codeOf, if_pos rfl, Option.map_eq_some_iff] at found
    obtain ⟨cut, found, rfl⟩ := found
    rcases cutAt?_trim raw with ⟨-, none⟩ | ⟨before, rest, trail, trimmed, blank, inside, whole⟩
    · rw [none] at found
      cases found
    · rw [whole] at found
      cases found
      refine ⟨Text.trimStart rest, ?_, fun rule => ?_⟩
      · simp only [load, inComment, if_true, trimmed, clear]
        rfl
      · rw [contents_trimStart, contents_append_blank rule blank]

end LineCursor

/-- What a token stands for, and its line as a number without a bound. -/
def Token.located (token : Token) : Kind × Nat := (token.kind, token.line.toNat)

namespace Tokenizer

variable {tree : FileTree}

/-! ## Steps that go on -/

/-- **A state is reached from another** by steps that neither end the run nor fail. -/
inductive Reaches (tree : FileTree) : Tokenizer → Tokenizer → Prop
  | refl (t : Tokenizer) : Reaches tree t t
  | working {t next final : Tokenizer} :
    t.step tree = (next, .working) → Reaches tree next final → Reaches tree t final
  | yielded {t next final : Tokenizer} {token : Token} :
    t.step tree = (next, .yielded token) → Reaches tree next final → Reaches tree t final

theorem Reaches.trans {t middle final : Tokenizer} (first : Reaches tree t middle)
    (second : Reaches tree middle final) : Reaches tree t final := by
  induction first with
  | refl _ => exact second
  | working stepped _ ih => exact .working stepped (ih second)
  | yielded stepped _ ih => exact .yielded stepped (ih second)

theorem drain_of_working {t next : Tokenizer} (stepped : t.step tree = (next, .working)) :
    t.drain tree = next.drain tree := by
  rw [drain]
  split <;> simp_all

theorem drain_of_yielded {t next : Tokenizer} {token : Token}
    (stepped : t.step tree = (next, .yielded token)) : t.drain tree = next.drain tree := by
  rw [drain]
  split <;> simp_all

theorem drain_of_exhausted {t : Tokenizer} (done : t.phase = .exhausted) :
    t.drain tree = (t, .ok ()) := by
  have stepped : t.step tree = (t, .finished) := step_of_exhausted (state_of_exhausted done)
  rw [drain]
  split <;> simp_all

theorem drain_of_finished {t next : Tokenizer} (stepped : t.step tree = (next, .finished)) :
    t.drain tree = (next, .ok ()) := by
  rw [drain]
  split <;> simp_all

theorem drain_of_failed {t next : Tokenizer} {e : TokenizeError}
    (stepped : t.step tree = (next, .failed e)) : t.drain tree = (next, .error e) := by
  rw [drain]
  split <;> simp_all

/-- What a run comes to can be asked from any state it reaches. -/
theorem Reaches.drain_eq {t final : Tokenizer} (reached : Reaches tree t final) :
    t.drain tree = final.drain tree := by
  induction reached with
  | refl _ => rfl
  | working stepped _ ih => rw [← ih, drain_of_working stepped]
  | yielded stepped _ ih => rw [← ih, drain_of_yielded stepped]

/-! ## The effect of a line -/

/-- A state without the text its cursor holds. -/
def settle (t : Tokenizer) : Tokenizer := { t with cursor := t.cursor.clear }

/-- **The effect of a lexeme**, apart from passing it: a token is appended, and a comment that is left
open is noted. -/
def absorb (t : Tokenizer) : Content → Tokenizer
  | .token kind => t.emit ⟨kind, t.cursor.line⟩
  | .discard .openBlockComment =>
    { (t.note (.commentContinues t.cursor.line)) with cursor := t.cursor.enterBlockComment }
  | .discard _ => t

/-- **The effect of a line** on a state between lines. -/
def passLine (t : Tokenizer) (raw : List Char) : Tokenizer :=
  let code := codeOf t.cursor.inBlockComment raw
  let counted := { t with cursor := .start [] (t.cursor.line + 1) code.isNone }
  (lineContents t.policy.identifiers t.cursor.inBlockComment raw).foldl absorb counted

theorem passLine_of_codeOf_eq_none {t : Tokenizer} {raw : List Char}
    (comment : codeOf t.cursor.inBlockComment raw = none) :
    t.passLine raw = { t with cursor := .start [] (t.cursor.line + 1) true } := by
  simp only [passLine, lineContents, comment]
  rfl

theorem passLine_of_codeOf_eq_some {t : Tokenizer} {raw code : List Char}
    (found : codeOf t.cursor.inBlockComment raw = some code) :
    t.passLine raw = (contents t.policy.identifiers code).foldl absorb
      { t with cursor := .start [] (t.cursor.line + 1) false } := by
  simp only [passLine, lineContents, found]
  rfl

/-- The effects of lexemes do not depend on the state and the open file. -/
theorem foldl_absorb_state (found : List Content) (t : Tokenizer) (state : DriverState)
    (file : Option SourceFile) :
    found.foldl absorb { t with state := state, file := file } =
      { found.foldl absorb t with state := state, file := file } := by
  induction found generalizing t with
  | nil => rfl
  | cons content found ih =>
    rw [List.foldl_cons, List.foldl_cons, ← ih]
    rcases content with kind | (_ | _ | _) <;> rfl

/-- What passing a lexeme comes to: a token is yielded, and behind a comment there is more to do. -/
def outcomeOf (line : UInt32) : Content → Outcome
  | .token kind => .yielded ⟨kind, line⟩
  | .discard _ => .working

/-- Passes blanks, and a piece behind them. -/
def pass (t : Tokenizer) (run piece : List Char) : Tokenizer :=
  { t with cursor := (t.cursor.advance (Utf8.size run)).advance (Utf8.size piece) }

/-- Every lexeme takes some of the text. -/
@[simp] theorem filter_classify (rule : IdentifierRule) (text : List Char) :
    (classify rule text).filter (0 < ·.length) = classify rule text := by
  cases found : classify rule text with
  | none => rfl
  | some lexeme => exact Option.filter_some_pos (decide_eq_true (classify_length_pos found))

theorem nextLexeme_of_blank {t : Tokenizer} {run : List Char}
    (remaining : t.cursor.remaining? = some run) (blank : Text.Blank run) :
    t.nextLexeme =
      ({ t with cursor := t.cursor.advance (Utf8.size run), state := .lineEmpty }, .working) := by
  have whole : t.cursor.remaining? = some (run ++ []) := by rw [List.append_nil, remaining]
  have skipped := LineCursor.skipBlank?_append whole blank (.nil Text.isBlank)
  have ended := LineCursor.atEnd_nil (LineCursor.remaining?_advance whole)
  simp only [nextLexeme, skipped, ended, if_true]

/-- **A lexeme behind blanks** is passed, and has its effect. -/
theorem nextLexeme_of_front {t : Tokenizer} {run piece rest : List Char}
    {content : Content} (remaining : t.cursor.remaining? = some (run ++ (piece ++ rest)))
    (blank : Text.Blank run) (front : Front t.policy.identifiers content piece rest) :
    t.nextLexeme = ((t.pass run piece).absorb content, outcomeOf t.cursor.line content) := by
  obtain ⟨c, tail, rfl, visible⟩ := front.head
  have skipped := LineCursor.skipBlank?_append remaining blank (.cons visible (tail ++ rest))
  have there := LineCursor.remaining?_advance remaining
  have before := LineCursor.atEnd_cons there
  have found := (filter_classify _ _).trans (classify_front front)
  simp only [nextLexeme, skipped, before, there, Option.getD_some, found]
  rcases content with kind | (_ | _ | _) <;> rfl

theorem remaining?_pass {t : Tokenizer} {run piece rest : List Char}
    (remaining : t.cursor.remaining? = some (run ++ (piece ++ rest))) :
    (t.pass run piece).cursor.remaining? = some rest :=
  LineCursor.remaining?_advance (LineCursor.remaining?_advance remaining)

theorem step_blank (tree : FileTree) {t : Tokenizer} {file : SourceFile} {run : List Char}
    (phase : t.phase = .lineBuffered file) (remaining : t.cursor.remaining? = some run)
    (blank : Text.Blank run) :
    ∃ cursor,
      t.step tree = ({ t with cursor := cursor, state := .lineEmpty, file := some file }, .working) ∧
      cursor.clear = t.cursor.clear := by
  refine ⟨t.cursor.advance (Utf8.size run), ?_, rfl⟩
  rw [step_of_lineBuffered phase, ← file_of_lineBuffered phase]
  exact nextLexeme_of_blank remaining blank

/-- A lexeme, behind blanks: the step has its effect and comes to the text behind it. -/
theorem step_lexeme (tree : FileTree) {t : Tokenizer} {file : SourceFile} {run piece rest : List Char}
    {content : Content} (phase : t.phase = .lineBuffered file)
    (remaining : t.cursor.remaining? = some (run ++ (piece ++ rest))) (blank : Text.Blank run)
    (front : Front t.policy.identifiers content piece rest) :
    ∃ next outcome, t.step tree = (next, outcome) ∧
      (outcome = .working ∨ ∃ token, outcome = .yielded token) ∧ next.phase = .lineBuffered file ∧
      next.policy = t.policy ∧ next.cursor.remaining? = some rest ∧ next.settle = t.settle.absorb content := by
  have behind := remaining?_pass remaining
  rw [step_of_lineBuffered phase, nextLexeme_of_front remaining blank front]
  rcases content with kind | (_ | _ | _)
  · exact ⟨_, _, rfl, .inr ⟨_, rfl⟩, phase, rfl, behind, rfl⟩
  · exact ⟨_, _, rfl, .inl rfl, phase, rfl, behind, rfl⟩
  · exact ⟨_, _, rfl, .inl rfl, phase, rfl, behind, rfl⟩
  · exact ⟨_, _, rfl, .inl rfl, phase, rfl, behind, rfl⟩

/-- **From a line to its end.** Steps on a line that has been loaded have the effects of its lexemes, in
order, and come to the phase between lines. -/
theorem reaches_lexemes (tree : FileTree) {rule : IdentifierRule} (text : List Char) {t : Tokenizer}
    {file : SourceFile} (identifiers : t.policy.identifiers = rule) (phase : t.phase = .lineBuffered file)
    (remaining : t.cursor.remaining? = some text) :
    ∃ final, Reaches tree t final ∧
      final.settle =
        { ((contents rule text).foldl absorb t.settle) with state := .lineEmpty, file := some file } := by
  induction text using lexemeInduction rule generalizing t with
  | blank run none =>
    obtain ⟨cursor, stepped, same⟩ := step_blank tree phase remaining none
    refine ⟨_, .working stepped (.refl _), ?_⟩
    rw [contents_of_blank rule none]
    simp only [settle, same, List.foldl_nil]
  | lexeme run content piece rest before front ih =>
    rw [← identifiers] at front
    obtain ⟨next, outcome, stepped, goesOn, buffered, policy, behind, effect⟩ :=
      step_lexeme tree phase remaining before front
    obtain ⟨final, reached, settled⟩ := ih (policy ▸ identifiers) buffered behind
    refine ⟨final, ?_, ?_⟩
    · rcases goesOn with rfl | ⟨token, rfl⟩
      · exact .working stepped reached
      · exact .yielded stepped reached
    · rw [identifiers] at front
      rw [settled, effect, contents_append before front, List.foldl_cons]

theorem foldl_absorb_unkept {found : List Content}
    (nothing : found = [] ∨ found = [.discard .lineComment]) (t : Tokenizer) :
    found.foldl absorb t = t := by
  rcases nothing with rfl | rfl <;> rfl

/-- **From line to line.** Where a file hands out a line, steps lead to the next phase between lines, with
the effect of that line. -/
theorem reaches_line {t : Tokenizer} {file next : SourceFile} {raw : List Char}
    (phase : t.phase = .lineEmpty file) (read : file.readLine tree = (next, .ok (some raw))) :
    ∃ final, Reaches tree t final ∧
      final.settle = { t.settle.passLine raw with state := .lineEmpty, file := some next } := by
  have stepped := step_loaded phase read
  unfold loading at stepped
  cases found : codeOf t.cursor.inBlockComment raw with
  | none =>
    have effect : t.settle.passLine raw =
        { t.settle with cursor := .start [] (t.cursor.line + 1) true } :=
      passLine_of_codeOf_eq_none (t := t.settle) found
    rw [LineCursor.load_of_codeOf_eq_none found] at stepped
    exact ⟨_, .working stepped (.refl _), by rw [effect]; rfl⟩
  | some code =>
    have effect : t.settle.passLine raw = (contents t.policy.identifiers code).foldl absorb
        { t.settle with cursor := .start [] (t.cursor.line + 1) false } :=
      passLine_of_codeOf_eq_some (t := t.settle) found
    obtain ⟨text, load, same⟩ := LineCursor.load_of_codeOf_eq_some found
    rw [load] at stepped
    rcases LineCursor.keep_cases (.start [] (t.cursor.line + 1) false) text with kept | ⟨unkept, nothing⟩
    · rw [kept] at stepped
      let loaded : Tokenizer :=
        { t with cursor := .start text (t.cursor.line + 1) false, state := .lineBuffered, file := some next }
      obtain ⟨final, reached, settled⟩ :=
        reaches_lexemes tree text (rfl : loaded.policy.identifiers = _) rfl rfl
      refine ⟨final, .working stepped reached, ?_⟩
      -- The two sides differ in the state and file from which the effects start, and none of them reads these.
      rw [settled, effect, ← same, ← foldl_absorb_state, ← foldl_absorb_state]
      rfl
    · rw [unkept] at stepped
      refine ⟨_, .working stepped (.refl _), ?_⟩
      rw [effect, ← same, foldl_absorb_unkept (nothing _)]
      rfl

theorem passLine_state (t : Tokenizer) (raw : List Char) (state : DriverState) (file : Option SourceFile) :
    passLine { t with state := state, file := file } raw =
      { t.passLine raw with state := state, file := file } := by
  unfold passLine
  exact foldl_absorb_state _ { t with cursor := _ } state file

theorem foldl_passLine_state (lines : List (List Char)) (t : Tokenizer) (state : DriverState)
    (file : Option SourceFile) :
    lines.foldl passLine { t with state := state, file := file } =
      { lines.foldl passLine t with state := state, file := file } := by
  induction lines generalizing t with
  | nil => rfl
  | cons raw lines ih =>
    rw [List.foldl_cons, List.foldl_cons, passLine_state, ih]

/-- **From the start of a file to its last line.** The effects of the lines a file hands out follow each
other. -/
theorem reaches_lines {file last : SourceFile} {lines : List (List Char)}
    (reads : file.Reads tree lines last) {t : Tokenizer} (phase : t.phase = .lineEmpty file) :
    ∃ final, Reaches tree t final ∧
      final.settle = { lines.foldl passLine t.settle with state := .lineEmpty, file := some last } := by
  induction reads generalizing t with
  | nil file =>
    obtain ⟨between, isOpen⟩ := phase_eq_lineEmpty_iff.mp phase
    exact ⟨t, .refl t, by rw [List.foldl_nil, ← between, ← isOpen]; rfl⟩
  | @cons file next last raw rest read _ ih =>
    obtain ⟨middle, reached, settled⟩ := reaches_line phase read
    have between : middle.phase = .lineEmpty next := congrArg Tokenizer.phase settled
    obtain ⟨final, reachedEnd, total⟩ := ih between
    refine ⟨final, reached.trans reachedEnd, ?_⟩
    rw [total, settled, List.foldl_cons, foldl_passLine_state]

/-! ## The stream, file by file -/

/-- Where each of some sections begins, and how long it is. -/
def spans : Nat → List (List Token) → List (Nat × Nat)
  | _, [] => []
  | first, part :: parts => (first, part.length) :: spans (first + part.length) parts

@[simp] theorem spans_append_singleton (first : Nat) (parts : List (List Token)) (part : List Token) :
    spans first (parts ++ [part]) = spans first parts ++ [(first + parts.flatten.length, part.length)] := by
  induction parts generalizing first with
  | nil => simp [spans]
  | cons head parts ih =>
    simp only [List.cons_append, spans, ih, List.flatten_cons, List.length_append, Nat.add_assoc]

/-- **The stream falls into sections**, one for each file that was opened: together they are the stream,
and each record says where its section begins and how long it is. -/
structure Sections (t : Tokenizer) (parts : List (List Token)) : Prop where
  tokens : t.tokens.toList = parts.flatten
  files : t.files.toList.map (fun record => (record.first, record.count)) = spans 0 parts

theorem Sections.congr {t next : Tokenizer} {parts : List (List Token)} (sections : t.Sections parts)
    (tokens : next.tokens = t.tokens) (files : next.files = t.files) : next.Sections parts :=
  ⟨tokens ▸ sections.tokens, files ▸ sections.files⟩

/-- Where sections follow each other behind some tokens, each span cuts out its section. -/
theorem drop_take_spans (before : List Token) (parts : List (List Token)) (i : Nat) :
    ((spans before.length parts)[i]?).map
        (fun span => ((before ++ parts.flatten).drop span.1).take span.2) = parts[i]? := by
  induction parts generalizing before i with
  | nil => rfl
  | cons part parts ih =>
    cases i with
    | zero => simp [spans]
    | succ i =>
      have later := ih (before ++ part) i
      rw [List.length_append, List.append_assoc] at later
      simpa only [spans, List.getElem?_cons_succ, List.flatten_cons] using later

/-- A record cuts its section out of the stream. -/
theorem Sections.tokensOf?_eq {t : Tokenizer} {parts : List (List Token)} (sections : t.Sections parts)
    (i : Nat) : t.tokensOf? i = parts[i]? := by
  rw [← drop_take_spans [] parts i, List.length_nil, ← sections.files, List.nil_append, ← sections.tokens,
    List.getElem?_map, Array.getElem?_toList, tokensOf?]
  cases t.files[i]? with
  | none => rfl
  | some record => simp [List.extract_eq_take_drop]

theorem Sections.push {t next : Tokenizer} {parts : List (List Token)} (sections : t.Sections parts)
    {record : Provenance} (first : record.first = t.tokens.size) (none : record.count = 0)
    (tokens : next.tokens = t.tokens) (files : next.files = t.files.push record) :
    next.Sections (parts ++ [[]]) := by
  refine ⟨by simp [tokens, sections.tokens], ?_⟩
  have counted : t.tokens.size = parts.flatten.length := by rw [← sections.tokens, Array.length_toList]
  rw [files, Array.toList_push, List.map_append, sections.files, spans_append_singleton]
  simp [first, none, counted]

@[simp] theorem modify_append_singleton {α : Type} (front : List α) (last : α) (f : α → α) :
    (front ++ [last]).modify front.length f = front ++ [f last] := by
  induction front with
  | nil => rfl
  | cons a front ih => simp [ih]

@[simp] theorem modify_push {α : Type} (front : Array α) (last : α) (f : α → α) :
    (front.push last).modify front.size f = front.push (f last) := by
  apply Array.toList_inj.mp
  rw [Array.toList_modify, Array.toList_push, Array.toList_push, ← Array.length_toList,
    modify_append_singleton]

/-- A token is counted in the last record, and in no other. -/
theorem files_emit {t : Tokenizer} {front : Array Provenance} {last : Provenance}
    (files : t.files = front.push last) (token : Token) :
    (t.emit token).files = front.push { last with count := last.count + 1 } := by
  simp only [emit, note, files, Array.size_push, Nat.add_sub_cancel]
  exact modify_push front last _

/-- A token is the last one, in the name of the last record. -/
theorem lastEmitted_emit {t : Tokenizer} {n : Nat} (size : t.files.size = n + 1) (token : Token) :
    (t.emit token).lastEmitted = some n := by
  have nonempty : t.files.isEmpty = false := by simp [Array.isEmpty, size]
  simp [emit, nonempty, size]

/-- A token belongs to the last section. -/
theorem Sections.emit {t : Tokenizer} {parts : List (List Token)} {part : List Token}
    (sections : t.Sections (parts ++ [part])) (token : Token) :
    (t.emit token).Sections (parts ++ [part ++ [token]]) := by
  refine ⟨by simp [Tokenizer.emit, note, sections.tokens], ?_⟩
  have files := sections.files
  rw [spans_append_singleton, List.map_eq_append_iff] at files
  obtain ⟨front, back, split, earlier, last⟩ := files
  obtain ⟨record, rfl, same⟩ := List.map_eq_singleton_iff.mp last
  have pushed : t.files = front.toArray.push record := by
    apply Array.toList_inj.mp
    rw [split, Array.toList_push, List.toList_toArray]
  rw [files_emit pushed, Array.toList_push, List.map_append, List.toList_toArray, earlier,
    spans_append_singleton]
  rw [Prod.mk.injEq] at same
  simp [same.1, same.2]

/-! ## Tokens and lines

Each lexeme that is a token becomes one on the line the counter has reached. -/

/-- **The tokens of some lines**, with their numbers counted on from a line. -/
def numbered : UInt32 → List (List Kind) → List Token
  | _, [] => []
  | line, kinds :: rest => kinds.map (fun kind => ⟨kind, line + 1⟩) ++ numbered (line + 1) rest

theorem line_add_succ (line : UInt32) (count : Nat) :
    line + 1 + UInt32.ofNat count = line + UInt32.ofNat (count + 1) := by
  rw [UInt32.ofNat_add, UInt32.add_assoc, UInt32.add_comm 1]
  rfl

theorem numbered_append (line : UInt32) (first second : List (List Kind)) :
    numbered line (first ++ second) =
      numbered line first ++ numbered (line + UInt32.ofNat first.length) second := by
  induction first generalizing line with
  | nil => simp [numbered]
  | cons kinds first ih =>
    rw [List.cons_append, numbered, ih, numbered, line_add_succ, List.append_assoc, List.length_cons]

/-- **The tokens of a file** whose lines are counted on from a line. -/
def textTokens (rule : IdentifierRule) (line : UInt32) (text : List Char) : List Token :=
  numbered line (kindsByLine rule false (Text.lines text))

/-- The same with lines that have no bound: each list of kinds is on the line behind the one before. -/
def placed : Nat → List (List Kind) → List (Kind × Nat)
  | _, [] => []
  | line, kinds :: rest => kinds.map (fun kind => (kind, line + 1)) ++ placed (line + 1) rest

/-- **The counter does not overflow** while there are fewer lines than it can count. -/
theorem located_numbered {line : UInt32} {kinds : List (List Kind)}
    (few : line.toNat + kinds.length < UInt32.size) :
    (numbered line kinds).map Token.located = placed line.toNat kinds := by
  induction kinds generalizing line with
  | nil => rfl
  | cons first rest ih =>
    rw [List.length_cons] at few
    have next : (line + 1).toNat = line.toNat + 1 := by
      have wide : UInt32.size = 2 ^ 32 := rfl
      rw [UInt32.toNat_add, UInt32.toNat_one, Nat.mod_eq_of_lt]
      omega
    rw [numbered, placed, List.map_append, List.map_map, ih (by omega), next]
    congr 1
    exact List.map_congr_left fun kind _ => Prod.ext rfl next

/-- The stream of a text, with lines that have no bound. -/
def textStream (rule : IdentifierRule) (text : List Char) : List (Kind × Nat) :=
  placed 0 (kindsByLine rule false (Text.lines text))

theorem located_textTokens_zero (rule : IdentifierRule) {text : List Char}
    (few : (Text.lines text).length < UInt32.size) :
    (textTokens rule 0 text).map Token.located = textStream rule text := by
  have counted := length_kindsByLine rule false (Text.lines text)
  exact located_numbered (by rw [counted, UInt32.toNat_zero, Nat.zero_add]; exact few)

/-- **Tokens are appended between two states**, to the section of the last file. What comes next stays the
same, the counter is at a line, and a comment is open or not. -/
structure Appends (t next : Tokenizer) (tokens : List Token) (line : UInt32) (inComment : Bool) :
    Prop where
  policy : next.policy = t.policy
  queue : next.queue = t.queue
  line : next.cursor.line = line
  inComment : next.cursor.inBlockComment = inComment
  sections : ∀ {parts part}, t.Sections (parts ++ [part]) → next.Sections (parts ++ [part ++ tokens])

theorem Appends.trans {t middle next : Tokenizer} {first second : List Token} {line line' : UInt32}
    {inComment inComment' : Bool} (one : t.Appends middle first line inComment)
    (two : middle.Appends next second line' inComment') :
    t.Appends next (first ++ second) line' inComment' where
  policy := two.policy.trans one.policy
  queue := two.queue.trans one.queue
  line := two.line
  inComment := two.inComment
  sections := fun before => by
    rw [← List.append_assoc]
    exact two.sections (one.sections before)

/-- A change that touches none of this appends nothing. -/
theorem Appends.nothing {t next : Tokenizer} {line : UInt32} {inComment : Bool}
    (policy : next.policy = t.policy) (queue : next.queue = t.queue) (tokens : next.tokens = t.tokens)
    (files : next.files = t.files) (counter : next.cursor.line = line)
    (comment : next.cursor.inBlockComment = inComment) : t.Appends next [] line inComment where
  policy := policy
  queue := queue
  line := counter
  inComment := comment
  sections := fun before => by
    rw [List.append_nil]
    exact before.congr tokens files

/-- A lexeme appends its token, if it is one, on the line of the counter. -/
theorem appends_absorb (t : Tokenizer) (content : Content) :
    t.Appends (t.absorb content) (content.kind?.toList.map fun kind => ⟨kind, t.cursor.line⟩)
      t.cursor.line (t.cursor.inBlockComment || .discard .openBlockComment == content) := by
  rcases content with kind | (_ | _ | _)
  · exact ⟨rfl, rfl, rfl, (Bool.or_false _).symm, fun before => before.emit ⟨kind, t.cursor.line⟩⟩
  · exact .nothing rfl rfl rfl rfl rfl (Bool.or_false _).symm
  · exact .nothing rfl rfl rfl rfl rfl (Bool.or_false _).symm
  · exact .nothing rfl rfl rfl rfl rfl (Bool.or_true _).symm

theorem appends_foldl_absorb (found : List Content) (t : Tokenizer) :
    t.Appends (found.foldl absorb t)
      ((found.filterMap Content.kind?).map fun kind => ⟨kind, t.cursor.line⟩)
      t.cursor.line (t.cursor.inBlockComment || found.contains (.discard .openBlockComment)) := by
  induction found generalizing t with
  | nil => exact .nothing rfl rfl rfl rfl rfl (Bool.or_false _).symm
  | cons content found ih =>
    have first := appends_absorb t content
    have both := first.trans (ih (t.absorb content))
    rw [first.line, first.inComment, Bool.or_assoc, ← List.contains_cons] at both
    rw [filterMap_kind?_cons, List.map_append]
    exact both

theorem appends_passLine (t : Tokenizer) (raw : List Char) :
    t.Appends (t.passLine raw)
      ((lineKinds t.policy.identifiers t.cursor.inBlockComment raw).map
        fun kind => ⟨kind, t.cursor.line + 1⟩)
      (t.cursor.line + 1) (leavesOpen t.policy.identifiers t.cursor.inBlockComment raw) := by
  cases found : codeOf t.cursor.inBlockComment raw with
  | none =>
    rw [passLine_of_codeOf_eq_none found, lineKinds, lineContents, leavesOpen, found]
    exact .nothing rfl rfl rfl rfl rfl rfl
  | some code =>
    rw [passLine_of_codeOf_eq_some found, lineKinds, lineContents, leavesOpen, found]
    have counted : t.Appends { t with cursor := .start [] (t.cursor.line + 1) false } []
        (t.cursor.line + 1) false := .nothing rfl rfl rfl rfl rfl rfl
    exact counted.trans (appends_foldl_absorb (contents t.policy.identifiers code) _)

/-- **Lines append their tokens**, each line on its own number. -/
theorem appends_foldl_passLine (lines : List (List Char)) (t : Tokenizer) :
    t.Appends (lines.foldl passLine t)
      (numbered t.cursor.line (kindsByLine t.policy.identifiers t.cursor.inBlockComment lines))
      (t.cursor.line + UInt32.ofNat lines.length)
      (lines.foldl (leavesOpen t.policy.identifiers) t.cursor.inBlockComment) := by
  induction lines generalizing t with
  | nil => exact .nothing rfl rfl rfl rfl (by simp) rfl
  | cons raw lines ih =>
    have first := appends_passLine t raw
    have both := first.trans (ih (t.passLine raw))
    rw [first.line, first.inComment, first.policy] at both
    rw [line_add_succ] at both
    exact both

/-- **Tokens are counted in the last record**: between two states, as many are appended to the stream as it
counts more. -/
def Counts (t next : Tokenizer) : Prop :=
  ∃ n, next.tokens.size = t.tokens.size + n ∧
    ∀ {front : Array Provenance} {record : Provenance}, t.files = front.push record →
      next.files = front.push { record with count := record.count + n }

theorem Counts.refl (t : Tokenizer) : t.Counts t := ⟨0, rfl, fun files => files⟩

theorem Counts.trans {t middle next : Tokenizer} (first : t.Counts middle) (second : middle.Counts next) :
    t.Counts next := by
  obtain ⟨n, size, counted⟩ := first
  obtain ⟨m, size', counted'⟩ := second
  refine ⟨n + m, by omega, ?_⟩
  intro front record files
  rw [counted' (counted files), Nat.add_assoc]

theorem counts_absorb (t : Tokenizer) (content : Content) : t.Counts (t.absorb content) := by
  rcases content with kind | (_ | _ | _)
  · exact ⟨1, Array.size_push _, fun files => files_emit files _⟩
  · exact .refl t
  · exact .refl t
  · exact .refl t

theorem Counts.foldl {α : Type} {effect : Tokenizer → α → Tokenizer}
    (each : ∀ t a, Counts t (effect t a)) (items : List α) (t : Tokenizer) :
    t.Counts (items.foldl effect t) := by
  induction items generalizing t with
  | nil => exact .refl t
  | cons a items ih => exact (each t a).trans (ih (effect t a))

theorem counts_passLine (t : Tokenizer) (raw : List Char) : t.Counts (t.passLine raw) := by
  unfold passLine
  exact Counts.foldl counts_absorb _ { t with cursor := _ }

/-! ## Files and queues -/

/-- The line from which a file is counted on, given where the counter is. -/
def lineBase (numbering : LineNumbering) (line : UInt32) : UInt32 :=
  match numbering with
  | .global => line
  | .perFile => 0

@[simp] theorem lineBase_zero (numbering : LineNumbering) : lineBase numbering 0 = 0 := by
  cases numbering <;> rfl

/-- **A file from its opening through some of its lines.** It has a record and a section for their tokens,
the counter has gone through them, and a comment is open where they leave one open. -/
theorem reaches_opened {t : Tokenizer} {path : String} {queue : List String} {file last : SourceFile}
    {lines : List (List Char)} (idle : t.phase = .idle) (queued : t.queue = path :: queue)
    (opened : SourceFile.openAt tree path = .ok file) (reads : file.Reads tree lines last) :
    let base := lineBase t.policy.lineNumbering t.cursor.line
    ∃ final count, Reaches tree t final ∧ final.phase = .lineEmpty last ∧ final.policy = t.policy ∧
      final.queue = queue ∧ final.cursor.line = base + UInt32.ofNat lines.length ∧
      final.cursor.inBlockComment = lines.foldl (leavesOpen t.policy.identifiers) false ∧
      final.tokens.size = t.tokens.size + count ∧
      final.files = t.files.push ⟨file.name, file.path, t.tokens.size, count⟩ ∧
      ∀ {parts}, t.Sections parts →
        final.Sections (parts ++ [numbered base (kindsByLine t.policy.identifiers false lines)]) := by
  intro base
  have opens := step_opened idle queued opened
  obtain ⟨final, reached, settled⟩ := reaches_lines reads (rfl : (t.opening file queue).phase = _)
  have tokens : final.settle.tokens = _ := congrArg Tokenizer.tokens settled
  have files : final.settle.files = _ := congrArg Tokenizer.files settled
  have appends := appends_foldl_passLine lines (t.opening file queue).settle
  obtain ⟨count, size, counted⟩ := Counts.foldl counts_passLine lines (t.opening file queue).settle
  refine ⟨final, count, .working opens reached, congrArg Tokenizer.phase settled,
    (congrArg Tokenizer.policy settled).trans appends.policy,
    (congrArg Tokenizer.queue settled).trans appends.queue,
    (congrArg (·.cursor.line) settled).trans appends.line,
    (congrArg (·.cursor.inBlockComment) settled).trans appends.inComment,
    (congrArg Array.size tokens).trans size, ?_, ?_⟩
  · rw [← Nat.zero_add count]
    exact files.trans (counted rfl)
  · intro parts before
    have empty : (t.opening file queue).settle.Sections (parts ++ [[]]) := before.push rfl rfl rfl rfl
    exact (appends.sections empty).congr tokens files

/-- **A file from its opening to its end.** It appends a section of its own, and the counter has gone
through its lines. -/
theorem reaches_file {t : Tokenizer} {path : String} {queue : List String} {text : List Char}
    (idle : t.phase = .idle) (queued : t.queue = path :: queue)
    (readable : tree.readText path = .ok text) :
    let base := lineBase t.policy.lineNumbering t.cursor.line
    ∃ final, Reaches tree t final ∧ final.phase = .idle ∧ final.policy = t.policy ∧
      final.queue = queue ∧ final.cursor.line = base + UInt32.ofNat (Text.lines text).length ∧
      final.cursor.inBlockComment = (Text.lines text).foldl (leavesOpen t.policy.identifiers) false ∧
      ∀ {parts}, t.Sections parts →
        final.Sections (parts ++ [textTokens t.policy.identifiers base text]) := by
  intro base
  obtain ⟨file, bytes, opened, holds, spelled, -, -⟩ := SourceFile.openAt_of_readText readable
  obtain ⟨last, ended, reads, noMore, -⟩ := SourceFile.reads_lines holds spelled
  obtain ⟨middle, -, reached, atEnd, policy, behind, line, comment, -, -, sections⟩ :=
    reaches_opened idle queued opened reads
  have closing := step_ended atEnd noMore
  refine ⟨middle.close ended .idle, reached.trans (.working closing (.refl _)), rfl, policy, behind, line,
    comment, ?_⟩
  intro parts before
  exact (sections before).congr rfl rfl

/-- The sections of a unit, for the texts of its files and the line where the counter is. -/
def unitSections (policy : Policy) : UInt32 → List (List Char) → List (List Token)
  | _, [] => []
  | line, text :: texts =>
    let base := lineBase policy.lineNumbering line
    textTokens policy.identifiers base text ::
      unitSections policy (base + UInt32.ofNat (Text.lines text).length) texts

/-- Where the counter is behind some files, given where it was before them. -/
def unitLine (policy : Policy) : UInt32 → List (List Char) → UInt32
  | line, [] => line
  | line, text :: texts =>
    unitLine policy (lineBase policy.lineNumbering line + UInt32.ofNat (Text.lines text).length) texts

/-- **Behind readable files** a run is between files, and each of them has appended its section. -/
theorem reaches_unit {unit : List (String × List Char)}
    (readable : ∀ file ∈ unit, tree.readText file.1 = .ok file.2) {t : Tokenizer}
    (idle : t.phase = .idle) (queued : t.queue = unit.map Prod.fst) {parts : List (List Token)}
    (before : t.Sections parts) :
    ∃ final, Reaches tree t final ∧ final.phase = .idle ∧ final.policy = t.policy ∧ final.queue = [] ∧
      final.cursor.line = unitLine t.policy t.cursor.line (unit.map Prod.snd) ∧
      final.Sections (parts ++ unitSections t.policy t.cursor.line (unit.map Prod.snd)) := by
  induction unit generalizing t parts with
  | nil =>
    refine ⟨t, .refl t, idle, rfl, queued, rfl, ?_⟩
    rw [List.map_nil, unitSections, List.append_nil]
    exact before
  | cons file unit ih =>
    obtain ⟨middle, reached, idle', policy, queued', counter, -, appended⟩ :=
      reaches_file idle queued (readable file List.mem_cons_self)
    obtain ⟨final, more, between, same, empty, line, sections⟩ :=
      ih (fun other member => readable other (List.mem_cons_of_mem file member)) idle' queued'
        (appended before)
    rw [policy] at same line sections
    rw [counter] at line sections
    rw [List.append_assoc] at sections
    exact ⟨final, reached.trans more, between, same, empty, line, sections⟩

/-- Between files, with nothing left to open, there is nothing left to do. -/
theorem Reaches.tokenizeAll_of_idle {t final : Tokenizer} (reached : Reaches tree t final)
    (idle : final.phase = .idle) (empty : final.queue = []) :
    t.tokenizeAll tree =
      ({ (final.note (.completed final.files.size final.tokens.size)) with state := .exhausted },
        .ok final.tokens) := by
  have closed := file_of_idle idle
  have done : Tokenizer.phase { (final.note (.completed final.files.size final.tokens.size)) with
      state := .exhausted } = .exhausted := phase_eq_exhausted_iff.mpr ⟨rfl, closed⟩
  rw [tokenizeAll, reached.drain_eq, drain_of_working (step_completed (state_of_idle idle) empty),
    drain_of_exhausted done]
  rfl

theorem sections_ofQueue (policy : Policy) (queue : List String) : (ofQueue policy queue).Sections [] :=
  ⟨rfl, rfl⟩

/-- A run over readable files comes behind the last of them. -/
theorem reaches_ofQueue (policy : Policy) {unit : List (String × List Char)}
    (readable : ∀ file ∈ unit, tree.readText file.1 = .ok file.2) :
    ∃ final, Reaches tree (ofQueue policy (unit.map Prod.fst)) final ∧ final.phase = .idle ∧
      final.policy = policy ∧ final.queue = [] ∧
      final.cursor.line = unitLine policy 0 (unit.map Prod.snd) ∧
      final.Sections (unitSections policy 0 (unit.map Prod.snd)) := by
  have idle : (ofQueue policy (unit.map Prod.fst)).phase = .idle := rfl
  exact reaches_unit readable idle rfl (sections_ofQueue policy _)

/-- **A run over readable files ends without a failure**, and its whole stream falls into the sections of
the files. -/
theorem tokenizeAll_unit (policy : Policy) {unit : List (String × List Char)}
    (readable : ∀ file ∈ unit, tree.readText file.1 = .ok file.2) :
    ∃ final, (ofQueue policy (unit.map Prod.fst)).tokenizeAll tree = (final, .ok final.tokens) ∧
      final.Sections (unitSections policy 0 (unit.map Prod.snd)) := by
  obtain ⟨final, reached, idle, -, empty, -, sections⟩ := reaches_ofQueue policy readable
  exact ⟨_, reached.tokenizeAll_of_idle idle empty, sections.congr rfl rfl⟩

theorem tokenizeAll_single (policy : Policy) {path : String} {text : List Char}
    (readable : tree.readText path = .ok text) :
    ∃ final, (ofQueue policy [path]).tokenizeAll tree = (final, .ok final.tokens) ∧
      final.tokens.toList = textTokens policy.identifiers 0 text := by
  have alone : ∀ file ∈ [(path, text)], tree.readText file.1 = .ok file.2 := by
    intro file member
    cases List.mem_singleton.mp member
    exact readable
  obtain ⟨final, drained, sections⟩ := tokenizeAll_unit policy alone
  refine ⟨final, drained, ?_⟩
  simpa [unitSections, lineBase_zero] using sections.tokens

end Tokenizer

end JackTokens
