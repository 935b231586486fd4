import JackTokens.Proofs.Failure
import Mathlib.Data.List.SplitBy

/-!
# From one identifier rule to the other

Under the alphanumeric rule a word is a letter or an underscore, and all the letters, digits and underscores
behind it. Under the alphabetic rule it is letters only. So what is one word under the first rule may be
several lexemes under the second, and nothing else changes.

**Words** fall into pieces (`wordPieces`): their longest runs of letters, their longest runs of digits, and
their underscores one by one. Under the alphabetic rule each piece is a lexeme of its own (`contents_word`).
A piece stops where the next one begins, and the last stops where the word did, because what stops a word
stops its letters and its digits. Reserved words are letters only, so they stay whole.

**Everything else** is found at the same place (`Front.narrow`). A string, a number or a comment starts with a
character that no word starts with under either rule, and where it ends does not depend on the rule. Under
the alphabetic rule one more character may stand for itself, and underscores do.

**The law** (`tokenizeAll_split`) carries this from lines to files and to queues. The two runs do not go step
by step: where one passes a word the other passes its pieces. They meet between lines, and this is where they
are compared (`Splits`).
-/

namespace JackTokens

/-! ## The pieces of a word -/

/-- Do two neighbours in a word belong to the same piece? Two letters do, and two digits. -/
def joins (a b : Char) : Bool := a.isAlpha && b.isAlpha || a.isDigit && b.isDigit

/-- **The pieces of a word**: its longest runs of letters, its longest runs of digits, and each underscore by
itself. -/
def wordPieces (word : List Char) : List (List Char) := word.splitBy joins

/-- What a piece of a word stands for: letters are a reserved word or an identifier, digits are a number, and
an underscore is a symbol. -/
def pieceKind (piece : List Char) : Kind :=
  if piece.all Char.isAlpha then wordKind piece
  else if piece.all Char.isDigit then .integerConstant (String.ofList piece)
  else .symbol '_'

/-- **What is left of a token** under the narrower rule: an identifier falls into the tokens of its pieces, and
any other token stays as it is. -/
def Kind.split : Kind → List Kind
  | .identifier name => (wordPieces name.toList).map pieceKind
  | kind => [kind]

/-- The pieces of a token are on its line. -/
def Token.split (token : Token) : List Token := token.kind.split.map fun kind => ⟨kind, token.line⟩

example : Token.split ⟨.identifier "_if2do_x", 7⟩ =
    [⟨.symbol '_', 7⟩, ⟨.keyword .kIf, 7⟩, ⟨.integerConstant "2", 7⟩, ⟨.keyword .kDo, 7⟩, ⟨.symbol '_', 7⟩,
      ⟨.identifier "x", 7⟩] := by decide +kernel

/-- A lexeme under the narrower rule: comments stay as they are. -/
def Content.split : Content → List Content
  | .token kind => kind.split.map .token
  | .discard comment => [.discard comment]

theorem wordPieces_append {piece behind : List Char} (nonempty : piece ≠ [])
    (joined : piece.IsChain fun a b => joins a b = true)
    (apart : ∀ a ∈ piece.getLast?, ∀ b ∈ behind.head?, joins a b = false) :
    wordPieces (piece ++ behind) = piece :: wordPieces behind := by
  rw [wordPieces, List.splitBy_append apart, List.splitBy_of_isChain nonempty joined]
  rfl

/-- Letters go with letters only, and digits with digits. -/
theorem joins_of_isAlpha {a : Char} (letter : a.isAlpha = true) (b : Char) : joins a b = b.isAlpha := by
  have noDigit : a.isDigit = false := by
    rw [← Bool.not_eq_true, isDigit_iff]
    rw [isAlpha_iff] at letter
    omega
  simp [joins, letter, noDigit]

theorem joins_of_isDigit {a : Char} (digit : a.isDigit = true) (b : Char) : joins a b = b.isDigit := by
  have noLetter : a.isAlpha = false := IdentifierRule.alphabetic.starts_eq_false_of_isDigit digit
  simp [joins, digit, noLetter]

/-- **The longest run of a class** at the front of a word is a piece, if the class goes with itself only. -/
theorem wordPieces_run {p : Char → Bool} (alike : ∀ a, p a = true → ∀ b, joins a b = p b)
    {run behind : List Char} (nonempty : run ≠ []) (inside : ∀ c ∈ run, p c = true)
    (stop : Text.StopsAt p behind) : wordPieces (run ++ behind) = run :: wordPieces behind := by
  apply wordPieces_append nonempty
  · apply List.Pairwise.isChain
    rw [List.pairwise_iff_forall_sublist]
    intro a b both
    rw [alike a (inside a (both.subset (by simp)))]
    exact inside b (both.subset (by simp))
  · intro a last b first
    rw [alike a (inside a (List.mem_of_getLast? last))]
    exact stop b first

/-- **The first piece of a word** is a lexeme under the alphabetic rule, whatever stands behind the word. -/
theorem exists_piece {c : Char} {word : List Char}
    (inside : ∀ d ∈ c :: word, IdentifierRule.alphanumeric.continues d = true) :
    ∃ piece behind, c :: word = piece ++ behind ∧ piece ≠ [] ∧
      wordPieces (c :: word) = piece :: wordPieces behind ∧
      ∀ rest, Text.StopsAt IdentifierRule.alphanumeric.continues rest →
        Front .alphabetic (.token (pieceKind piece)) piece (behind ++ rest) := by
  have run (p : Char → Bool) (first : p c = true) : ∀ d ∈ c :: word.takeWhile p, p d = true :=
    List.forall_mem_cons.mpr ⟨first, fun d member => List.all_eq_true.mp List.all_takeWhile d member⟩
  have whole (p : Char → Bool) : c :: word = (c :: word.takeWhile p) ++ word.dropWhile p := by simp
  rcases IdentifierRule.continues_iff.mp (inside c List.mem_cons_self) with letter | ⟨-, rfl | digit⟩
  · have letters := run Char.isAlpha letter
    have named : pieceKind (c :: word.takeWhile Char.isAlpha) = wordKind (c :: word.takeWhile Char.isAlpha) :=
      if_pos (List.all_eq_true.mpr letters)
    refine ⟨_, _, whole Char.isAlpha, by simp, ?_, fun rest stop => ?_⟩
    · nth_rewrite 1 [whole Char.isAlpha]
      exact wordPieces_run (fun a => joins_of_isAlpha) (by simp) letters (.dropWhile _ word)
    · rw [named]
      have stops : Text.StopsAt Char.isAlpha rest :=
        stop.mono fun d letter => IdentifierRule.continues_iff.mpr (.inl letter)
      exact .word letter (fun d member => letters d (List.mem_cons_of_mem c member))
        (Text.StopsAt.append (.dropWhile _ word) stops)
  · refine ⟨['_'], word, rfl, by simp, ?_, fun rest _ => ?_⟩
    · refine wordPieces_append (by simp) (List.isChain_singleton _) ?_
      intro a last b _
      cases last
      rfl
    · exact .symbol ⟨rfl, rfl, rfl, fun quote => (by cases quote), fun slash => (by cases slash)⟩
  · have digits := run Char.isDigit digit
    have numbered : pieceKind (c :: word.takeWhile Char.isDigit) =
        .integerConstant (String.ofList (c :: word.takeWhile Char.isDigit)) := by
      have noLetter : c.isAlpha = false := IdentifierRule.alphabetic.starts_eq_false_of_isDigit digit
      rw [pieceKind, if_neg (by simp [noLetter]), if_pos (List.all_eq_true.mpr digits)]
    refine ⟨_, _, whole Char.isDigit, by simp, ?_, fun rest stop => ?_⟩
    · nth_rewrite 1 [whole Char.isDigit]
      exact wordPieces_run (fun a => joins_of_isDigit) (by simp) digits (.dropWhile _ word)
    · rw [numbered]
      have stops : Text.StopsAt Char.isDigit rest :=
        stop.mono fun d digit => IdentifierRule.continues_iff.mpr (.inr ⟨rfl, .inr digit⟩)
      exact .integer digit (fun d member => digits d (List.mem_cons_of_mem c member))
        (Text.StopsAt.append (.dropWhile _ word) stops)

/-- **A word falls into its pieces**, and what stands behind it is not touched. -/
theorem contents_word {word rest : List Char}
    (inside : ∀ c ∈ word, IdentifierRule.alphanumeric.continues c = true)
    (stop : Text.StopsAt IdentifierRule.alphanumeric.continues rest) :
    contents .alphabetic (word ++ rest) =
      (wordPieces word).map (fun piece => .token (pieceKind piece)) ++ contents .alphabetic rest := by
  cases word with
  | nil => rfl
  | cons c word =>
    obtain ⟨piece, behind, split, nonempty, pieces, front⟩ := exists_piece inside
    have shorter : behind.length < (c :: word).length := by
      have counted := congrArg List.length split
      have some := List.length_pos_iff.mpr nonempty
      rw [List.length_append] at counted
      omega
    have later : ∀ d ∈ behind, IdentifierRule.alphanumeric.continues d = true := fun d member =>
      inside d (split ▸ List.mem_append_right piece member)
    rw [pieces, split, List.append_assoc, List.map_cons, List.cons_append, ← contents_word later stop]
    exact contents_append Text.Blank.nil (front rest stop)
termination_by word.length

/-! ## Lines -/

theorem Keyword.isAlpha_of_mem_spelling (k : Keyword) : ∀ c ∈ k.spelling.toList, c.isAlpha = true := by
  rw [← List.all_eq_true]
  cases k <;> rfl

/-- **A word stands for what its pieces stand for.** A reserved word is one piece. -/
theorem split_wordKind {c : Char} {word : List Char} :
    (wordKind (c :: word)).split = (wordPieces (c :: word)).map pieceKind := by
  unfold wordKind
  split
  · rename_i reserved found
    have spelled : reserved.spelling.toList = c :: word := by
      rw [Keyword.spelling_of_ofSpelling? found, String.toList_ofList]
    have letters : ∀ d ∈ c :: word, d.isAlpha = true := spelled ▸ reserved.isAlpha_of_mem_spelling
    have alone : wordPieces (c :: word) = [c :: word] := by
      have first := wordPieces_run (fun a => joins_of_isAlpha) (by simp) letters (.nil _)
      rwa [List.append_nil] at first
    rw [alone, List.map_singleton, pieceKind, if_pos (List.all_eq_true.mpr letters), wordKind, found]
    rfl
  · rw [Kind.split, String.toList_ofList]

/-- **What is no word stands where it stood.** -/
theorem Front.narrow {content : Content} {piece rest : List Char}
    (front : Front .alphanumeric content piece rest) :
    Front .alphabetic content piece rest ∧ content.split = [content] ∨
      (∀ c ∈ piece, IdentifierRule.alphanumeric.continues c = true) ∧
        Text.StopsAt IdentifierRule.alphanumeric.continues rest ∧
        content.split = (wordPieces piece).map fun piece => .token (pieceKind piece) := by
  cases front with
  | @word c word _ first inside stop =>
    have run : ∀ d ∈ c :: word, IdentifierRule.alphanumeric.continues d = true :=
      List.forall_mem_cons.mpr ⟨IdentifierRule.continues_of_starts first, inside⟩
    refine .inr ⟨run, stop, ?_⟩
    rw [Content.split, split_wordKind, List.map_map]
    rfl
  | string _ closed => exact .inl ⟨.string rest closed, rfl⟩
  | integer digit inside stop => exact .inl ⟨.integer digit inside stop, rfl⟩
  | lineComment body => exact .inl ⟨.lineComment body, rfl⟩
  | blockComment _ first => exact .inl ⟨.blockComment rest first, rfl⟩
  | openBlockComment unclosed => exact .inl ⟨.openBlockComment unclosed, rfl⟩
  | @symbol c _ lone =>
    have noWord : IdentifierRule.alphabetic.starts c = false := (Bool.or_eq_false_iff.mp lone.noWord).2
    exact .inl ⟨.symbol ⟨lone.visible, noWord, lone.noDigit, lone.noString, lone.noComment⟩, rfl⟩

/-- **The contents of a text under the alphabetic rule** are those under the other, with words split. -/
theorem contents_split (text : List Char) :
    contents .alphabetic text = (contents .alphanumeric text).flatMap Content.split := by
  induction text using lexemeInduction .alphanumeric with
  | blank run none => rw [contents_of_blank _ none, contents_of_blank _ none, List.flatMap_nil]
  | lexeme run content piece rest before front ih =>
    rw [contents_append before front, List.flatMap_cons, ← ih]
    rcases front.narrow with ⟨same, whole⟩ | ⟨inside, stop, pieces⟩
    · rw [contents_append before same, whole, List.singleton_append]
    · rw [contents_blank_append _ before, contents_word inside stop, pieces]

theorem filterMap_kind?_split (found : List Content) :
    (found.flatMap Content.split).filterMap Content.kind? =
      (found.filterMap Content.kind?).flatMap Kind.split := by
  induction found with
  | nil => rfl
  | cons content found ih =>
    rw [List.flatMap_cons, List.filterMap_append, ih, filterMap_kind?_cons, List.flatMap_append]
    congr 1
    cases content with
    | discard comment => rfl
    | token kind => simp [Content.split, Content.kind?, List.filterMap_map, Function.comp_def]

theorem lineKinds_split (inComment : Bool) (raw : List Char) :
    lineKinds .alphabetic inComment raw = (lineKinds .alphanumeric inComment raw).flatMap Kind.split := by
  rw [lineKinds, lineKinds, lineContents, lineContents]
  cases codeOf inComment raw with
  | none => rfl
  | some code => simp only [contents_split, filterMap_kind?_split]

/-- A comment is left open under one rule if it is under the other. -/
theorem leavesOpen_split (inComment : Bool) (raw : List Char) :
    leavesOpen .alphabetic inComment raw = leavesOpen .alphanumeric inComment raw := by
  have kept (content : Content) : .discard .openBlockComment ∈ content.split ↔
      content = .discard .openBlockComment := by
    cases content with
    | token kind => simp [Content.split]
    | discard comment => simp [Content.split, eq_comm]
  rw [leavesOpen, leavesOpen]
  cases codeOf inComment raw with
  | none => rfl
  | some code =>
    simp only [contents_split]
    rw [Bool.eq_iff_iff, List.contains_iff_mem, List.contains_iff_mem, List.mem_flatMap]
    simp only [kept, exists_eq_right]

theorem kindsByLine_split (inComment : Bool) (lines : List (List Char)) :
    kindsByLine .alphabetic inComment lines =
      (kindsByLine .alphanumeric inComment lines).map (·.flatMap Kind.split) := by
  induction lines generalizing inComment with
  | nil => rfl
  | cons raw lines ih =>
    rw [kindsByLine, kindsByLine, List.map_cons, lineKinds_split, leavesOpen_split, ih]

namespace Tokenizer

theorem numbered_split (line : UInt32) (kinds : List (List Kind)) :
    numbered line (kinds.map (·.flatMap Kind.split)) = (numbered line kinds).flatMap Token.split := by
  induction kinds generalizing line with
  | nil => rfl
  | cons first rest ih =>
    rw [List.map_cons, numbered, ih, numbered, List.flatMap_append, List.map_flatMap, List.flatMap_map]
    rfl

/-! ## Runs -/

variable {tree : FileTree} {policy : Policy} {wide narrow wide' narrow' : Tokenizer}

/-- **Two runs meet**: under both rules the same files have been opened and are still to be opened, the
counters agree, and the stream of each file under the alphabetic rule is the one under the alphanumeric rule
with identifiers split. -/
structure Splits (policy : Policy) (wide narrow : Tokenizer) : Prop where
  wideRule : wide.policy = policy.withIdentifiers .alphanumeric
  narrowRule : narrow.policy = policy.withIdentifiers .alphabetic
  queue : narrow.queue = wide.queue
  line : narrow.cursor.line = wide.cursor.line
  sources : narrow.files.toList.map (fun record => (record.name, record.path)) =
    wide.files.toList.map fun record => (record.name, record.path)
  sections : ∃ parts, wide.Sections parts ∧ narrow.Sections (parts.map (·.flatMap Token.split))

theorem splits_ofQueue (policy : Policy) (queue : List String) :
    Splits policy (ofQueue (policy.withIdentifiers .alphanumeric) queue)
      (ofQueue (policy.withIdentifiers .alphabetic) queue) where
  wideRule := rfl
  narrowRule := rfl
  queue := rfl
  line := rfl
  sources := rfl
  sections := ⟨[], sections_ofQueue _ _, sections_ofQueue _ _⟩

/-- A change of the phase, the queue, the journal and the text in the cursor. -/
theorem Splits.congr (splits : Splits policy wide narrow) (wideRule : wide'.policy = wide.policy)
    (narrowRule : narrow'.policy = narrow.policy) (queue : narrow'.queue = wide'.queue)
    (wideLine : wide'.cursor.line = wide.cursor.line) (narrowLine : narrow'.cursor.line = narrow.cursor.line)
    (wideFound : wide'.tokens = wide.tokens ∧ wide'.files = wide.files)
    (narrowFound : narrow'.tokens = narrow.tokens ∧ narrow'.files = narrow.files) :
    Splits policy wide' narrow' := by
  obtain ⟨parts, sections, sections'⟩ := splits.sections
  exact {
    wideRule := wideRule.trans splits.wideRule
    narrowRule := narrowRule.trans splits.narrowRule
    queue := queue
    line := by rw [narrowLine, splits.line, wideLine]
    sources := by rw [narrowFound.2, splits.sources, wideFound.2]
    sections := ⟨parts, sections.congr wideFound.1 wideFound.2, sections'.congr narrowFound.1 narrowFound.2⟩ }

theorem Splits.tokens (splits : Splits policy wide narrow) :
    narrow.tokens.toList = wide.tokens.toList.flatMap Token.split := by
  obtain ⟨parts, sections, sections'⟩ := splits.sections
  rw [sections'.tokens, sections.tokens]
  simp only [List.flatMap_def, List.map_flatten, List.flatten_flatten, List.map_map, Function.comp_def]

theorem Splits.tokensOf? (splits : Splits policy wide narrow) (i : Nat) :
    narrow.tokensOf? i = (wide.tokensOf? i).map (·.flatMap Token.split) := by
  obtain ⟨parts, sections, sections'⟩ := splits.sections
  rw [sections'.tokensOf?_eq, sections.tokensOf?_eq, List.getElem?_map]

/-- **A file, opened and read in both runs**: behind the same lines they meet again. -/
theorem Splits.opened (splits : Splits policy wide narrow) (idle : wide.phase = .idle)
    (idle' : narrow.phase = .idle) {path : String} {queue : List String} {file last : SourceFile}
    {lines : List (List Char)} (queued : wide.queue = path :: queue)
    (opened : SourceFile.openAt tree path = .ok file) (reads : file.Reads tree lines last) :
    ∃ wide' narrow', Reaches tree wide wide' ∧ Reaches tree narrow narrow' ∧
      wide'.phase = .lineEmpty last ∧ narrow'.phase = .lineEmpty last ∧ wide'.queue = queue ∧
      Splits policy wide' narrow' := by
  obtain ⟨wide', count, reached, phase, same, behind, line, -, -, files, sections⟩ :=
    reaches_opened idle queued opened reads
  obtain ⟨narrow', count', reached', phase', same', behind', line', -, -, files', sections'⟩ :=
    reaches_opened idle' (splits.queue.trans queued) opened reads
  obtain ⟨parts, before, before'⟩ := splits.sections
  refine ⟨wide', narrow', reached, reached', phase, phase', behind, same.trans splits.wideRule,
    same'.trans splits.narrowRule, behind'.trans behind.symm, ?_, ?_, ?_⟩
  · rw [line', line, splits.line, splits.wideRule, splits.narrowRule]
    rfl
  · simp only [files', files, Array.toList_push, List.map_append, splits.sources, List.map_singleton]
  · refine ⟨_, sections before, ?_⟩
    have appended := sections' before'
    rw [splits.line, splits.narrowRule] at appended
    rw [splits.wideRule, List.map_append, List.map_singleton, ← numbered_split]
    simp only [Policy.withIdentifiers, kindsByLine_split] at appended ⊢
    exact appended

/-- **Runs that have met meet at their ends**, and fail in the same way if they fail. -/
theorem Splits.tokenizeAll (tree : FileTree) (splits : Splits policy wide narrow) (idle : wide.phase = .idle)
    (idle' : narrow.phase = .idle) :
    ∃ wide' narrow', Splits policy wide' narrow' ∧
      (wide.tokenizeAll tree = (wide', .ok wide'.tokens) ∧
          narrow.tokenizeAll tree = (narrow', .ok narrow'.tokens) ∨
        ∃ e, wide.tokenizeAll tree = (wide', .error e) ∧ narrow.tokenizeAll tree = (narrow', .error e)) := by
  induction queued : wide.queue generalizing wide narrow with
  | nil =>
    have queued' := splits.queue.trans queued
    have here : Reaches tree wide wide := .refl wide
    have here' : Reaches tree narrow narrow := .refl narrow
    refine ⟨_, _, ?_, .inl ⟨here.tokenizeAll_of_idle idle queued, here'.tokenizeAll_of_idle idle' queued'⟩⟩
    exact splits.congr rfl rfl splits.queue rfl rfl ⟨rfl, rfl⟩ ⟨rfl, rfl⟩
  | cons path queue ih =>
    have queued' := splits.queue.trans queued
    rcases SourceFile.read_cases tree path with
      ⟨text, readable⟩ | ⟨cause, unopened⟩ | ⟨lines, cause, file, last, ended, opened, reads, fails⟩
    · obtain ⟨file, bytes, opened, holds, spelled, -, -⟩ := SourceFile.openAt_of_readText readable
      obtain ⟨last, ended, reads, noMore, -⟩ := SourceFile.reads_lines holds spelled
      obtain ⟨middle, middle', reached, reached', phase, phase', behind, met⟩ :=
        splits.opened idle idle' queued opened reads
      have closed : Splits policy (middle.close ended .idle) (middle'.close ended .idle) :=
        met.congr rfl rfl met.queue rfl rfl ⟨rfl, rfl⟩ ⟨rfl, rfl⟩
      have same := (reached.trans (.working (step_ended phase noMore) (.refl _))).drain_eq
      have same' := (reached'.trans (.working (step_ended phase' noMore) (.refl _))).drain_eq
      have rest := ih closed rfl rfl behind
      simpa only [Tokenizer.tokenizeAll, same, same'] using rest
    · have failed := (Reaches.refl wide).tokenizeAll_of_failed (step_unopened idle queued unopened)
      have failed' := (Reaches.refl narrow).tokenizeAll_of_failed (step_unopened idle' queued' unopened)
      refine ⟨_, _, ?_, .inr ⟨_, failed, failed'⟩⟩
      exact splits.congr rfl rfl rfl rfl rfl ⟨rfl, rfl⟩ ⟨rfl, rfl⟩
    · obtain ⟨middle, middle', reached, reached', phase, phase', behind, met⟩ :=
        splits.opened idle idle' queued opened reads
      have failed := reached.tokenizeAll_of_failed (step_unreadable phase fails)
      have failed' := reached'.tokenizeAll_of_failed (step_unreadable phase' fails)
      rw [met.line] at failed'
      refine ⟨_, _, ?_, .inr ⟨_, failed, failed'⟩⟩
      exact met.congr rfl rfl met.queue rfl rfl ⟨rfl, rfl⟩ ⟨rfl, rfl⟩

/-- **From one identifier rule to the other.** Take the same queue under both rules, and the same policies
otherwise. Both runs come to their end or both fail, and then in the same way. Either way the stream under the
alphabetic rule is the one under the alphanumeric rule with each identifier replaced, on its line, by the
tokens of its pieces, as a whole and file by file; and the files opened, the files that were not, and the line
the counter has reached are the same. -/
theorem tokenizeAll_split (tree : FileTree) (policy : Policy) (queue : List String) :
    ∃ wide narrow : Tokenizer,
      ((ofQueue (policy.withIdentifiers .alphanumeric) queue).tokenizeAll tree = (wide, .ok wide.tokens) ∧
          (ofQueue (policy.withIdentifiers .alphabetic) queue).tokenizeAll tree =
            (narrow, .ok narrow.tokens) ∨
        ∃ e, (ofQueue (policy.withIdentifiers .alphanumeric) queue).tokenizeAll tree = (wide, .error e) ∧
          (ofQueue (policy.withIdentifiers .alphabetic) queue).tokenizeAll tree = (narrow, .error e)) ∧
      narrow.tokens.toList = wide.tokens.toList.flatMap Token.split ∧
      (∀ i, narrow.tokensOf? i = (wide.tokensOf? i).map (·.flatMap Token.split)) ∧
      narrow.files.toList.map (fun record => (record.name, record.path)) =
        wide.files.toList.map (fun record => (record.name, record.path)) ∧
      narrow.queue = wide.queue ∧ narrow.cursor.line = wide.cursor.line := by
  obtain ⟨wide, narrow, splits, ends⟩ :=
    Splits.tokenizeAll tree (splits_ofQueue policy queue) rfl rfl
  exact ⟨wide, narrow, ends, splits.tokens, splits.tokensOf?, splits.sources, splits.queue, splits.line⟩

end Tokenizer

end JackTokens
