import JackTokens.Proofs.Run

/-!
# Nothing of a line is lost

A step over a loaded line skips blanks, asks what stands in front, and passes as many bytes as the answer
says. The answer carries a token and a length, which no rule computes from each other: a string constant
is two bytes shorter than what it was read from, and a comment has no text at all. If one of the lengths
were off, text would be lost or read twice, and only on some lines.

**The law** (`pieces_lossless`): the positions at which the steps stop cut a loaded line into pieces that
follow each other from its first byte to its last. Put together they are the line. Each piece is a run of
blanks, a comment, or the spelling of the token that was appended, and the tokens appended are those of
the pieces, in order.

`pieces` repeats the steps on the cursor and writes down where they stop. The text of a piece is not taken
from the answers: it is what the line has between two positions (`Utf8.between`).

**Consequence.** A token takes a visible character of the text for itself, so there are no more tokens
than visible characters, however many lines the text has.
-/

namespace JackTokens

/-! ## Between two positions -/

namespace Utf8

/-- The characters that fit into the first `n` bytes of a text. -/
def takeBytes : Nat → List Char → List Char
  | _, [] => []
  | n, c :: text => if c.utf8Size ≤ n then c :: takeBytes (n - c.utf8Size) text else []

/-- What a text has between two positions, counted in bytes. -/
def between (first last : Nat) (text : List Char) : List Char :=
  takeBytes (last - first) ((dropBytes? first text).getD [])

@[simp] theorem takeBytes_append (piece rest : List Char) : takeBytes (size piece) (piece ++ rest) = piece := by
  induction piece with
  | nil =>
    cases rest with
    | nil => rfl
    | cons c rest =>
      have some := c.utf8Size_pos
      rw [size_nil, List.nil_append, takeBytes, if_neg (by omega)]
  | cons c piece ih =>
    rw [size_cons, List.cons_append, takeBytes, if_pos (by omega), Nat.add_sub_cancel_left, ih]

@[simp] theorem between_append (before piece rest : List Char) :
    between (size before) (size before + size piece) (before ++ (piece ++ rest)) = piece := by
  rw [between, dropBytes?_append, Nat.add_sub_cancel_left]
  exact takeBytes_append piece rest

end Utf8

/-! ## Pieces -/

/-- **A piece of a line**: where it begins and ends, and what it was found to be. Blanks are not found to
be anything. -/
structure Piece where
  first : Nat
  last : Nat
  content : Option Content
  deriving DecidableEq, Repr

def Piece.text (line : List Char) (piece : Piece) : List Char := Utf8.between piece.first piece.last line

/-- **What a comment looks like.** A block comment ends with the first marker behind its opening. -/
inductive Discard.Written : Discard → List Char → Prop
  | line (body : List Char) : Written .lineComment ('/' :: '/' :: body)
  | block {inside : List Char} : ¬ ['*', '/'] <:+: inside ++ ['*'] →
      Written .blockComment ('/' :: '*' :: (inside ++ ['*', '/']))
  | openBlock {body : List Char} : ¬ ['*', '/'] <:+: body →
      Written .openBlockComment ('/' :: '*' :: body)

/-- **What a piece may be**: blanks, a comment, or the spelling of a token. -/
def Spelled : Option Content → List Char → Prop
  | none, text => Text.Blank text
  | some (.discard comment), text => comment.Written text
  | some (.token kind), text => text = kind.spelling

/-- **Pieces that follow each other** from one position to another: none is empty, and each begins where
the one before it ends. -/
def Consecutive : Nat → List Piece → Nat → Prop
  | first, [], last => first = last
  | first, piece :: pieces, last =>
    piece.first = first ∧ piece.first < piece.last ∧ Consecutive piece.last pieces last

/-- The piece of blanks between two positions, unless there are none. -/
def blankPieces (first last : Nat) : List Piece := if first < last then [⟨first, last, none⟩] else []

theorem Front.spelled {rule : IdentifierRule} {content : Content} {piece rest : List Char}
    (front : Front rule content piece rest) : Spelled (some content) piece := by
  cases content with
  | token kind => exact front.eq_spelling rfl
  | discard comment =>
    cases front with
    | lineComment body => exact .line body
    | blockComment _ first => exact .block first
    | openBlockComment unclosed => exact .openBlock unclosed

/-! ## Pieces from their texts

Positions are sums of sizes. A list of texts, put down one after the other from some position, becomes a
list of pieces, and everything about positions is said of such a list. -/

/-- Texts and what they were found to be, put down one after the other. -/
def place : Nat → List (Option Content × List Char) → List Piece
  | _, [] => []
  | first, (content, text) :: parts =>
    ⟨first, first + Utf8.size text, content⟩ :: place (first + Utf8.size text) parts

theorem place_append (first : Nat) (some others : List (Option Content × List Char)) :
    place first (some ++ others) =
      place first some ++ place (first + Utf8.size (some.map Prod.snd).flatten) others := by
  induction some generalizing first with
  | nil => rfl
  | cons part some ih =>
    rw [List.cons_append, place, place, ih, List.map_cons, List.flatten_cons, Utf8.size_append,
      Nat.add_assoc]
    rfl

theorem consecutive_place {parts : List (Option Content × List Char)}
    (nonempty : ∀ part ∈ parts, part.2 ≠ []) (first : Nat) :
    Consecutive first (place first parts) (first + Utf8.size (parts.map Prod.snd).flatten) := by
  induction parts generalizing first with
  | nil => rfl
  | cons part parts ih =>
    have positive := Utf8.size_pos (nonempty part List.mem_cons_self)
    have later := ih (fun other member => nonempty other (List.mem_cons_of_mem part member))
      (first + Utf8.size part.2)
    rw [List.map_cons, List.flatten_cons, Utf8.size_append, ← Nat.add_assoc]
    exact ⟨rfl, Nat.lt_add_of_pos_right positive, later⟩

/-- The line has the texts where they were put. -/
theorem texts_place (before : List Char) (parts : List (Option Content × List Char)) :
    (place (Utf8.size before) parts).map
        (fun piece => (piece.content, piece.text (before ++ (parts.map Prod.snd).flatten))) = parts := by
  induction parts generalizing before with
  | nil => rfl
  | cons part parts ih =>
    have later := ih (before ++ part.2)
    rw [Utf8.size_append, List.append_assoc] at later
    rw [place, List.map_cons, List.map_cons, List.flatten_cons, Piece.text, Utf8.between_append]
    exact congrArg (part :: ·) later

@[simp] theorem filterMap_content_place (first : Nat) (parts : List (Option Content × List Char)) :
    (place first parts).filterMap Piece.content = parts.filterMap Prod.fst := by
  induction parts generalizing first with
  | nil => rfl
  | cons part parts ih => rw [place, List.filterMap_cons, List.filterMap_cons, ih]

theorem exists_blankPieces {run : List Char} (blank : Text.Blank run) (first : Nat) :
    ∃ parts, blankPieces first (first + Utf8.size run) = place first parts ∧
      (parts.map Prod.snd).flatten = run ∧ (∀ part ∈ parts, part.2 ≠ [] ∧ Spelled part.1 part.2) ∧
      parts.filterMap Prod.fst = [] := by
  by_cases empty : run = []
  · subst empty
    exact ⟨[], by rw [blankPieces, if_neg (by simp)]; rfl, rfl, List.forall_mem_nil _, rfl⟩
  · have positive := Utf8.size_pos empty
    exact ⟨[(none, run)], by rw [blankPieces, if_pos (by omega)]; rfl, by simp,
      List.forall_mem_singleton.mpr ⟨empty, blank⟩, rfl⟩

namespace LineCursor

theorem bytesLeft_behind_lexeme {rule : IdentifierRule} {cursor there : LineCursor} {lexeme : Lexeme}
    (skipped : cursor.skipBlank? = some there) (before : ¬ there.atEnd = true)
    (found : classify rule (there.remaining?.getD []) = some lexeme) :
    (there.advance lexeme.length).bytesLeft < cursor.bytesLeft := by
  have fewer := bytesLeft_skipBlank? skipped
  have positive := classify_length_pos found
  rw [bytesLeft_advance]
  simp only [atEnd, decide_eq_true_eq, Nat.not_le] at before
  simp only [bytesLeft] at fewer ⊢
  omega

/-- **The pieces of what remains of a line**: blanks are skipped and lexemes passed as a step does it, and
the positions are written down. -/
def pieces (rule : IdentifierRule) (cursor : LineCursor) : List Piece :=
  match _ : cursor.skipBlank? with
  | none => []
  | some there =>
    let blanks := blankPieces cursor.position there.position
    if _ : there.atEnd then blanks
    else
      match _ : classify rule (there.remaining?.getD []) with
      | none => blanks
      | some lexeme =>
        let behind := there.advance lexeme.length
        blanks ++ ⟨there.position, behind.position, some lexeme.content⟩ :: pieces rule behind
termination_by cursor.bytesLeft
decreasing_by exact bytesLeft_behind_lexeme (by assumption) (by assumption) (by assumption)

variable {rule : IdentifierRule} {cursor : LineCursor}

theorem position_advance {piece rest : List Char} (remaining : cursor.remaining? = some (piece ++ rest)) :
    (cursor.advance (Utf8.size piece)).position = cursor.position + Utf8.size piece := by
  have counted := size_of_remaining? remaining
  rw [Utf8.size_append] at counted
  simp only [advance, bytesLeft]
  omega

/-- Where blanks are all that remains, they are the only piece. -/
theorem pieces_of_blank {run : List Char} (remaining : cursor.remaining? = some run)
    (blank : Text.Blank run) :
    cursor.pieces rule = blankPieces cursor.position (cursor.position + Utf8.size run) := by
  have whole : cursor.remaining? = some (run ++ []) := by rw [List.append_nil, remaining]
  have skipped := skipBlank?_append whole blank (.nil Text.isBlank)
  have ended := atEnd_nil (remaining?_advance whole)
  rw [pieces]
  split
  · rename_i none
    rw [none] at skipped
    cases skipped
  · rename_i there found
    rw [found] at skipped
    cases skipped
    rw [dif_pos ended, position_advance whole]

/-- Where blanks and a lexeme come first, they are the first pieces, and the others are those of what
remains behind them. -/
theorem pieces_of_lexeme {run piece rest : List Char} {content : Content}
    (remaining : cursor.remaining? = some (run ++ (piece ++ rest))) (blank : Text.Blank run)
    (front : Front rule content piece rest) :
    ∃ behind : LineCursor, behind.remaining? = some rest ∧
      behind.position = cursor.position + Utf8.size run + Utf8.size piece ∧
      cursor.pieces rule = blankPieces cursor.position (cursor.position + Utf8.size run) ++
        ⟨cursor.position + Utf8.size run, behind.position, some content⟩ :: behind.pieces rule := by
  obtain ⟨c, tail, rfl, visible⟩ := front.head
  have skipped := skipBlank?_append remaining blank (.cons visible (tail ++ rest))
  have there := remaining?_advance remaining
  have before := atEnd_cons there
  have found := classify_front front
  have position := position_advance there
  rw [position_advance remaining] at position
  refine ⟨_, remaining?_advance there, position, ?_⟩
  rw [pieces]
  split
  · rename_i none
    rw [none] at skipped
    cases skipped
  · rename_i next same
    rw [same] at skipped
    cases skipped
    rw [dif_neg (by rw [before]; exact Bool.false_ne_true)]
    split
    · rename_i none
      rw [there, Option.getD_some, found] at none
      cases none
    · rename_i lexeme same
      rw [there, Option.getD_some, found] at same
      cases same
      rw [position_advance remaining]

/-- **The pieces of what remains** are parts of it, put down from where the cursor is: together they are
what remains, each is what it was found to be, and those that are not blank are its contents. -/
theorem exists_parts (rule : IdentifierRule) (text : List Char) {cursor : LineCursor}
    (remaining : cursor.remaining? = some text) :
    ∃ parts, cursor.pieces rule = place cursor.position parts ∧ (parts.map Prod.snd).flatten = text ∧
      (∀ part ∈ parts, part.2 ≠ [] ∧ Spelled part.1 part.2) ∧
      parts.filterMap Prod.fst = contents rule text := by
  induction text using lexemeInduction rule generalizing cursor with
  | blank run none =>
    rw [pieces_of_blank remaining none, contents_of_blank rule none]
    exact exists_blankPieces none cursor.position
  | lexeme run content piece rest before front ih =>
    -- The blanks and the lexeme become parts of their own in front of those of the text behind them.
    obtain ⟨behind, left, position, cut⟩ := pieces_of_lexeme remaining before front
    obtain ⟨blanks, blanksPlaced, blanksText, blanksSpelled, blanksFound⟩ :=
      exists_blankPieces before cursor.position
    obtain ⟨parts, placed, text, spelled, found⟩ := ih left
    have nonempty : piece ≠ [] := by
      obtain ⟨c, tail, rfl, -⟩ := front.head
      exact List.cons_ne_nil c tail
    refine ⟨blanks ++ (some content, piece) :: parts, ?_, ?_, ?_, ?_⟩
    · rw [cut, blanksPlaced, placed, place_append, blanksText, place, position]
    · rw [List.map_append, List.flatten_append, blanksText, List.map_cons, List.flatten_cons, text]
    · intro part member
      rcases List.mem_append.mp member with blank | later
      · exact blanksSpelled part blank
      · rcases List.mem_cons.mp later with rfl | behind
        · exact ⟨nonempty, front.spelled⟩
        · exact spelled part behind
    · rw [List.filterMap_append, blanksFound, contents_append before front, ← found]
      rfl

theorem filterMap_content_pieces (rule : IdentifierRule) {text : List Char}
    (remaining : cursor.remaining? = some text) :
    (cursor.pieces rule).filterMap Piece.content = contents rule text := by
  obtain ⟨parts, placed, -, -, found⟩ := exists_parts rule text remaining
  rw [placed, ← found, filterMap_content_place]

/-- **From the start of a line** its pieces follow each other to its end and are what the line is made
of. -/
theorem pieces_of_start (rule : IdentifierRule) (start : cursor.position = 0)
    (remaining : cursor.remaining? = some cursor.text) :
    Consecutive 0 (cursor.pieces rule) (Utf8.size cursor.text) ∧
      ((cursor.pieces rule).map (Piece.text cursor.text)).flatten = cursor.text ∧
      ∀ piece ∈ cursor.pieces rule, Spelled piece.content (piece.text cursor.text) := by
  obtain ⟨parts, placed, whole, spelled, -⟩ := exists_parts rule cursor.text remaining
  rw [start] at placed
  have texts := texts_place [] parts
  rw [List.nil_append, whole, Utf8.size_nil, ← placed] at texts
  refine ⟨?_, ?_, fun piece member => ?_⟩
  · have follow := consecutive_place (fun part member => (spelled part member).1) 0
    rwa [← placed, whole, Nat.zero_add] at follow
  · calc ((cursor.pieces rule).map (Piece.text cursor.text)).flatten
        = (parts.map Prod.snd).flatten := by
          rw [← texts, List.map_map]
          rfl
      _ = cursor.text := whole
  · have part := List.mem_map_of_mem
      (f := fun piece : Piece => (piece.content, piece.text cursor.text)) member
    rw [texts] at part
    exact (spelled _ part).2

theorem load_start (cursor : LineCursor) (raw : List Char) :
    (cursor.load raw).1.position = 0 ∧ (cursor.load raw).1.remaining? = some (cursor.load raw).1.text := by
  have kept : ∀ (next : LineCursor) (text : List Char), next.position = 0 →
      next.remaining? = some next.text →
      (next.keep text).1.position = 0 ∧ (next.keep text).1.remaining? = some (next.keep text).1.text := by
    intro next text position remaining
    unfold keep
    split
    · exact ⟨position, remaining⟩
    · exact ⟨position, remaining⟩
    · exact ⟨rfl, rfl⟩
  simp only [load]
  split
  · split
    · exact ⟨rfl, rfl⟩
    · exact kept _ _ rfl rfl
  · exact kept _ _ rfl rfl

end LineCursor

/-! ## Tokens -/

namespace Tokenizer

theorem tokens_foldl_absorb (found : List Content) (t : Tokenizer) :
    (found.foldl absorb t).tokens.toList =
      t.tokens.toList ++ (found.filterMap Content.kind?).map fun kind => ⟨kind, t.cursor.line⟩ := by
  induction found generalizing t with
  | nil => simp
  | cons content found ih =>
    rw [List.foldl_cons, ih, filterMap_kind?_cons, List.map_append, ← List.append_assoc]
    rcases content with kind | (_ | _ | _)
    · simp [absorb, emit, note, Content.kind?]
    · simp [absorb, Content.kind?]
    · simp [absorb, Content.kind?]
    · simp [absorb, note, LineCursor.enterBlockComment, Content.kind?]

/-- **A line that is kept** is loaded in one step, and the steps behind it append the tokens of its
pieces. -/
theorem reaches_pieces {tree : FileTree} {t : Tokenizer} {file next : SourceFile} {raw : List Char}
    (phase : t.phase = .lineEmpty file) (read : file.readLine tree = (next, .ok (some raw)))
    (kept : (t.cursor.load raw).2 = true) :
    let loaded := (t.cursor.load raw).1
    ∃ buffered final, t.step tree = (buffered, .working) ∧ buffered.phase = .lineBuffered next ∧
      buffered.cursor = loaded ∧ Reaches tree buffered final ∧ final.phase = .lineEmpty next ∧
      final.tokens.toList = t.tokens.toList ++
        (((loaded.pieces t.policy.identifiers).filterMap Piece.content).filterMap Content.kind?).map
          fun kind => ⟨kind, loaded.line⟩ := by
  intro loaded
  let buffered : Tokenizer := { t with cursor := loaded, state := .lineBuffered, file := some next }
  have stepped : t.step tree = (buffered, .working) := by
    rw [step_loaded phase read, loading, kept]
    rfl
  obtain ⟨final, reached, settled⟩ :=
    reaches_lexemes tree loaded.text (rfl : buffered.policy.identifiers = _) rfl (t.cursor.load_start raw).2
  have tokens : final.settle.tokens = _ := congrArg Tokenizer.tokens settled
  refine ⟨buffered, final, stepped, rfl, rfl, reached, congrArg Tokenizer.phase settled, ?_⟩
  rw [LineCursor.filterMap_content_pieces _ (t.cursor.load_start raw).2]
  exact (congrArg Array.toList tokens).trans (tokens_foldl_absorb (contents _ loaded.text) buffered.settle)

end Tokenizer

/-! ## As many visible characters as tokens -/

/-- How many characters of a text are not blank. -/
def visibleCount (text : List Char) : Nat := text.countP fun c => !Text.isBlank c

/-- Each token of a line takes a visible character of it. -/
theorem length_kinds_le_visibleCount (rule : IdentifierRule) (text : List Char) :
    ((contents rule text).filterMap Content.kind?).length ≤ visibleCount text := by
  induction text using lexemeInduction rule with
  | blank run none =>
    rw [contents_of_blank rule none]
    exact Nat.zero_le _
  | lexeme run content piece rest before front ih =>
    obtain ⟨c, tail, rfl, visible⟩ := front.head
    have atMost : content.kind?.toList.length ≤ 1 := by cases content <;> simp [Content.kind?]
    rw [contents_append before front, filterMap_kind?_cons, List.length_append]
    simp only [visibleCount, List.countP_append, List.countP_cons, visible] at ih ⊢
    simp only [Bool.not_false, if_true]
    omega

theorem length_kindsByLine_le_visibleCount (rule : IdentifierRule) (inComment : Bool)
    (lines : List (List Char)) :
    (kindsByLine rule inComment lines).flatten.length ≤ visibleCount lines.flatten := by
  induction lines generalizing inComment with
  | nil => exact Nat.zero_le _
  | cons raw lines ih =>
    have line : (lineKinds rule inComment raw).length ≤ visibleCount raw := by
      rw [lineKinds, lineContents]
      cases found : codeOf inComment raw with
      | none => exact Nat.zero_le _
      | some code =>
        exact Nat.le_trans (length_kinds_le_visibleCount rule code)
          ((codeOf_suffix found).sublist.countP_le)
    have later := ih (leavesOpen rule inComment raw)
    rw [kindsByLine, List.flatten_cons, List.flatten_cons, List.length_append]
    simp only [visibleCount, List.countP_append] at line later ⊢
    omega

@[simp] theorem Tokenizer.length_numbered (line : UInt32) (kinds : List (List Kind)) :
    (numbered line kinds).length = kinds.flatten.length := by
  induction kinds generalizing line with
  | nil => rfl
  | cons first rest ih => simp [numbered, ih]

/-! ## The law -/

/-- **Nothing of a line is lost.** The steps over a line that is kept cut it into pieces that follow each
other from its first byte to its last; together they are the line, and each is a run of blanks, a comment,
or the spelling of a token. A tokenizer that has loaded the line goes through it and appends the tokens of
these pieces, in order. So a run over a file yields no more tokens than the file has visible characters. -/
theorem pieces_lossless :
    (∀ (rule : IdentifierRule) (cursor : LineCursor) (raw : List Char), (cursor.load raw).2 = true →
      let loaded := (cursor.load raw).1
      let pieces := loaded.pieces rule
      Consecutive 0 pieces (Utf8.size loaded.text) ∧
      (pieces.map (Piece.text loaded.text)).flatten = loaded.text ∧
      (∀ piece ∈ pieces, Spelled piece.content (piece.text loaded.text)) ∧
      ∀ (tree : FileTree) (t : Tokenizer) (file next : SourceFile),
        t.policy.identifiers = rule → t.cursor = cursor → t.phase = .lineEmpty file →
        file.readLine tree = (next, .ok (some raw)) →
        ∃ buffered final, t.step tree = (buffered, .working) ∧ buffered.phase = .lineBuffered next ∧
          buffered.cursor = loaded ∧ Tokenizer.Reaches tree buffered final ∧
          final.phase = .lineEmpty next ∧
          final.tokens.toList = t.tokens.toList ++
            ((pieces.filterMap Piece.content).filterMap Content.kind?).map
              fun kind => ⟨kind, loaded.line⟩) ∧
    ∀ (tree : FileTree) (policy : Policy) (path : String) (text : List Char),
      tree.readText path = .ok text →
      ∃ final, (Tokenizer.ofQueue policy [path]).tokenizeAll tree = (final, .ok final.tokens) ∧
        final.tokens.size ≤ visibleCount text := by
  refine ⟨fun rule cursor raw kept => ?_, fun tree policy path text readable => ?_⟩
  · intro loaded pieces
    obtain ⟨start, remaining⟩ := cursor.load_start raw
    obtain ⟨follow, whole, spelled⟩ := loaded.pieces_of_start rule start remaining
    refine ⟨follow, whole, spelled, fun tree t file next identifiers same phase read => ?_⟩
    subst identifiers same
    exact Tokenizer.reaches_pieces phase read kept
  · obtain ⟨final, ran, tokens⟩ := Tokenizer.tokenizeAll_single policy readable
    refine ⟨final, ran, ?_⟩
    rw [← Array.length_toList, tokens, Tokenizer.textTokens, Tokenizer.length_numbered]
    have bounded := length_kindsByLine_le_visibleCount policy.identifiers false (Text.lines text)
    rwa [Text.flatten_lines] at bounded

/-- A line that ends a comment, and holds a string with a character of two bytes, a comment, a number and
a quotation mark without a partner. -/
def narrowLine : List Char := " b*/\"é//\"/**/ 7\" //".toList

/-- The law at a line with pieces of every kind, inside a comment, and at the file that holds the line and
nothing else. -/
theorem pieces_lossless_narrowLine :
    let tree := FileTree.ofTexts [("Main.jack", narrowLine)]
    let cursor := LineCursor.start [] 1 true
    let loaded := (cursor.load narrowLine).1
    (cursor.load narrowLine).2 = true ∧ tree.readText "Main.jack" = .ok narrowLine ∧
      loaded.pieces .alphanumeric =
        [⟨0, 6, some (.token (.stringConstant "é//"))⟩, ⟨6, 10, some (.discard .blockComment)⟩,
          ⟨10, 11, none⟩, ⟨11, 12, some (.token (.integerConstant "7"))⟩,
          ⟨12, 13, some (.token (.symbol '"'))⟩, ⟨13, 14, none⟩,
          ⟨14, 16, some (.discard .lineComment)⟩] ∧
      ((loaded.pieces .alphanumeric).map (Piece.text loaded.text)).flatten = loaded.text ∧
      (∃ (t buffered final : Tokenizer), t.step tree = (buffered, .working) ∧
        Tokenizer.Reaches tree buffered final ∧
        final.tokens.toList =
          [⟨.stringConstant "é//", 2⟩, ⟨.integerConstant "7", 2⟩, ⟨.symbol '"', 2⟩]) ∧
      ∃ final, (Tokenizer.ofQueue {} ["Main.jack"]).tokenizeAll tree = (final, .ok final.tokens) ∧
        final.tokens.size ≤ 16 := by
  intro tree cursor loaded
  have kept : (cursor.load narrowLine).2 = true := by decide +kernel
  have readable : tree.readText "Main.jack" = .ok narrowLine := rfl
  obtain ⟨file, bytes, -, holds, spelled, -, -⟩ := SourceFile.openAt_of_readText readable
  obtain ⟨last, ended, reads, -, -⟩ := SourceFile.reads_lines holds spelled
  have single : Text.lines narrowLine = [narrowLine] := by decide +kernel
  rw [single] at reads
  obtain ⟨next, read⟩ : ∃ next, file.readLine tree = (next, .ok (some narrowLine)) := by
    cases reads with
    | cons read _ => exact ⟨_, read⟩
  let t : Tokenizer :=
    { Tokenizer.ofQueue {} [] with cursor := cursor, state := .lineEmpty, file := some file }
  obtain ⟨-, whole, -, driven⟩ := pieces_lossless.1 .alphanumeric cursor narrowLine kept
  obtain ⟨buffered, final, stepped, -, -, reached, -, tokens⟩ := driven tree t file next rfl rfl rfl read
  obtain ⟨last, ran, few⟩ := pieces_lossless.2 tree {} "Main.jack" narrowLine readable
  refine ⟨kept, readable, by decide +kernel, whole, ?_, last, ran, few⟩
  refine ⟨t, buffered, final, stepped, reached, ?_⟩
  have appended : (((loaded.pieces .alphanumeric).filterMap Piece.content).filterMap Content.kind?).map
      (fun kind => (⟨kind, loaded.line⟩ : Token)) =
        [⟨.stringConstant "é//", 2⟩, ⟨.integerConstant "7", 2⟩, ⟨.symbol '"', 2⟩] := by decide +kernel
  exact tokens.trans appended

end JackTokens
