import JackTokens.Proofs.Run

/-!
# Line by line is the same as in one pass

A tokenizer cuts its text into lines, trims them, skips some, and carries a flag from line to line. The
scanner of this module does none of that. It goes through the undivided text once: blanks are passed,
comments are dropped wherever they end, a string is taken if it ends before the next newline, words and
numbers are taken as far as they go, and what is left stands for itself. The line of a token is one more
than the number of newlines before it, counted in the text itself.

**The law** (`tokenizeAll_eq_scan`): for a readable file with fewer lines than the counter can count, the
stream of the tokenizer is what the scanner finds, kinds and lines alike.

**How it goes.** In the middle of a text the scanner is in one of two states, in code or in a comment
(`goOn`). From either, it passes a line with the tokens of that line and comes to the state the line leaves
open (`goOn_line`); inside the line, one lexeme after the other (`goOn_front`). The newline stops every
word, every number and every search for a quotation mark, and it is no part of a marker; so it makes no
difference that the text goes on behind it.
-/

namespace JackTokens.OnePass

/-- The line on which a text goes on behind what was before it. -/
def lineBehind (before : List Char) : Nat := before.count '\n' + 1

/-- What is dropped from inside a block comment, up to the first end of it, and what stands behind. Where
there is no end everything is dropped. -/
def dropComment : List Char → List Char × List Char
  | [] => ([], [])
  | '*' :: '/' :: rest => (['*', '/'], rest)
  | c :: rest => (c :: (dropComment rest).1, (dropComment rest).2)

theorem length_dropComment (text : List Char) : (dropComment text).2.length ≤ text.length := by
  fun_induction dropComment text <;> simp_all <;> omega

/-- **The scanner.** It knows what it has passed, and finds what follows. -/
def scan (rule : IdentifierRule) (before : List Char) : List Char → List (Kind × Nat)
  | [] => []
  | c :: rest =>
    if Text.isBlank c then scan rule (before ++ [c]) rest
    else if c = '/' ∧ rest.head? = some '/' then
      scan rule (before ++ c :: rest.takeWhile (· != '\n')) (rest.dropWhile (· != '\n'))
    else if c = '/' ∧ rest.head? = some '*' then
      scan rule (before ++ c :: '*' :: (dropComment rest.tail).1) (dropComment rest.tail).2
    else if c = '"' ∧ '"' ∈ rest.takeWhile (· != '\n') then
      let inside := rest.takeWhile (· != '"')
      (.stringConstant (String.ofList inside), lineBehind before) ::
        scan rule (before ++ c :: (inside ++ ['"'])) (rest.dropWhile (· != '"')).tail
    else if rule.starts c then
      let word := c :: rest.takeWhile rule.continues
      (wordKind word, lineBehind before) :: scan rule (before ++ word) (rest.dropWhile rule.continues)
    else if c.isDigit then
      let digits := c :: rest.takeWhile Char.isDigit
      (.integerConstant (String.ofList digits), lineBehind before) ::
        scan rule (before ++ digits) (rest.dropWhile Char.isDigit)
    else (.symbol c, lineBehind before) :: scan rule (before ++ [c]) rest
termination_by text => text.length
decreasing_by
  · exact Nat.lt_succ_self _
  · exact Nat.lt_succ_of_le (List.dropWhile_suffix _).length_le
  · have dropped := length_dropComment rest.tail
    rw [List.length_tail] at dropped
    rw [List.length_cons]
    omega
  · have dropped := (List.dropWhile_suffix (l := rest) (· != '"')).length_le
    rw [List.length_tail, List.length_cons]
    omega
  · exact Nat.lt_succ_of_le (List.dropWhile_suffix _).length_le
  · exact Nat.lt_succ_of_le (List.dropWhile_suffix _).length_le
  · exact Nat.lt_succ_self _

/-! ## The scanner on a lexeme -/

variable {rule : IdentifierRule} {before : List Char}

theorem scan_blank {c : Char} (blank : Text.isBlank c = true) (rest : List Char) :
    scan rule before (c :: rest) = scan rule (before ++ [c]) rest := by
  rw [scan, if_pos blank]

theorem scan_blank_append {run : List Char} (blank : Text.Blank run) (rest : List Char) :
    scan rule before (run ++ rest) = scan rule (before ++ run) rest := by
  induction run generalizing before with
  | nil => rw [List.nil_append, List.append_nil]
  | cons c run ih =>
    rw [List.cons_append, scan_blank (blank c List.mem_cons_self),
      ih fun d member => blank d (List.mem_cons_of_mem c member), List.append_assoc,
      List.singleton_append]

theorem scan_lineComment {body tail : List Char} (oneLine : '\n' ∉ body)
    (ends : Text.StopsAt (· != '\n') tail) :
    scan rule before ('/' :: '/' :: (body ++ tail)) =
      scan rule (before ++ '/' :: '/' :: body) tail := by
  have whole : '\n' ∉ '/' :: body := by
    rw [List.mem_cons, not_or]
    exact ⟨by decide, oneLine⟩
  have inside := Text.bne_of_not_mem whole
  have taken := Text.takeWhile_append_stop inside ends
  have dropped := Text.dropWhile_append_stop inside ends
  rw [List.cons_append] at taken dropped
  rw [scan, if_neg (by decide), if_pos ⟨rfl, rfl⟩, taken, dropped]

theorem scan_blockComment (body : List Char) :
    scan rule before ('/' :: '*' :: body) =
      scan rule (before ++ '/' :: '*' :: (dropComment body).1) (dropComment body).2 := by
  rw [scan, if_neg (by decide), if_neg (fun both => by cases both.2), if_pos ⟨rfl, rfl⟩]
  rfl

/-- A quotation mark that another one closes on its line takes a string. -/
theorem scan_string {inside : List Char} (closed : '"' ∉ inside) (oneLine : '\n' ∉ inside)
    (rest : List Char) :
    scan rule before ('"' :: (inside ++ '"' :: rest)) =
      (.stringConstant (String.ofList inside), lineBehind before) ::
        scan rule (before ++ '"' :: (inside ++ ['"'])) rest := by
  have within := Text.bne_of_not_mem closed
  have onLine := Text.bne_of_not_mem oneLine
  have later : '"' ∈ (inside ++ '"' :: rest).takeWhile (· != '\n') := by
    rw [List.takeWhile_append_of_pos onLine, List.takeWhile_cons_of_pos rfl]
    simp
  have stop : Text.StopsAt (· != '"') ('"' :: rest) := .cons rfl rest
  rw [scan, if_neg (by decide), if_neg (fun both => by cases both.1),
    if_neg (fun both => by cases both.1), if_pos ⟨rfl, later⟩,
    Text.takeWhile_append_stop within stop, Text.dropWhile_append_stop within stop]
  rfl

/-- A character that opens neither a comment nor a string is the start of a word or of a number, or it
stands for itself. -/
theorem scan_other {c : Char} {rest : List Char} (visible : Text.isBlank c = false)
    (noComment : c = '/' → ∀ d ∈ rest.head?, d ≠ '/' ∧ d ≠ '*')
    (noString : c = '"' → '"' ∉ rest.takeWhile (· != '\n')) :
    scan rule before (c :: rest) =
      if rule.starts c then
        (wordKind (c :: rest.takeWhile rule.continues), lineBehind before) ::
          scan rule (before ++ c :: rest.takeWhile rule.continues) (rest.dropWhile rule.continues)
      else if c.isDigit then
        (.integerConstant (String.ofList (c :: rest.takeWhile Char.isDigit)), lineBehind before) ::
          scan rule (before ++ c :: rest.takeWhile Char.isDigit) (rest.dropWhile Char.isDigit)
      else (.symbol c, lineBehind before) :: scan rule (before ++ [c]) rest := by
  have slashes : ¬ (c = '/' ∧ rest.head? = some '/') := fun both =>
    (noComment both.1 '/' both.2).1 rfl
  have slashStar : ¬ (c = '/' ∧ rest.head? = some '*') := fun both =>
    (noComment both.1 '*' both.2).2 rfl
  have closed : ¬ (c = '"' ∧ '"' ∈ rest.takeWhile (· != '\n')) := fun both => noString both.1 both.2
  rw [scan, if_neg (by rw [visible]; decide), if_neg slashes, if_neg slashStar, if_neg closed]

theorem scan_word {c : Char} {word rest : List Char} (first : rule.starts c = true)
    (inside : ∀ d ∈ word, rule.continues d = true) (stop : Text.StopsAt rule.continues rest) :
    scan rule before (c :: (word ++ rest)) =
      (wordKind (c :: word), lineBehind before) :: scan rule (before ++ c :: word) rest := by
  have other : ∀ {d}, rule.starts d = false → c ≠ d := by
    rintro d none rfl
    rw [none] at first
    cases first
  have visible := IdentifierRule.isBlank_eq_false_of_starts first
  have slash : rule.starts '/' = false := by cases rule <;> rfl
  have quote : rule.starts '"' = false := by cases rule <;> rfl
  rw [scan_other visible (fun same => absurd same (other slash)) (fun same => absurd same (other quote)),
    if_pos first, Text.takeWhile_append_stop inside stop, Text.dropWhile_append_stop inside stop]

theorem scan_integer {c : Char} {digits rest : List Char} (digit : c.isDigit = true)
    (inside : ∀ d ∈ digits, d.isDigit = true) (stop : Text.StopsAt Char.isDigit rest) :
    scan rule before (c :: (digits ++ rest)) =
      (.integerConstant (String.ofList (c :: digits)), lineBehind before) ::
        scan rule (before ++ c :: digits) rest := by
  have other : ∀ {d : Char}, d.isDigit = false → c ≠ d := by
    rintro d none rfl
    rw [none] at digit
    cases digit
  have visible := Text.isBlank_eq_false_of_isDigit digit
  have noWord : ¬ rule.starts c = true := by rw [rule.starts_eq_false_of_isDigit digit]; decide
  rw [scan_other visible (fun same => absurd same (other rfl)) (fun same => absurd same (other rfl)),
    if_neg noWord, if_pos digit, Text.takeWhile_append_stop inside stop,
    Text.dropWhile_append_stop inside stop]

/-! ## In a comment -/

/-- **Going on**, in code or inside a block comment. -/
def goOn (rule : IdentifierRule) (inComment : Bool) (before text : List Char) : List (Kind × Nat) :=
  if inComment then scan rule (before ++ (dropComment text).1) (dropComment text).2
  else scan rule before text

theorem dropComment_cons {c : Char} {rest : List Char} (other : ¬ (c = '*' ∧ rest.head? = some '/')) :
    dropComment (c :: rest) = (c :: (dropComment rest).1, (dropComment rest).2) := by
  rw [dropComment]
  rintro body star rfl
  exact other ⟨star, rfl⟩

theorem dropComment_append {inside : List Char} (first : ¬ ['*', '/'] <:+: inside ++ ['*'])
    (rest : List Char) :
    dropComment (inside ++ '*' :: '/' :: rest) = (inside ++ ['*', '/'], rest) := by
  induction inside with
  | nil => rfl
  | cons c inside ih =>
    have other : ¬ (c = '*' ∧ (inside ++ '*' :: '/' :: rest).head? = some '/') := by
      rintro ⟨star, slash⟩
      cases inside with
      | nil => cases slash
      | cons d inside =>
        cases slash
        exact first (Text.marker_infix_cons_cons.mpr (.inl ⟨star, rfl⟩))
    have later : ¬ ['*', '/'] <:+: inside ++ ['*'] := fun marked =>
      first (List.infix_cons_iff.mpr (.inr marked))
    rw [List.cons_append, dropComment_cons other, ih later, List.cons_append]

/-- Without an end, and where none is completed, everything is dropped so far. -/
theorem dropComment_of_unmarked {body tail : List Char} (unmarked : ¬ ['*', '/'] <:+: body)
    (apart : tail.head? ≠ some '/') :
    dropComment (body ++ tail) = (body ++ (dropComment tail).1, (dropComment tail).2) := by
  induction body with
  | nil => rfl
  | cons c body ih =>
    have other : ¬ (c = '*' ∧ (body ++ tail).head? = some '/') := by
      rintro ⟨star, slash⟩
      cases body with
      | nil => exact apart slash
      | cons d body =>
        cases slash
        exact unmarked (Text.marker_infix_cons_cons.mpr (.inl ⟨star, rfl⟩))
    have later : ¬ ['*', '/'] <:+: body := fun marked =>
      unmarked (List.infix_cons_iff.mpr (.inr marked))
    rw [List.cons_append, dropComment_cons other, ih later, List.cons_append]

/-! ## The scanner on a line -/

/-- **The end of a line**: nothing, or a newline and what stands behind it. -/
def LineEnd (tail : List Char) : Prop := Text.StopsAt (· != '\n') tail

/-- A line that ends stops every class of characters that has no blanks. -/
theorem LineEnd.stopsAt {tail rest : List Char} (ends : LineEnd tail) {p : Char → Bool}
    (stop : Text.StopsAt p rest) (apart : p '\n' = false) : Text.StopsAt p (rest ++ tail) := by
  cases rest with
  | cons c rest => exact .cons (stop c rfl) (rest ++ tail)
  | nil =>
    cases tail with
    | nil => exact .nil p
    | cons c tail =>
      have newline : c = '\n' := by simpa using ends c rfl
      exact .cons (newline ▸ apart) tail

/-- **The scanner on a lexeme**, on a line that ends behind it. -/
theorem goOn_front {content : Content} {piece rest tail : List Char}
    (front : Front rule content piece rest) (oneLine : '\n' ∉ piece ++ rest) (ends : LineEnd tail) :
    scan rule before (piece ++ (rest ++ tail)) =
      content.kind?.toList.map (fun kind => (kind, lineBehind before)) ++
        goOn rule (.discard .openBlockComment == content) (before ++ piece) (rest ++ tail) := by
  rw [List.mem_append, not_or] at oneLine
  cases front with
  | word first inside stop =>
    exact scan_word first inside (ends.stopsAt stop (rule.continues_eq_false_of_isBlank rfl))
  | @string inside _ closed =>
    have within : '\n' ∉ inside := fun newline => oneLine.1 (by simp [newline])
    have taken : scan rule before ('"' :: (inside ++ '"' :: (rest ++ tail))) = _ :=
      scan_string closed within (rest ++ tail)
    rw [List.cons_append, List.append_assoc]
    exact taken
  | integer digit inside stop => exact scan_integer digit inside (ends.stopsAt stop rfl)
  | lineComment body =>
    have within : '\n' ∉ body := fun newline => oneLine.1 (by simp [newline])
    exact scan_lineComment within ends
  | @blockComment inside _ first =>
    have taken : scan rule before ('/' :: '*' :: (inside ++ '*' :: '/' :: (rest ++ tail))) = _ :=
      scan_blockComment (inside ++ '*' :: '/' :: (rest ++ tail))
    rw [dropComment_append first] at taken
    rw [List.cons_append, List.cons_append, List.append_assoc]
    exact taken
  | @openBlockComment body unclosed =>
    have apart : tail.head? ≠ some '/' := by
      intro slash
      cases ends '/' slash
    have taken : scan rule before ('/' :: '*' :: (body ++ tail)) = _ := scan_blockComment (body ++ tail)
    rw [dropComment_of_unmarked unclosed apart] at taken
    have dropped : goOn rule true (before ++ '/' :: '*' :: body) tail =
        scan rule (before ++ '/' :: '*' :: (body ++ (dropComment tail).1)) (dropComment tail).2 := by
      rw [goOn, if_pos rfl, List.append_assoc, List.cons_append, List.cons_append]
    exact taken.trans dropped.symm
  | @symbol c _ lone =>
    have within := Text.bne_of_not_mem oneLine.2
    have noString : c = '"' → '"' ∉ (rest ++ tail).takeWhile (· != '\n') := by
      rw [Text.takeWhile_append_stop within ends]
      exact lone.noString
    have noComment : c = '/' → ∀ d ∈ (rest ++ tail).head?, d ≠ '/' ∧ d ≠ '*' := by
      cases rest with
      | cons d rest => exact lone.noComment
      | nil =>
        intro _ d front
        have newline : d = '\n' := by simpa using ends d front
        subst newline
        decide
    have taken : scan rule before (c :: (rest ++ tail)) = _ :=
      scan_other lone.visible noComment noString
    rw [if_neg (by rw [lone.noWord]; decide), if_neg (by rw [lone.noDigit]; decide)] at taken
    exact taken

theorem lineBehind_append {piece : List Char} (oneLine : '\n' ∉ piece) (before : List Char) :
    lineBehind (before ++ piece) = lineBehind before := by
  rw [lineBehind, lineBehind, List.count_append, List.count_eq_zero.mpr oneLine, Nat.add_zero]

/-- **The scanner on a line of code**: it finds the tokens of the line, all on the line it is at, and goes
on behind it in the state the line leaves. -/
theorem scan_line {body tail : List Char} (oneLine : '\n' ∉ body) (ends : LineEnd tail)
    (before : List Char) :
    scan rule before (body ++ tail) =
      ((contents rule body).filterMap Content.kind?).map (fun kind => (kind, lineBehind before)) ++
        goOn rule ((contents rule body).contains (.discard .openBlockComment)) (before ++ body) tail := by
  induction body using lexemeInduction rule generalizing before with
  | blank run none =>
    rw [contents_of_blank rule none, scan_blank_append none]
    rfl
  | lexeme run content piece rest blank front ih =>
    simp only [List.mem_append, not_or] at oneLine
    obtain ⟨inRun, inPiece, inRest⟩ := oneLine
    have first : scan rule before (run ++ (piece ++ rest) ++ tail) =
        content.kind?.toList.map (fun kind => (kind, lineBehind before)) ++
          goOn rule (.discard .openBlockComment == content) (before ++ run ++ piece) (rest ++ tail) := by
      rw [List.append_assoc, List.append_assoc, scan_blank_append blank,
        goOn_front front (by simp [inPiece, inRest]) ends, lineBehind_append inRun]
    rw [first, contents_append blank front, filterMap_kind?_cons, List.map_append,
      List.append_assoc (content.kind?.toList.map _), List.contains_cons]
    congr 1
    cases isOpen : (Content.discard .openBlockComment == content) with
    | true =>
      -- A comment that is left open reaches to the end of the line.
      cases beq_iff_eq.mp isOpen
      cases front with
      | openBlockComment unclosed => simp [contents_of_blank rule .nil]
    | false =>
      have others := ih inRest (before ++ run ++ piece)
      rw [lineBehind_append inPiece, lineBehind_append inRun] at others
      rw [Bool.false_or, goOn, if_neg (by decide), others]
      simp only [List.append_assoc]

/-- **The scanner on a line**, in code or in a comment. -/
theorem goOn_line {body tail : List Char} (oneLine : '\n' ∉ body) (ends : LineEnd tail)
    (inComment : Bool) (before : List Char) :
    goOn rule inComment before (body ++ tail) =
      (lineKinds rule inComment body).map (fun kind => (kind, lineBehind before)) ++
        goOn rule (leavesOpen rule inComment body) (before ++ body) tail := by
  cases inComment with
  | false => exact scan_line oneLine ends before
  | true =>
    rcases Text.marker_cases '*' '/' body with unmarked | ⟨inside, code, rfl, first⟩
    · have apart : tail.head? ≠ some '/' := by
        intro slash
        cases ends '/' slash
      have none : codeOf true body = none := by
        rw [codeOf, if_pos rfl, Text.cutAt?_of_unmarked unmarked]
        rfl
      rw [goOn, if_pos rfl, dropComment_of_unmarked unmarked apart, lineKinds, lineContents, leavesOpen,
        none, goOn, if_pos rfl, List.append_assoc]
      rfl
    · have found : codeOf true (inside ++ '*' :: '/' :: code) = some code := by
        rw [codeOf, if_pos rfl, Text.cutAt?_append first]
        rfl
      simp only [List.mem_append, List.mem_cons, not_or] at oneLine
      obtain ⟨inInside, -, -, inCode⟩ := oneLine
      have here : lineBehind (before ++ (inside ++ ['*', '/'])) = lineBehind before :=
        lineBehind_append (by simp [inInside]) before
      have dropped := dropComment_append first (code ++ tail)
      rw [goOn, if_pos rfl, List.append_assoc, List.cons_append, List.cons_append, dropped, lineKinds,
        lineContents, leavesOpen, found, scan_line inCode ends, here]
      simp [List.append_assoc]

/-! ## The scanner on a text -/

@[simp] theorem goOn_nil (inComment : Bool) (before : List Char) : goOn rule inComment before [] = [] := by
  cases inComment <;> simp [goOn, dropComment, scan]

theorem goOn_newline (inComment : Bool) (before rest : List Char) :
    goOn rule inComment before ('\n' :: rest) = goOn rule inComment (before ++ ['\n']) rest := by
  cases inComment with
  | false => exact scan_blank rfl rest
  | true =>
    rw [goOn, if_pos rfl, dropComment_cons (fun both => by cases both.1), goOn, if_pos rfl,
      List.append_assoc, List.singleton_append]

/-- **The scanner on a text** finds the tokens of its lines, each on its own number. -/
theorem goOn_lines (text : List Char) (inComment : Bool) (before : List Char) :
    goOn rule inComment before text =
      Tokenizer.placed (before.count '\n') (kindsByLine rule inComment (Text.lines text)) := by
  induction text using Text.linesInduction generalizing inComment before with
  | nil => exact goOn_nil inComment before
  | last body oneLine nonempty =>
    have found : goOn rule inComment before (body ++ []) = _ :=
      goOn_line oneLine (.nil _) inComment before
    rw [List.append_nil, goOn_nil] at found
    rw [Text.lines_of_not_mem oneLine nonempty]
    exact found
  | line body rest oneLine ih =>
    have counted : ((before ++ body) ++ ['\n']).count '\n' = before.count '\n' + 1 := by
      rw [List.count_append, List.count_append, List.count_eq_zero.mpr oneLine]
      rfl
    rw [goOn_line oneLine (.cons rfl rest), goOn_newline, ih, counted, Text.lines_append_newline oneLine,
      kindsByLine, lineKinds_append_blank rule .newline, leavesOpen_append_blank rule .newline,
      Tokenizer.placed]
    rfl

/-- **Line by line is the same as in one pass.** The stream of a readable file is what the scanner finds in
its text. -/
theorem tokenizeAll_eq_scan {tree : FileTree} (policy : Policy) {path : String} {text : List Char}
    (readable : tree.readText path = .ok text) (few : (Text.lines text).length < UInt32.size) :
    ∃ final, (Tokenizer.ofQueue policy [path]).tokenizeAll tree = (final, .ok final.tokens) ∧
      final.tokens.toList.map Token.located = scan policy.identifiers [] text := by
  obtain ⟨final, run, tokens⟩ := Tokenizer.tokenizeAll_single policy readable
  refine ⟨final, run, ?_⟩
  calc final.tokens.toList.map Token.located
      = Tokenizer.textStream policy.identifiers text := by
        rw [tokens, Tokenizer.located_textTokens_zero _ few]
    _ = scan policy.identifiers [] text := (goOn_lines text false []).symm

/-- A text where a comment ends on another line, with a quotation mark before its end and a string that
looks like a comment behind it, a quotation mark without a partner, and a line that is skipped. -/
def mixedText : List Char := "x /* a\n\"*/ \"// s\" / \"\n//\n1y".toList

/-- The law at a text that mixes comments, strings and lines. -/
theorem tokenizeAll_eq_scan_mixedText :
    let tree := FileTree.ofTexts [("Main.jack", mixedText)]
    tree.readText "Main.jack" = .ok mixedText ∧ (Text.lines mixedText).length < UInt32.size ∧
      ∃ final, (Tokenizer.ofQueue {} ["Main.jack"]).tokenizeAll tree = (final, .ok final.tokens) ∧
        final.tokens.toList.map Token.located =
          [(.identifier "x", 1), (.stringConstant "// s", 2), (.symbol '/', 2), (.symbol '"', 2),
            (.integerConstant "1", 4), (.identifier "y", 4)] := by
  intro tree
  have readable : tree.readText "Main.jack" = .ok mixedText := rfl
  have few : (Text.lines mixedText).length < UInt32.size := by decide
  obtain ⟨final, run, found⟩ := tokenizeAll_eq_scan {} readable few
  exact ⟨readable, few, final, run, found.trans (by decide +kernel)⟩

end JackTokens.OnePass
