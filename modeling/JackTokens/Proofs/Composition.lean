import JackTokens.Proofs.Run

/-!
# A unit is its files, one after the other

One cursor, one counter and one line buffer serve all the files of a queue. Nothing of them leaks from one
file into the next but the counter, and that only where the whole unit is numbered through.

**The law** (`tokenizeAll_eq_flatten_alone`): the stream of a unit is the concatenation of what separate,
fresh runs over its files yield, with the lines of each file moved on by the lines of the files before it
under global numbering, and not at all where each file is numbered on its own. The same holds file by
file: the tokens that a record cuts out of the stream are those of the separate run, moved on.

The files may end anywhere: inside a comment, without a newline, or before their first line. What makes
the law hold is in `Tokenizer.reaches_file`, which starts from any state between two files; here the
numbers are worked out.

**Where a unit is cut** (`tokenizeAll_joined`) makes no difference, if it is numbered through: two files have
the stream of one file that holds both texts. The first must end with a line and outside of comments. A line
that goes on in the second file would be two lines, and a comment that goes on would be none.
-/

namespace JackTokens.Tokenizer

variable {tree : FileTree}

/-- A stream with its lines moved on. -/
def moveOn (lines : Nat) (stream : List (Kind × Nat)) : List (Kind × Nat) :=
  stream.map fun (kind, line) => (kind, line + lines)

/-- By how much the lines of the `i`-th file are moved on, for the texts of a unit. -/
def lineOffset (numbering : LineNumbering) (texts : List (List Char)) (i : Nat) : Nat :=
  match numbering with
  | .global => ((texts.take i).flatMap Text.lines).length
  | .perFile => 0

/-- What a fresh run over a single file yields. -/
def aloneStream (tree : FileTree) (policy : Policy) (path : String) : List (Kind × Nat) :=
  ((ofQueue policy [path]).tokenizeAll tree).1.tokens.toList.map Token.located

@[simp] theorem moveOn_moveOn (first second : Nat) (stream : List (Kind × Nat)) :
    moveOn second (moveOn first stream) = moveOn (first + second) stream := by
  simp [moveOn, Nat.add_assoc]

@[simp] theorem moveOn_append (lines : Nat) (first second : List (Kind × Nat)) :
    moveOn lines (first ++ second) = moveOn lines first ++ moveOn lines second :=
  List.map_append

theorem placed_eq_moveOn (line : Nat) (kinds : List (List Kind)) :
    placed line kinds = moveOn line (placed 0 kinds) := by
  induction kinds generalizing line with
  | nil => rfl
  | cons first rest ih =>
    rw [placed, placed, ih (line + 1), ih (0 + 1), moveOn_append, moveOn_moveOn]
    congr 1
    · simp [moveOn, Nat.add_comm]
    · rw [Nat.add_comm line, Nat.zero_add]

/-- The tokens of a file counted on from a line are those counted from its start, moved on. -/
theorem located_textTokens (rule : IdentifierRule) {line : UInt32} {text : List Char}
    (few : line.toNat + (Text.lines text).length < UInt32.size) :
    (textTokens rule line text).map Token.located =
      moveOn line.toNat ((textTokens rule 0 text).map Token.located) := by
  have counted := length_kindsByLine rule false (Text.lines text)
  rw [located_textTokens_zero rule (by omega), textStream, ← placed_eq_moveOn]
  exact located_numbered (by omega)

theorem toNat_add_ofNat {line : UInt32} {count : Nat} (few : line.toNat + count < UInt32.size) :
    (line + UInt32.ofNat count).toNat = line.toNat + count := by
  have wide : UInt32.size = 2 ^ 32 := rfl
  rw [UInt32.toNat_add, UInt32.toNat_ofNat', Nat.mod_eq_of_lt (by omega), Nat.mod_eq_of_lt (by omega)]

theorem toNat_lineBase_le (numbering : LineNumbering) (line : UInt32) :
    (lineBase numbering line).toNat ≤ line.toNat := by
  cases numbering with
  | global => exact Nat.le_refl _
  | perFile => exact Nat.zero_le _

@[simp] theorem lineOffset_zero (numbering : LineNumbering) (texts : List (List Char)) :
    lineOffset numbering texts 0 = 0 := by
  cases numbering <;> rfl

theorem lineOffset_cons_succ (numbering : LineNumbering) {line : UInt32} {text : List Char}
    (few : line.toNat + (Text.lines text).length < UInt32.size) (texts : List (List Char)) (i : Nat) :
    (lineBase numbering line).toNat + lineOffset numbering (text :: texts) (i + 1) =
      (lineBase numbering (lineBase numbering line + UInt32.ofNat (Text.lines text).length)).toNat +
        lineOffset numbering texts i := by
  cases numbering with
  | global =>
    simp only [lineBase, lineOffset, List.take_succ_cons, List.flatMap_cons, List.length_append]
    rw [toNat_add_ofNat few, Nat.add_assoc]
  | perFile => rfl

/-- **The sections of a unit**, file by file: the tokens of each file counted from its start, moved on by
the lines before it. -/
theorem located_unitSections (policy : Policy) {line : UInt32} {texts : List (List Char)}
    (few : line.toNat + (texts.flatMap Text.lines).length < UInt32.size) :
    (unitSections policy line texts).map (List.map Token.located) =
      texts.mapIdx fun i text =>
        moveOn ((lineBase policy.lineNumbering line).toNat + lineOffset policy.lineNumbering texts i)
          ((textTokens policy.identifiers 0 text).map Token.located) := by
  induction texts generalizing line with
  | nil => rfl
  | cons text texts ih =>
    rw [List.flatMap_cons, List.length_append] at few
    -- The counter may be set back for a file, so what fits from where it is fits from there, too.
    have base := toNat_lineBase_le policy.lineNumbering line
    have fits : (lineBase policy.lineNumbering line).toNat + (Text.lines text).length < UInt32.size := by
      omega
    have first : line.toNat + (Text.lines text).length < UInt32.size := by omega
    have behind := toNat_add_ofNat fits
    have offsets := lineOffset_cons_succ policy.lineNumbering first texts
    rw [unitSections, List.map_cons, List.mapIdx_cons, located_textTokens _ fits, ih (by omega)]
    simp only [offsets]
    rw [lineOffset_zero, Nat.add_zero]

/-! ## The law -/

/-- **The sections that separate runs make up**: for each file of a unit, what a fresh run over it alone
yields, moved on to where the unit has got. -/
def aloneSections (tree : FileTree) (policy : Policy) (unit : List (String × List Char)) :
    List (List (Kind × Nat)) :=
  unit.mapIdx fun i file =>
    moveOn (lineOffset policy.lineNumbering (unit.map Prod.snd) i) (aloneStream tree policy file.1)

theorem aloneStream_eq (policy : Policy) {path : String} {text : List Char}
    (readable : tree.readText path = .ok text) :
    aloneStream tree policy path = (textTokens policy.identifiers 0 text).map Token.located := by
  obtain ⟨final, ran, tokens⟩ := tokenizeAll_single policy readable
  rw [aloneStream, ran, tokens]

/-- The sections of a run over a unit are those that separate runs make up. -/
theorem located_unitSections_eq_aloneSections (policy : Policy) {unit : List (String × List Char)}
    (readable : ∀ file ∈ unit, tree.readText file.1 = .ok file.2)
    (few : (unit.flatMap fun file => Text.lines file.2).length < UInt32.size) :
    (unitSections policy 0 (unit.map Prod.snd)).map (List.map Token.located) =
      aloneSections tree policy unit := by
  have total : (0 : UInt32).toNat + ((unit.map Prod.snd).flatMap Text.lines).length < UInt32.size := by
    rw [List.flatMap_map, UInt32.toNat_zero, Nat.zero_add]
    exact few
  rw [located_unitSections policy total]
  have start : (lineBase policy.lineNumbering 0).toNat = 0 :=
    Nat.le_zero.mp (toNat_lineBase_le policy.lineNumbering 0)
  refine List.ext_getElem (by simp [aloneSections]) fun i inside _ => ?_
  simp only [aloneSections, List.getElem_mapIdx, List.getElem_map, start, Nat.zero_add]
  rw [aloneStream_eq policy (readable _ (List.getElem_mem _))]

/-- **A unit is its files, one after the other.** A run over readable files ends without a failure, and so
does a fresh run over each of them. The stream of the unit is what the separate runs yield, one behind the
other, with the lines of each moved on by the lines of the files before it where the unit is numbered
through; and the tokens of a file are what its own run yields, moved on alike. -/
theorem tokenizeAll_eq_flatten_alone (policy : Policy) {unit : List (String × List Char)}
    (readable : ∀ file ∈ unit, tree.readText file.1 = .ok file.2)
    (few : (unit.flatMap fun file => Text.lines file.2).length < UInt32.size) :
    (∃ final, (ofQueue policy (unit.map Prod.fst)).tokenizeAll tree = (final, .ok final.tokens) ∧
      final.tokens.toList.map Token.located = (aloneSections tree policy unit).flatten ∧
      ∀ i, (final.tokensOf? i).map (List.map Token.located) = (aloneSections tree policy unit)[i]?) ∧
    ∀ file ∈ unit, ∃ alone, (ofQueue policy [file.1]).tokenizeAll tree = (alone, .ok alone.tokens) := by
  obtain ⟨final, ran, sections⟩ := tokenizeAll_unit policy readable
  have same := located_unitSections_eq_aloneSections policy readable few
  refine ⟨⟨final, ran, ?_, fun i => ?_⟩, fun file member => ?_⟩
  · rw [sections.tokens, List.map_flatten, same]
  · rw [sections.tokensOf?_eq, ← List.getElem?_map, same]
  · obtain ⟨alone, ran, -⟩ := tokenizeAll_single policy (readable file member)
    exact ⟨alone, ran⟩

/-- Files that end in every way: inside a comment and without a newline, before the first line, and with
text behind the last newline. -/
def brokenOff : List (String × List Char) :=
  [("A.jack", "a\n\n/* b".toList), ("B.jack", []), ("C.jack", "c */\nd".toList)]

/-- The law at files that end in every way. The comment that the first leaves open is not open in the
last, whose lines are counted on from the third. -/
theorem tokenizeAll_eq_flatten_alone_brokenOff :
    let tree := FileTree.ofTexts brokenOff
    (∀ file ∈ brokenOff, tree.readText file.1 = .ok file.2) ∧
      (brokenOff.flatMap fun file => Text.lines file.2).length < UInt32.size ∧
      ∃ final, (ofQueue {} ["A.jack", "B.jack", "C.jack"]).tokenizeAll tree = (final, .ok final.tokens) ∧
        final.tokens.toList.map Token.located =
          [(.identifier "a", 1), (.identifier "c", 4), (.symbol '*', 4), (.symbol '/', 4),
            (.identifier "d", 5)] ∧
        (final.tokensOf? 1).map (List.map Token.located) = some [] := by
  intro tree
  have readable : ∀ file ∈ brokenOff, tree.readText file.1 = .ok file.2 :=
    List.forall_mem_cons.mpr ⟨rfl, List.forall_mem_cons.mpr ⟨rfl, List.forall_mem_singleton.mpr rfl⟩⟩
  have few : (brokenOff.flatMap fun file => Text.lines file.2).length < UInt32.size := by decide
  obtain ⟨⟨final, ran, stream, sections⟩, -⟩ := tokenizeAll_eq_flatten_alone {} readable few
  rw [← located_unitSections_eq_aloneSections {} readable few] at stream sections
  refine ⟨readable, few, final, ran, stream.trans ?_, (sections 1).trans ?_⟩
  · decide +kernel
  · decide +kernel

/-! ## Where a unit is cut -/

/-- **Behind a text that ends with a line and outside of comments** the tokens are those of the rest, counted
on. -/
theorem textTokens_append {rule : IdentifierRule} {first : List Char}
    (ends : first = [] ∨ first.getLast? = some '\n')
    (closed : (Text.lines first).foldl (leavesOpen rule) false = false) (line : UInt32)
    (second : List Char) :
    textTokens rule line (first ++ second) =
      textTokens rule line first ++
        textTokens rule (line + UInt32.ofNat (Text.lines first).length) second := by
  rw [textTokens, Text.lines_append ends, kindsByLine_append, closed, numbered_append, length_kindsByLine]
  rfl

/-- A run over a readable file ends inside a comment if the lines of the file leave one open. -/
theorem inBlockComment_tokenizeAll (policy : Policy) {path : String} {text : List Char}
    (readable : tree.readText path = .ok text) :
    ((ofQueue policy [path]).tokenizeAll tree).1.cursor.inBlockComment =
      (Text.lines text).foldl (leavesOpen policy.identifiers) false := by
  have idle : (ofQueue policy [path]).phase = .idle := rfl
  obtain ⟨final, reached, between, -, empty, -, comment, -⟩ := reaches_file idle rfl readable
  rw [reached.tokenizeAll_of_idle between empty]
  exact comment

/-- **Where a unit is cut makes no difference.** Let a file be empty or end with a newline, and let a run over
it end outside of comments. Then a run over this file and another one, numbered through, yields the same
tokens on the same lines as a run over a file that holds both texts, one behind the other. -/
theorem tokenizeAll_joined {policy : Policy} (global : policy.lineNumbering = .global)
    {joinedTree : FileTree} {path path' joined : String} {first second : List Char}
    (readable : tree.readText path = .ok first) (readable' : tree.readText path' = .ok second)
    (readableJoined : joinedTree.readText joined = .ok (first ++ second))
    (ends : first = [] ∨ first.getLast? = some '\n')
    (closed : ((ofQueue policy [path]).tokenizeAll tree).1.cursor.inBlockComment = false) :
    ∃ apart together, (ofQueue policy [path, path']).tokenizeAll tree = (apart, .ok apart.tokens) ∧
      (ofQueue policy [joined]).tokenizeAll joinedTree = (together, .ok together.tokens) ∧
      apart.tokens = together.tokens := by
  have both : ∀ file ∈ [(path, first), (path', second)], tree.readText file.1 = .ok file.2 :=
    List.forall_mem_cons.mpr ⟨readable, List.forall_mem_singleton.mpr readable'⟩
  obtain ⟨apart, ran, sections⟩ := tokenizeAll_unit policy both
  obtain ⟨together, ranJoined, tokens⟩ := tokenizeAll_single policy readableJoined
  rw [inBlockComment_tokenizeAll policy readable] at closed
  refine ⟨apart, together, ran, ranJoined, Array.toList_inj.mp ?_⟩
  calc apart.tokens.toList
      = (unitSections policy 0 [first, second]).flatten := sections.tokens
    _ = textTokens policy.identifiers 0 first ++
          textTokens policy.identifiers (0 + UInt32.ofNat (Text.lines first).length) second := by
        simp [unitSections, lineBase, global]
    _ = textTokens policy.identifiers 0 (first ++ second) := (textTokens_append ends closed 0 second).symm
    _ = together.tokens.toList := tokens.symm

/-- A text that closes a comment on its last line, and one that begins with what could go on from it. -/
def halves : List Char × List Char := ("a /* b\n*/ 1\n".toList, "2 */\n\nc".toList)

/-- The law at two such texts: the number at the end of the first stays apart from the one that follows, and
the lines are counted on from the second. -/
theorem tokenizeAll_joined_halves :
    let tree := FileTree.ofTexts
      [("A.jack", halves.1), ("B.jack", halves.2), ("Both.jack", halves.1 ++ halves.2)]
    tree.readText "A.jack" = .ok halves.1 ∧ tree.readText "B.jack" = .ok halves.2 ∧
      tree.readText "Both.jack" = .ok (halves.1 ++ halves.2) ∧ halves.1.getLast? = some '\n' ∧
      ((ofQueue {} ["A.jack"]).tokenizeAll tree).1.cursor.inBlockComment = false ∧
      ∃ apart together, (ofQueue {} ["A.jack", "B.jack"]).tokenizeAll tree = (apart, .ok apart.tokens) ∧
        (ofQueue {} ["Both.jack"]).tokenizeAll tree = (together, .ok together.tokens) ∧
        apart.tokens = together.tokens ∧
        together.tokens.toList.map Token.located =
          [(.identifier "a", 1), (.integerConstant "1", 2), (.integerConstant "2", 3), (.symbol '*', 3),
            (.symbol '/', 3), (.identifier "c", 5)] := by
  intro tree
  have readable : tree.readText "A.jack" = .ok halves.1 := rfl
  have readable' : tree.readText "B.jack" = .ok halves.2 := rfl
  have readableBoth : tree.readText "Both.jack" = .ok (halves.1 ++ halves.2) := rfl
  have ends : halves.1.getLast? = some '\n' := by decide
  have closed : ((ofQueue {} ["A.jack"]).tokenizeAll tree).1.cursor.inBlockComment = false := by
    rw [inBlockComment_tokenizeAll {} readable]
    decide +kernel
  obtain ⟨apart, together, ran, ranBoth, same⟩ :=
    tokenizeAll_joined rfl readable readable' readableBoth (.inr ends) closed
  obtain ⟨other, ranOther, tokens⟩ := tokenizeAll_single {} readableBoth
  cases ranBoth.symm.trans ranOther
  refine ⟨readable, readable', readableBoth, ends, closed, apart, together, ran, ranBoth, same, ?_⟩
  rw [tokens]
  decide +kernel

end JackTokens.Tokenizer
