import JackTokens.Proofs.Lossless
import JackTokens.Proofs.Shapes
import Mathlib.Data.List.Infix

/-!
# What a text begins with

`classify` is a table of rules, each with a search of its own. This module says what it decides in the words of
a reader of the text: the longest word, the longest number, the first mark that closes, and otherwise one
character. `Begins` is that description. It speaks of all fronts of the text at once (`LongestFront`) and of
all places of a mark (`FirstMark`), never of a scan from left to right, and each of its clauses says that the
clauses before it do not apply.

**Totality** (`classify_determined`). Nothing is found exactly if the text is empty or blank at its front.
Otherwise something is found, and a lexeme is found if and only if the text begins with it: there is one such
lexeme, it takes at least the first character and at most the text, and it ends between two characters.

**Self-delimitation** (`classify_self_delimiting`). A lexeme needs nothing of what stands behind it: cut off there,
the text begins with the same lexeme. A token also stays the same before a blank and any text without a
quotation mark, which is all that could make more of it.

Both go through `Front`, which knows the text behind a lexeme; `Front.begins` and `Begins.front` say that the two
descriptions agree.
-/

namespace JackTokens

/-! ## Fronts and marks -/

/-- **The longest front** of a text that is in a class of texts. -/
structure LongestFront (inClass : List Char → Prop) (text piece : List Char) : Prop where
  front : piece <+: text
  within : inClass piece
  longest : ∀ other, other <+: text → inClass other → other.length ≤ piece.length

/-- **The first mark** in a text that starts at byte `least` or later: what stands before it. -/
structure FirstMark (mark : List Char) (least : Nat) (text before : List Char) : Prop where
  marked : before ++ mark <+: text
  later : least ≤ Utf8.size before
  first : ∀ other, other ++ mark <+: text → least ≤ Utf8.size other → Utf8.size before ≤ Utf8.size other

/-- **A number**: ASCII digits, and at least one. -/
def Text.IsNumber (digits : List Char) : Prop := digits ≠ [] ∧ ∀ c ∈ digits, c.isDigit = true

/-- A text that begins with a word, with a string that is closed, or with a number. -/
def OpensWord (rule : IdentifierRule) (text : List Char) : Prop := ∃ word, word <+: text ∧ rule.IsWord word

def OpensString (text : List Char) : Prop := ∃ rest, text = '"' :: rest ∧ '"' ∈ rest

def OpensNumber (text : List Char) : Prop := ∃ digits, digits <+: text ∧ Text.IsNumber digits

/-- **A text that only the last rule is for**: it begins with no word, no string and no number. -/
structure Leftover (rule : IdentifierRule) (text : List Char) : Prop where
  noWord : ¬ OpensWord rule text
  noString : ¬ OpensString text
  noNumber : ¬ OpensNumber text

/-- **What a text begins with**, and the piece of the text that it is made of. -/
inductive Begins (rule : IdentifierRule) (text : List Char) : Content → List Char → Prop
  | keyword {word : List Char} {k : Keyword} :
      LongestFront rule.IsWord text word → k.spelling = String.ofList word →
      Begins rule text (.token (.keyword k)) word
  | identifier {word : List Char} :
      LongestFront rule.IsWord text word → (∀ k : Keyword, k.spelling ≠ String.ofList word) →
      Begins rule text (.token (.identifier (String.ofList word))) word
  | string {inside : List Char} :
      ¬ OpensWord rule text → FirstMark ['"'] 1 text ('"' :: inside) →
      Begins rule text (.token (.stringConstant (String.ofList inside))) ('"' :: inside ++ ['"'])
  | integer {digits : List Char} :
      ¬ OpensWord rule text → ¬ OpensString text → LongestFront Text.IsNumber text digits →
      Begins rule text (.token (.integerConstant (String.ofList digits))) digits
  | lineComment : Leftover rule text → ['/', '/'] <+: text → Begins rule text (.discard .lineComment) text
  | blockComment {inside : List Char} :
      Leftover rule text → FirstMark ['*', '/'] 2 text ('/' :: '*' :: inside) →
      Begins rule text (.discard .blockComment) ('/' :: '*' :: inside ++ ['*', '/'])
  | openBlockComment :
      Leftover rule text → ['/', '*'] <+: text →
      (∀ before, before ++ ['*', '/'] <+: text → Utf8.size before < 2) →
      Begins rule text (.discard .openBlockComment) text
  | symbol {c : Char} {rest : List Char} :
      Leftover rule text → text = c :: rest → Text.isBlank c = false →
      ¬ ['/', '/'] <+: text → ¬ ['/', '*'] <+: text →
      Begins rule text (.token (.symbol c)) [c]

/-! ## Words -/

theorem IdentifierRule.isWord_iff {rule : IdentifierRule} {word : List Char} :
    rule.IsWord word ↔
      ∃ c tail, word = c :: tail ∧ rule.starts c = true ∧ ∀ d ∈ tail, rule.continues d = true := by
  constructor
  · intro isWord
    cases rule with
    | alphanumeric =>
      cases word with
      | nil => exact isWord.elim
      | cons c tail =>
        refine ⟨c, tail, rfl, starts_iff.mpr (isWord.1.imp_right fun underscore => ⟨rfl, underscore⟩), ?_⟩
        intro d member
        rw [continues_iff]
        rcases isWord.2 d member with letter | digit | underscore
        · exact .inl letter
        · exact .inr ⟨rfl, .inr digit⟩
        · exact .inr ⟨rfl, .inl underscore⟩
    | alphabetic =>
      obtain ⟨c, tail, rfl⟩ := List.exists_cons_of_ne_nil isWord.1
      refine ⟨c, tail, rfl, starts_iff.mpr (.inl (isWord.2 c List.mem_cons_self)), fun d member => ?_⟩
      exact continues_iff.mpr (.inl (isWord.2 d (List.mem_cons_of_mem c member)))
  · rintro ⟨c, tail, rfl, first, inside⟩
    exact isWord_cons first inside

/-- A text begins with a word if its first character starts one. -/
@[simp] theorem opensWord_cons {rule : IdentifierRule} {c : Char} {rest : List Char} :
    OpensWord rule (c :: rest) ↔ rule.starts c = true := by
  constructor
  · rintro ⟨word, front, isWord⟩
    obtain ⟨d, tail, rfl, first, -⟩ := IdentifierRule.isWord_iff.mp isWord
    rwa [(List.cons_prefix_cons.mp front).1] at first
  · intro first
    exact ⟨[c], ⟨rest, rfl⟩, IdentifierRule.isWord_iff.mpr ⟨c, [], rfl, first, List.forall_mem_nil _⟩⟩

@[simp] theorem opensNumber_cons {c : Char} {rest : List Char} :
    OpensNumber (c :: rest) ↔ c.isDigit = true := by
  constructor
  · rintro ⟨digits, front, nonempty, inside⟩
    obtain ⟨d, tail, rfl⟩ := List.exists_cons_of_ne_nil nonempty
    rw [← (List.cons_prefix_cons.mp front).1]
    exact inside d List.mem_cons_self
  · intro digit
    exact ⟨[c], ⟨rest, rfl⟩, List.cons_ne_nil c [], by simpa using digit⟩

@[simp] theorem leftover_cons {rule : IdentifierRule} {c : Char} {rest : List Char} :
    Leftover rule (c :: rest) ↔
      rule.starts c = false ∧ c.isDigit = false ∧ (c = '"' → '"' ∉ rest) := by
  constructor
  · intro leftover
    refine ⟨?_, ?_, ?_⟩
    · rw [← Bool.not_eq_true]
      exact fun first => leftover.noWord (opensWord_cons.mpr first)
    · rw [← Bool.not_eq_true]
      exact fun digit => leftover.noNumber (opensNumber_cons.mpr digit)
    · rintro rfl closed
      exact leftover.noString ⟨rest, rfl, closed⟩
  · rintro ⟨noWord, noDigit, noString⟩
    refine ⟨fun word => ?_, ?_, fun number => ?_⟩
    · rw [opensWord_cons.mp word] at noWord
      cases noWord
    · rintro ⟨behind, same, closed⟩
      obtain ⟨rfl, rfl⟩ := List.cons.inj same
      exact noString rfl closed
    · rw [opensNumber_cons.mp number] at noDigit
      cases noDigit

theorem leftover_slash (rule : IdentifierRule) (rest : List Char) : Leftover rule ('/' :: rest) := by
  refine leftover_cons.mpr ⟨?_, rfl, fun quote => ?_⟩
  · cases rule <;> rfl
  · cases quote

/-! ## Longest fronts

Words and numbers are runs of a class of characters. A run is the longest front exactly if the class stops
behind it. -/

theorem longestFront_append {inClass : List Char → Prop} {p : Char → Bool} {piece rest : List Char}
    (run : ∀ other, inClass other → ∀ c ∈ other, p c = true) (within : inClass piece)
    (stop : Text.StopsAt p rest) : LongestFront inClass (piece ++ rest) piece where
  front := List.prefix_append piece rest
  within := within
  longest := by
    intro other front inside
    refine Nat.not_lt.mp fun long => ?_
    -- A longer front would go on with the first character behind the run.
    obtain ⟨more, rfl⟩ :=
      List.prefix_of_prefix_length_le (List.prefix_append piece rest) front (Nat.le_of_lt long)
    cases more with
    | nil => simp at long
    | cons d more =>
      obtain ⟨behind, rfl⟩ := (List.prefix_append_right_inj piece).mp front
      have stopped := stop d rfl
      rw [run _ inside d (by simp)] at stopped
      cases stopped

theorem LongestFront.exists_rest {inClass : List Char → Prop} {p : Char → Bool} {text piece : List Char}
    (longest : LongestFront inClass text piece)
    (grow : ∀ d, p d = true → inClass (piece ++ [d])) :
    ∃ rest, text = piece ++ rest ∧ Text.StopsAt p rest := by
  obtain ⟨rest, rfl⟩ := longest.front
  refine ⟨rest, rfl, fun d front => ?_⟩
  rw [← Bool.not_eq_true]
  intro next
  obtain ⟨behind, rfl⟩ := List.head?_eq_some_iff.mp front
  have short := longest.longest (piece ++ [d]) ⟨behind, by simp⟩ (grow d next)
  rw [List.length_append, List.length_singleton] at short
  omega

namespace IdentifierRule

theorem continues_of_isWord {rule : IdentifierRule} {word : List Char} (isWord : rule.IsWord word) :
    ∀ c ∈ word, rule.continues c = true := by
  obtain ⟨c, tail, rfl, first, inside⟩ := isWord_iff.mp isWord
  exact List.forall_mem_cons.mpr ⟨continues_of_starts first, inside⟩

theorem isWord_append {rule : IdentifierRule} {word : List Char} (isWord : rule.IsWord word) {d : Char}
    (next : rule.continues d = true) : rule.IsWord (word ++ [d]) := by
  obtain ⟨c, tail, rfl, first, inside⟩ := isWord_iff.mp isWord
  refine isWord_iff.mpr ⟨c, tail ++ [d], rfl, first, ?_⟩
  intro e member
  rcases List.mem_append.mp member with before | last
  · exact inside e before
  · rwa [List.mem_singleton.mp last]

end IdentifierRule

theorem Text.isNumber_append {digits : List Char} (number : IsNumber digits) {d : Char}
    (next : d.isDigit = true) : IsNumber (digits ++ [d]) := by
  refine ⟨by simp, fun e member => ?_⟩
  rcases List.mem_append.mp member with before | last
  · exact number.2 e before
  · rwa [List.mem_singleton.mp last]

/-! ## First marks -/

namespace Utf8

theorem size_le_of_isPrefix {first second : List Char} (front : first <+: second) :
    size first ≤ size second := by
  obtain ⟨rest, rfl⟩ := front
  rw [size_append]
  omega

/-- Of two fronts of a text the one with fewer bytes has fewer characters. -/
theorem length_le_of_size_le {first second text : List Char} (front : first <+: text) (front' : second <+: text)
    (smaller : size first ≤ size second) : first.length ≤ second.length := by
  refine Nat.not_lt.mp fun long => ?_
  obtain ⟨more, rfl⟩ := List.prefix_of_prefix_length_le front' front (Nat.le_of_lt long)
  have some : more ≠ [] := by
    rintro rfl
    simp at long
  have positive := size_pos some
  rw [size_append] at smaller
  omega

end Utf8

/-- **A first mark behind a lead** closes what holds no mark, not even one that the closing mark completes. -/
theorem firstMark_iff (lead : List Char) {mark text inside : List Char} (nonempty : mark ≠ []) :
    FirstMark mark (Utf8.size lead) text (lead ++ inside) ↔
      (∃ rest, text = lead ++ (inside ++ (mark ++ rest))) ∧ ¬ mark <:+: inside ++ mark.dropLast := by
  have most : mark.dropLast <+: mark := List.dropLast_prefix mark
  have one : mark.dropLast.length + 1 = mark.length := by
    have := List.length_pos_iff.mpr nonempty
    rw [List.length_dropLast]
    omega
  constructor
  · intro found
    obtain ⟨rest, whole⟩ := found.marked
    refine ⟨⟨rest, by rw [← whole]; simp⟩, ?_⟩
    rintro ⟨before, behind, earlier⟩
    -- An earlier mark would have fewer bytes before it.
    have front : lead ++ before ++ mark <+: text := by
      have inner : before ++ mark <+: inside ++ mark.dropLast := ⟨behind, earlier⟩
      have outer : lead ++ (inside ++ mark.dropLast) <+: text := by
        rw [← whole, List.append_assoc, List.append_assoc]
        refine (List.prefix_append_right_inj lead).mpr ((List.prefix_append_right_inj inside).mpr ?_)
        exact most.trans (List.prefix_append mark rest)
      rw [List.append_assoc]
      exact ((List.prefix_append_right_inj lead).mpr inner).trans outer
    have fewer := found.first (lead ++ before) front (by rw [Utf8.size_append]; omega)
    have short := Utf8.length_le_of_size_le ((List.prefix_append _ mark).trans found.marked)
      ((List.prefix_append _ mark).trans front) fewer
    have count := congrArg List.length earlier
    simp only [List.length_append] at short count
    omega
  · rintro ⟨⟨rest, rfl⟩, unmarked⟩
    refine ⟨⟨rest, by simp⟩, by rw [Utf8.size_append]; omega, fun other front later => ?_⟩
    refine Nat.not_lt.mp fun fewer => unmarked ?_
    have start : other <+: lead ++ (inside ++ (mark ++ rest)) := (List.prefix_append other mark).trans front
    obtain ⟨before, rfl⟩ := List.prefix_of_prefix_length_le (List.prefix_append lead _) start
      (Utf8.length_le_of_size_le (List.prefix_append lead _) start later)
    rw [List.append_assoc, List.prefix_append_right_inj] at front
    -- The other mark ends before the last character of this one.
    have short : before.length < inside.length := by
      refine Nat.not_le.mp fun long => ?_
      have all := List.prefix_of_prefix_length_le (List.prefix_append inside _)
        ((List.prefix_append before mark).trans front) long
      have bytes := Utf8.size_le_of_isPrefix all
      rw [Utf8.size_append, Utf8.size_append] at fewer
      omega
    have close : inside ++ mark.dropLast <+: inside ++ (mark ++ rest) :=
      (List.prefix_append_right_inj inside).mpr (most.trans (List.prefix_append mark rest))
    obtain ⟨behind, same⟩ := List.prefix_of_prefix_length_le front close (by
      rw [List.length_append, List.length_append]
      omega)
    exact ⟨before, behind, same⟩

/-- No mark stands behind a lead if the text behind it holds none. -/
theorem unmarked_iff (lead : List Char) {mark body : List Char} :
    (∀ before, before ++ mark <+: lead ++ body → Utf8.size before < Utf8.size lead) ↔ ¬ mark <:+: body := by
  constructor
  · rintro none ⟨before, behind, rfl⟩
    have fewer := none (lead ++ before) ⟨behind, by simp⟩
    rw [Utf8.size_append] at fewer
    omega
  · intro unmarked other front
    refine Nat.not_le.mp fun later => unmarked ?_
    have start : other <+: lead ++ body := (List.prefix_append other mark).trans front
    obtain ⟨before, rfl⟩ := List.prefix_of_prefix_length_le (List.prefix_append lead body) start
      (Utf8.length_le_of_size_le (List.prefix_append lead body) start later)
    rw [List.append_assoc, List.prefix_append_right_inj] at front
    obtain ⟨behind, same⟩ := front
    exact ⟨before, behind, same⟩

/-! ## The two descriptions agree -/

@[simp] theorem Keyword.ofSpelling?_spelling (k : Keyword) : ofSpelling? k.spelling = some k := by
  cases k <;> rfl

theorem wordKind_of_spelling {word : List Char} {k : Keyword} (spelled : k.spelling = String.ofList word) :
    wordKind word = .keyword k := by
  rw [wordKind, ← spelled, Keyword.ofSpelling?_spelling]

theorem wordKind_of_ne {word : List Char} (none : ∀ k : Keyword, k.spelling ≠ String.ofList word) :
    wordKind word = .identifier (String.ofList word) := by
  unfold wordKind
  split
  · rename_i k found
    exact absurd (Keyword.spelling_of_ofSpelling? found) (none k)
  · rfl

/-- The longest word is a reserved word or an identifier. -/
theorem LongestFront.begins {rule : IdentifierRule} {text word : List Char}
    (longest : LongestFront rule.IsWord text word) : Begins rule text (.token (wordKind word)) word := by
  cases reserved : Keyword.ofSpelling? (String.ofList word) with
  | some k =>
    have spelled := Keyword.spelling_of_ofSpelling? reserved
    rw [wordKind_of_spelling spelled]
    exact .keyword longest spelled
  | none =>
    have other := Keyword.spelling_ne_of_ofSpelling? reserved
    rw [wordKind_of_ne other]
    exact .identifier longest other

/-- **What stands in front of a text is what it begins with.** -/
theorem Front.begins {rule : IdentifierRule} {content : Content} {piece rest : List Char}
    (front : Front rule content piece rest) : Begins rule (piece ++ rest) content piece := by
  cases front with
  | word first inside stop =>
    exact (longestFront_append (fun _ => IdentifierRule.continues_of_isWord)
      (IdentifierRule.isWord_cons first inside) stop).begins
  | @string inside _ closed =>
    have noWord : rule.starts '"' = false := by cases rule <;> rfl
    refine .string (fun opens => ?_) ?_
    · rw [opensWord_cons.mp opens] at noWord
      cases noWord
    · refine (firstMark_iff ['"'] (List.cons_ne_nil _ _)).mpr ⟨⟨rest, by simp⟩, ?_⟩
      rwa [List.dropLast_singleton, List.append_nil, List.singleton_infix_iff]
  | @integer c digits _ digit inside stop =>
    refine .integer (fun opens => ?_) ?_ (longestFront_append (fun _ number => number.2)
      ⟨List.cons_ne_nil _ _, List.forall_mem_cons.mpr ⟨digit, inside⟩⟩ stop)
    · have noWord := rule.starts_eq_false_of_isDigit digit
      rw [opensWord_cons.mp opens] at noWord
      cases noWord
    · rintro ⟨behind, same, -⟩
      obtain ⟨rfl, -⟩ := List.cons.inj same
      cases digit
  | lineComment body =>
    rw [List.append_nil]
    exact .lineComment (leftover_slash rule _) ⟨body, rfl⟩
  | @blockComment inside _ earliest =>
    refine .blockComment (leftover_slash rule _) ?_
    exact (firstMark_iff ['/', '*'] (List.cons_ne_nil _ _)).mpr ⟨⟨rest, by simp⟩, earliest⟩
  | @openBlockComment body unclosed =>
    rw [List.append_nil]
    exact .openBlockComment (leftover_slash rule _) ⟨body, rfl⟩
      ((unmarked_iff ['/', '*']).mpr unclosed)
  | @symbol c _ lone =>
    have slashed : ∀ d, [c, d] <+: [c] ++ rest → d ∈ rest.head? := by
      rintro d ⟨behind, same⟩
      rw [List.singleton_append, List.cons_append, List.cons.injEq] at same
      rw [← same.2]
      rfl
    refine .symbol (leftover_cons.mpr ⟨lone.noWord, lone.noDigit, lone.noString⟩) rfl lone.visible ?_ ?_
    · intro comment
      obtain rfl := (List.cons_prefix_cons.mp comment).1
      exact (lone.noComment rfl '/' (slashed '/' comment)).1 rfl
    · intro comment
      obtain rfl := (List.cons_prefix_cons.mp comment).1
      exact (lone.noComment rfl '*' (slashed '*' comment)).2 rfl

/-- **What a text begins with stands in front of it.** -/
theorem Begins.front {rule : IdentifierRule} {text : List Char} {content : Content} {piece : List Char}
    (begins : Begins rule text content piece) : ∃ rest, text = piece ++ rest ∧ Front rule content piece rest := by
  have ofWord {word : List Char} (longest : LongestFront rule.IsWord text word) :
      ∃ rest, text = word ++ rest ∧ Front rule (.token (wordKind word)) word rest := by
    obtain ⟨rest, whole, stop⟩ := longest.exists_rest fun d => IdentifierRule.isWord_append longest.within
    obtain ⟨c, tail, rfl, first, inside⟩ := IdentifierRule.isWord_iff.mp longest.within
    exact ⟨rest, whole, .word first inside stop⟩
  cases begins with
  | keyword longest spelled => exact wordKind_of_spelling spelled ▸ ofWord longest
  | identifier longest other => exact wordKind_of_ne other ▸ ofWord longest
  | @string inside _ found =>
    obtain ⟨⟨rest, whole⟩, closed⟩ := (firstMark_iff ['"'] (List.cons_ne_nil _ _)).mp found
    rw [List.dropLast_singleton, List.append_nil, List.singleton_infix_iff] at closed
    exact ⟨rest, by simpa using whole, .string rest closed⟩
  | integer _ _ longest =>
    obtain ⟨rest, whole, stop⟩ := longest.exists_rest fun d => Text.isNumber_append longest.within
    obtain ⟨c, tail, rfl⟩ := List.exists_cons_of_ne_nil longest.within.1
    exact ⟨rest, whole, .integer (longest.within.2 c List.mem_cons_self)
      (fun d member => longest.within.2 d (List.mem_cons_of_mem c member)) stop⟩
  | lineComment _ opens =>
    obtain ⟨body, rfl⟩ := opens
    exact ⟨[], by simp, .lineComment body⟩
  | blockComment _ found =>
    obtain ⟨⟨rest, whole⟩, earliest⟩ := (firstMark_iff ['/', '*'] (List.cons_ne_nil _ _)).mp found
    exact ⟨rest, by simpa using whole, .blockComment rest earliest⟩
  | openBlockComment _ opens none =>
    obtain ⟨body, rfl⟩ := opens
    exact ⟨[], by simp, .openBlockComment ((unmarked_iff ['/', '*']).mp none)⟩
  | symbol leftover whole visible noLine noBlock =>
    subst whole
    obtain ⟨noWord, noDigit, noString⟩ := leftover_cons.mp leftover
    refine ⟨_, rfl, .symbol ⟨visible, noWord, noDigit, noString, ?_⟩⟩
    rintro rfl d front
    obtain ⟨behind, rfl⟩ := List.head?_eq_some_iff.mp front
    constructor
    · rintro rfl
      exact noLine ⟨behind, rfl⟩
    · rintro rfl
      exact noBlock ⟨behind, rfl⟩

/-! ## What is found -/

theorem classify_of_isBlank (rule : IdentifierRule) {c : Char} (blank : Text.isBlank c = true)
    (rest : List Char) : classify rule (c :: rest) = none := by
  have noWord : rule.starts c = false := by
    rw [← Bool.not_eq_true]
    intro first
    rw [IdentifierRule.isBlank_eq_false_of_starts first] at blank
    cases blank
  have noString : c = '"' → '"' ∉ rest := by
    rintro rfl
    cases blank
  have noComment : comment? (c :: rest) = none := by
    unfold comment?
    split
    · rename_i same
      cases same
      cases blank
    · rename_i same
      cases same
      cases blank
    · rfl
  rw [classify_of_starts_eq_false noWord, stringConstant?_eq_none noString,
    integerConstant?_eq_none (Text.isDigit_eq_false_of_isBlank blank), Rule.symbol?, noComment]
  simp [blank]

/-- **A lexeme that is found** stands in front of the text. -/
theorem exists_front_of_classify {rule : IdentifierRule} {text : List Char} {lexeme : Lexeme}
    (found : classify rule text = some lexeme) :
    ∃ piece rest, text = piece ++ rest ∧ Front rule lexeme.content piece rest ∧
      lexeme = ⟨lexeme.content.rule, Utf8.size piece, lexeme.content⟩ := by
  cases text with
  | nil => cases found
  | cons c text =>
    cases blank : Text.isBlank c with
    | true =>
      rw [classify_of_isBlank rule blank] at found
      cases found
    | false =>
      obtain ⟨content, piece, rest, whole, front⟩ := exists_front rule blank text
      rw [whole, classify_front front, Option.some.injEq] at found
      subst found
      exact ⟨piece, rest, whole, front, rfl⟩

/-- **Classification is total and makes progress.** Nothing is found exactly if the text is empty or begins with
a blank. A lexeme is found exactly if it is what the text begins with; it takes the first character at least
and the text at most, and ends between two characters. -/
theorem classify_determined (rule : IdentifierRule) (text : List Char) :
    (classify rule text = none ↔ text = [] ∨ ∃ c rest, text = c :: rest ∧ Text.isBlank c = true) ∧
    ∀ lexeme : Lexeme, classify rule text = some lexeme ↔
      ∃ c tail rest, text = (c :: tail) ++ rest ∧ Begins rule text lexeme.content (c :: tail) ∧
        lexeme.rule = lexeme.content.rule ∧ lexeme.length = Utf8.size (c :: tail) ∧
        c.utf8Size ≤ lexeme.length ∧ lexeme.length ≤ Utf8.size text := by
  constructor
  · constructor
    · intro none
      cases text with
      | nil => exact .inl rfl
      | cons c text =>
        refine .inr ⟨c, text, rfl, ?_⟩
        rw [← Bool.not_eq_false]
        intro visible
        obtain ⟨content, piece, rest, whole, front⟩ := exists_front rule visible text
        rw [whole, classify_front front] at none
        cases none
    · rintro (rfl | ⟨c, rest, rfl, blank⟩)
      · rfl
      · exact classify_of_isBlank rule blank rest
  · intro lexeme
    constructor
    · intro found
      obtain ⟨piece, rest, rfl, front, measured⟩ := exists_front_of_classify found
      obtain ⟨c, tail, rfl, -⟩ := front.head
      have length : lexeme.length = Utf8.size (c :: tail) := congrArg Lexeme.length measured
      refine ⟨c, tail, rest, rfl, front.begins, congrArg Lexeme.rule measured, length, ?_, ?_⟩
      · rw [length, Utf8.size_cons]
        omega
      · rw [length, Utf8.size_append]
        omega
    · rintro ⟨c, tail, rest, -, begins, ruled, measured, -⟩
      obtain ⟨behind, whole, front⟩ := begins.front
      rw [whole, classify_front front, ← ruled, ← measured]

/-- **Lexemes delimit themselves.** The text can be cut behind a lexeme, and the front alone is the same lexeme. A
token is also the same before any blank and any text without a quotation mark. -/
theorem classify_self_delimiting {rule : IdentifierRule} {text : List Char} {lexeme : Lexeme}
    (found : classify rule text = some lexeme) :
    Utf8.takeBytes lexeme.length text <+: text ∧
    Utf8.size (Utf8.takeBytes lexeme.length text) = lexeme.length ∧
    classify rule (Utf8.takeBytes lexeme.length text) = some lexeme ∧
    ∀ kind, lexeme.content = .token kind → ∀ w, Text.isBlank w = true → ∀ rest, '"' ∉ rest →
      classify rule (Utf8.takeBytes lexeme.length text ++ w :: rest) = some lexeme := by
  obtain ⟨piece, rest, rfl, front, measured⟩ := exists_front_of_classify found
  have cut : Utf8.takeBytes lexeme.length (piece ++ rest) = piece := by
    rw [measured, Utf8.takeBytes_append]
  rw [cut]
  refine ⟨List.prefix_append piece rest, by rw [measured], ?_, fun kind token w blank rest unquoted => ?_⟩
  · have alone := classify_front front.alone
    rw [List.append_nil] at alone
    rw [alone, ← measured]
  · rw [token] at front
    have before := classify_front (front.alone.before_blank blank fun _ => unquoted)
    rw [before, ← token, ← measured]

/-- A quotation mark that nothing closes, before an ideographic space and the opening of a comment; and a comment
that is cut off. -/
theorem classify_self_delimiting_openQuote :
    classify .alphanumeric "\"a b".toList = some ⟨.symbol, 1, .token (.symbol '"')⟩ ∧
    classify .alphanumeric ['"', '\u3000', '/', '*'] = some ⟨.symbol, 1, .token (.symbol '"')⟩ ∧
    classify .alphabetic "/*é*/ x".toList = some ⟨.symbol, 6, .discard .blockComment⟩ ∧
    classify .alphabetic "/*é*/".toList = some ⟨.symbol, 6, .discard .blockComment⟩ := by
  have quote : classify .alphanumeric "\"a b".toList = some ⟨.symbol, 1, .token (.symbol '"')⟩ := by
    decide +kernel
  have comment : classify .alphabetic "/*é*/ x".toList = some ⟨.symbol, 6, .discard .blockComment⟩ := by
    decide +kernel
  refine ⟨quote, ?_, comment, ?_⟩
  · exact (classify_self_delimiting quote).2.2.2 _ rfl '\u3000' (by decide) ['/', '*'] (by decide)
  · have cut : Utf8.takeBytes 6 "/*é*/ x".toList = "/*é*/".toList := by decide +kernel
    rw [← cut]
    exact (classify_self_delimiting comment).2.2.1

end JackTokens
