import JackTokens.Lexeme

/-!
# The front of a text

`classify` tries five rules in turn, and each of them computes a length in bytes and a token apart from
each other. This module says once what comes of it, without rules and without lengths: `Front` relates a
lexeme, the characters it is made of, and the text behind them.

**Both halves.** A text that is blank at its front has no front, and every other text has one
(`exists_front`). Whatever stands at the front is what `classify` finds, with the size of the piece as its
length (`classify_front`). So there is exactly one front, and later proofs take a text apart by cases on
`Front` and never open a rule.

**What the text behind is for.** A word or a number has to stop where it stops, a quotation mark is a
symbol only if no other follows, and a slash is one only if it opens no comment. These are the only ways
in which the text behind a lexeme has a say.

Two of the fronts are about a line: a line comment, and a block comment that is left open, reach to the
end of the text.
-/

namespace JackTokens

/-! ## Classes of characters -/

theorem isDigit_iff {c : Char} : c.isDigit = true ↔ 48 ≤ c.toNat ∧ c.toNat ≤ 57 := by
  simp [Char.isDigit, UInt32.le_iff_toNat_le]

theorem isAlpha_iff {c : Char} :
    c.isAlpha = true ↔ 65 ≤ c.toNat ∧ c.toNat ≤ 90 ∨ 97 ≤ c.toNat ∧ c.toNat ≤ 122 := by
  have upper : c.isUpper = true ↔ 65 ≤ c.toNat ∧ c.toNat ≤ 90 := by
    show decide ('A'.val ≤ c.val ∧ c.val ≤ 'Z'.val) = true ↔ _
    rw [decide_eq_true_iff]
    exact Iff.rfl
  have lower : c.isLower = true ↔ 97 ≤ c.toNat ∧ c.toNat ≤ 122 := by
    show (decide ('a'.val ≤ c.val) && decide (c.val ≤ 'z'.val)) = true ↔ _
    rw [Bool.and_eq_true, decide_eq_true_iff, decide_eq_true_iff]
    exact Iff.rfl
  show (c.isUpper || c.isLower) = true ↔ _
  rw [Bool.or_eq_true, upper, lower]

theorem eq_underscore_iff {c : Char} : c = '_' ↔ c.toNat = 95 := by
  constructor
  · rintro rfl
    rfl
  · intro number
    rw [← Char.ofNat_toNat c, number]

/-- Blanks are not among the characters that words and numbers are made of. -/
theorem Text.toNat_of_isBlank {c : Char} (blank : isBlank c = true) :
    c.toNat ≤ 32 ∨ 0x85 ≤ c.toNat := by
  simp [isBlank] at blank
  omega

namespace IdentifierRule

theorem starts_iff {rule : IdentifierRule} {c : Char} :
    rule.starts c = true ↔ c.isAlpha = true ∨ rule = .alphanumeric ∧ c = '_' := by
  cases rule <;> simp [starts, or_comm]

theorem continues_iff {rule : IdentifierRule} {c : Char} :
    rule.continues c = true ↔
      c.isAlpha = true ∨ rule = .alphanumeric ∧ (c = '_' ∨ c.isDigit = true) := by
  cases rule with
  | alphanumeric =>
    simp only [continues, Char.isAlphanum, Bool.or_eq_true, beq_iff_eq, true_and]
    exact or_left_comm
  | alphabetic => simp [continues]

theorem continues_of_starts {rule : IdentifierRule} {c : Char} (first : rule.starts c = true) :
    rule.continues c = true := by
  rw [starts_iff] at first
  rw [continues_iff]
  rcases first with letter | ⟨rule, underscore⟩
  · exact .inl letter
  · exact .inr ⟨rule, .inl underscore⟩

theorem starts_eq_false_of_isDigit (rule : IdentifierRule) {c : Char} (digit : c.isDigit = true) :
    rule.starts c = false := by
  rw [← Bool.not_eq_true, starts_iff, isAlpha_iff, eq_underscore_iff]
  rw [isDigit_iff] at digit
  omega

theorem continues_eq_false_of_isBlank (rule : IdentifierRule) {c : Char}
    (blank : Text.isBlank c = true) : rule.continues c = false := by
  have range := Text.toNat_of_isBlank blank
  rw [← Bool.not_eq_true, continues_iff, isAlpha_iff, eq_underscore_iff, isDigit_iff]
  omega

theorem isBlank_eq_false_of_starts {rule : IdentifierRule} {c : Char} (first : rule.starts c = true) :
    Text.isBlank c = false := by
  rw [← Bool.not_eq_true]
  intro blank
  have inside := continues_of_starts first
  rw [rule.continues_eq_false_of_isBlank blank] at inside
  cases inside

end IdentifierRule

theorem Text.isDigit_eq_false_of_isBlank {c : Char} (blank : isBlank c = true) :
    c.isDigit = false := by
  have range := toNat_of_isBlank blank
  rw [← Bool.not_eq_true, isDigit_iff]
  omega

theorem Text.isBlank_eq_false_of_isDigit {c : Char} (digit : c.isDigit = true) : isBlank c = false := by
  rw [← Bool.not_eq_true]
  intro blank
  rw [isDigit_eq_false_of_isBlank blank] at digit
  cases digit

/-! ## Runs and markers -/

namespace Text

/-- **A class of characters stops here**: no character of it stands at the front. -/
def StopsAt (p : Char → Bool) (rest : List Char) : Prop := ∀ c ∈ rest.head?, p c = false

theorem StopsAt.nil (p : Char → Bool) : StopsAt p [] := by
  intro c none
  cases none

theorem StopsAt.cons {p : Char → Bool} {c : Char} (other : p c = false) (rest : List Char) :
    StopsAt p (c :: rest) := by
  intro d front
  cases front
  exact other

theorem StopsAt.dropWhile (p : Char → Bool) (text : List Char) : StopsAt p (text.dropWhile p) := by
  intro c front
  have stopped := List.head?_dropWhile_not p text
  rw [Option.mem_def.mp front] at stopped
  simpa using stopped

/-- Where two texts follow each other, a class stops if it stops at both. -/
theorem StopsAt.append {p : Char → Bool} {first second : List Char} (stop : StopsAt p first)
    (stop' : StopsAt p second) : StopsAt p (first ++ second) := by
  cases first with
  | nil => exact stop'
  | cons c first => exact .cons (stop c rfl) (first ++ second)

theorem StopsAt.mono {p q : Char → Bool} {rest : List Char} (stop : StopsAt p rest)
    (fewer : ∀ c, q c = true → p c = true) : StopsAt q rest := by
  intro c front
  rw [← Bool.not_eq_true]
  intro inside
  have none := stop c front
  rw [fewer c inside] at none
  cases none

theorem bne_of_not_mem {c : Char} {text : List Char} (absent : c ∉ text) :
    ∀ d ∈ text, (d != c) = true := by
  intro d member
  exact bne_iff_ne.mpr fun same => absent (same ▸ member)

/-- A run that stops is the longest one. -/
theorem takeWhile_append_stop {p : Char → Bool} {run rest : List Char}
    (inside : ∀ c ∈ run, p c = true) (stop : StopsAt p rest) :
    (run ++ rest).takeWhile p = run := by
  rw [List.takeWhile_append_of_pos inside]
  cases rest with
  | nil => simp
  | cons c rest => simp [stop c rfl]

theorem dropWhile_append_stop {p : Char → Bool} {run rest : List Char}
    (inside : ∀ c ∈ run, p c = true) (stop : StopsAt p rest) :
    (run ++ rest).dropWhile p = rest := by
  rw [List.dropWhile_append_of_pos inside]
  cases rest with
  | nil => rfl
  | cons c rest => simp [stop c rfl]

variable {a b : Char}

/-- The marker stands at the front, or further behind. -/
theorem marker_infix_cons_cons {c d : Char} {text : List Char} :
    [a, b] <:+: c :: d :: text ↔ c = a ∧ d = b ∨ [a, b] <:+: d :: text := by
  rw [List.infix_cons_iff, List.cons_prefix_cons, List.cons_prefix_cons]
  simp [eq_comm]

theorem not_marker_infix_singleton (c : Char) : ¬ [a, b] <:+: [c] := by
  intro marked
  have := marked.length_le
  simp at this

theorem cutAtAfter?_of_unmarked {text : List Char} (unmarked : ¬ [a, b] <:+: text)
    (passed : List Char) : cutAtAfter? a b passed text = none := by
  induction text generalizing passed with
  | nil => rfl
  | cons c text ih =>
    cases text with
    | nil => rfl
    | cons d text =>
      rw [marker_infix_cons_cons, not_or] at unmarked
      rw [cutAtAfter?, if_neg unmarked.1, ih unmarked.2]

/-- The marker that is found is the first. -/
theorem cutAtAfter?_append {inside : List Char} (first : ¬ [a, b] <:+: inside ++ [a])
    (passed rest : List Char) :
    cutAtAfter? a b passed (inside ++ a :: b :: rest) = some (passed.reverse ++ inside, rest) := by
  induction inside generalizing passed with
  | nil => simp [cutAtAfter?]
  | cons c inside ih =>
    cases inside with
    | nil =>
      rw [List.cons_append, List.nil_append, marker_infix_cons_cons, not_or] at first
      rw [List.cons_append, List.nil_append, cutAtAfter?, if_neg first.1]
      simp [cutAtAfter?]
    | cons d inside =>
      rw [List.cons_append, List.cons_append, marker_infix_cons_cons, not_or] at first
      rw [List.cons_append, List.cons_append, cutAtAfter?, if_neg first.1]
      have found := ih first.2 (c :: passed)
      rw [List.cons_append] at found
      rw [found, List.reverse_cons, List.append_assoc, List.singleton_append]

/-- A text holds no marker, or it can be cut at the first. -/
theorem marker_cases (a b : Char) (text : List Char) :
    ¬ [a, b] <:+: text ∨
      ∃ inside rest, text = inside ++ a :: b :: rest ∧ ¬ [a, b] <:+: inside ++ [a] := by
  induction text with
  | nil => exact .inl fun marked => by simpa using marked.length_le
  | cons c text ih =>
    cases text with
    | nil => exact .inl (not_marker_infix_singleton c)
    | cons d text =>
      by_cases front : c = a ∧ d = b
      · obtain ⟨rfl, rfl⟩ := front
        exact .inr ⟨[], text, rfl, not_marker_infix_singleton c⟩
      · rcases ih with unmarked | ⟨inside, rest, split, first⟩
        · exact .inl fun marked => (marker_infix_cons_cons.mp marked).elim front unmarked
        · refine .inr ⟨c :: inside, rest, by rw [split]; rfl, ?_⟩
          cases inside with
          | nil =>
            cases split
            exact fun marked =>
              (marker_infix_cons_cons.mp marked).elim front (not_marker_infix_singleton _)
          | cons e inside =>
            cases split
            exact fun marked => (marker_infix_cons_cons.mp marked).elim front first

theorem cutAt?_of_unmarked {text : List Char} (unmarked : ¬ [a, b] <:+: text) :
    cutAt? a b text = none := cutAtAfter?_of_unmarked unmarked []

theorem cutAt?_append {inside : List Char} (first : ¬ [a, b] <:+: inside ++ [a]) (rest : List Char) :
    cutAt? a b (inside ++ a :: b :: rest) = some (inside, rest) := cutAtAfter?_append first [] rest

end Text

/-! ## Fronts -/

/-- What a word stands for: the reserved word it spells, or an identifier. -/
def wordKind (word : List Char) : Kind :=
  match Keyword.ofSpelling? (String.ofList word) with
  | some k => .keyword k
  | none => .identifier (String.ofList word)

/-- **A character that stands for itself.** It opens neither a word nor a number, no later quotation mark
makes it the start of a string, and it does not open a comment. -/
structure Lone (rule : IdentifierRule) (c : Char) (rest : List Char) : Prop where
  visible : Text.isBlank c = false
  noWord : rule.starts c = false
  noDigit : c.isDigit = false
  noString : c = '"' → '"' ∉ rest
  noComment : c = '/' → ∀ d ∈ rest.head?, d ≠ '/' ∧ d ≠ '*'

/-- **A lexeme in front of a text**: what it amounts to, the characters it is made of, and the text behind
them. -/
inductive Front (rule : IdentifierRule) : Content → List Char → List Char → Prop
  | word {c : Char} {word rest : List Char} :
    rule.starts c = true → (∀ d ∈ word, rule.continues d = true) →
      Text.StopsAt rule.continues rest →
      Front rule (.token (wordKind (c :: word))) (c :: word) rest
  | string {inside : List Char} (rest : List Char) : '"' ∉ inside →
      Front rule (.token (.stringConstant (String.ofList inside))) ('"' :: (inside ++ ['"'])) rest
  | integer {c : Char} {digits rest : List Char} :
    c.isDigit = true → (∀ d ∈ digits, d.isDigit = true) → Text.StopsAt Char.isDigit rest →
      Front rule (.token (.integerConstant (String.ofList (c :: digits)))) (c :: digits) rest
  | lineComment (body : List Char) : Front rule (.discard .lineComment) ('/' :: '/' :: body) []
  | blockComment {inside : List Char} (rest : List Char) : ¬ ['*', '/'] <:+: inside ++ ['*'] →
      Front rule (.discard .blockComment) ('/' :: '*' :: (inside ++ ['*', '/'])) rest
  | openBlockComment {body : List Char} : ¬ ['*', '/'] <:+: body →
      Front rule (.discard .openBlockComment) ('/' :: '*' :: body) []
  | symbol {c : Char} {rest : List Char} : Lone rule c rest →
      Front rule (.token (.symbol c)) [c] rest

/-- The rule that finds a lexeme. -/
def Content.rule : Content → Rule
  | .token (.keyword _) => .keyword
  | .token (.identifier _) => .identifier
  | .token (.stringConstant _) => .stringConstant
  | .token (.integerConstant _) => .integerConstant
  | .token (.symbol _) => .symbol
  | .discard _ => .symbol

/-! ## What stands in front is what is found -/

theorem classify_eq (rule : IdentifierRule) (text : List Char) :
    classify rule text =
      ((Rule.keyword? rule text).or ((Rule.identifier? rule text).or
        ((Rule.stringConstant? text).or ((Rule.integerConstant? text).or (Rule.symbol? text))))) := by
  simp only [classify, Rule.priority, List.findSome?_cons, List.findSome?_nil, Rule.match?]
  cases Rule.keyword? rule text <;> cases Rule.identifier? rule text <;>
    cases Rule.stringConstant? text <;> cases Rule.integerConstant? text <;>
    cases Rule.symbol? text <;> rfl

theorem word_append {rule : IdentifierRule} {c : Char} {word rest : List Char}
    (first : rule.starts c = true) (inside : ∀ d ∈ word, rule.continues d = true)
    (stop : Text.StopsAt rule.continues rest) : rule.word (c :: (word ++ rest)) = c :: word := by
  have run : ∀ d ∈ c :: word, rule.continues d = true := by
    intro d member
    rcases List.mem_cons.mp member with rfl | later
    · exact IdentifierRule.continues_of_starts first
    · exact inside d later
  rw [IdentifierRule.word, if_pos first, ← List.cons_append, Text.takeWhile_append_stop run stop]

/-- Where no word starts, the two rules for words find nothing. -/
theorem classify_of_starts_eq_false {rule : IdentifierRule} {c : Char} (noWord : rule.starts c = false)
    (rest : List Char) :
    classify rule (c :: rest) =
      (Rule.stringConstant? (c :: rest)).or
        ((Rule.integerConstant? (c :: rest)).or (Rule.symbol? (c :: rest))) := by
  have empty : rule.word (c :: rest) = [] := by simp [IdentifierRule.word, noWord]
  have reserved : Rule.keyword? rule (c :: rest) = none := by
    rw [Rule.keyword?, empty, Keyword.ofSpelling?_empty]
    rfl
  have named : Rule.identifier? rule (c :: rest) = none := by
    rw [Rule.identifier?, empty]
    rfl
  rw [classify_eq, reserved, named, Option.none_or, Option.none_or]

/-- A string is found where another quotation mark follows. -/
theorem stringConstant?_append {inside : List Char} (closed : '"' ∉ inside) (rest : List Char) :
    Rule.stringConstant? ('"' :: (inside ++ '"' :: rest)) =
      some ⟨.stringConstant, Utf8.size inside + 2, .token (.stringConstant (String.ofList inside))⟩ := by
  have within := Text.bne_of_not_mem closed
  have stop : Text.StopsAt (· != '"') ('"' :: rest) := .cons rfl rest
  simp only [Rule.stringConstant?]
  rw [Text.dropWhile_append_stop within stop, Text.takeWhile_append_stop within stop]

/-- No string starts with another character, or without a second quotation mark. -/
theorem stringConstant?_eq_none {c : Char} {rest : List Char} (noString : c = '"' → '"' ∉ rest) :
    Rule.stringConstant? (c :: rest) = none := by
  by_cases quote : c = '"'
  · subst quote
    have within := Text.bne_of_not_mem (noString rfl)
    have passed := Text.dropWhile_append_stop within (.nil (· != '"'))
    rw [List.append_nil] at passed
    simp only [Rule.stringConstant?, passed]
  · unfold Rule.stringConstant?
    split
    · rename_i same
      cases same
      exact absurd rfl quote
    · rfl

theorem integerConstant?_eq_none {c : Char} (noDigit : c.isDigit = false) (rest : List Char) :
    Rule.integerConstant? (c :: rest) = none := by
  simp [Rule.integerConstant?, noDigit]

/-- A comment is found by its slash, before any character is taken for a symbol. -/
theorem classify_comment (rule : IdentifierRule) {rest : List Char} {comment : Discard} {length : Nat}
    (found : comment? ('/' :: rest) = some (comment, length)) :
    classify rule ('/' :: rest) = some ⟨.symbol, length, .discard comment⟩ := by
  have noWord : rule.starts '/' = false := by cases rule <;> rfl
  rw [classify_of_starts_eq_false noWord, stringConstant?_eq_none (fun quote => by cases quote),
    integerConstant?_eq_none rfl, Option.none_or, Option.none_or, Rule.symbol?, found]

theorem Lone.comment?_eq_none {rule : IdentifierRule} {c : Char} {rest : List Char}
    (lone : Lone rule c rest) : comment? (c :: rest) = none := by
  unfold comment?
  split
  · rename_i same
    cases same
    exact absurd rfl (lone.noComment rfl '/' rfl).1
  · rename_i same
    cases same
    exact absurd rfl (lone.noComment rfl '*' rfl).2
  · rfl

/-- **What stands in front is what is found**, and its length is the size of the piece. -/
theorem classify_front {rule : IdentifierRule} {content : Content} {piece rest : List Char}
    (front : Front rule content piece rest) :
    classify rule (piece ++ rest) = some ⟨content.rule, Utf8.size piece, content⟩ := by
  cases front with
  | @word c word _ first inside stop =>
    have found := word_append first inside stop
    rw [classify_eq, List.cons_append, Rule.keyword?, Rule.identifier?, found, wordKind]
    cases reserved : Keyword.ofSpelling? (String.ofList (c :: word)) <;> rfl
  | @string inside _ closed =>
    have noWord : rule.starts '"' = false := by cases rule <;> rfl
    have found := stringConstant?_append closed rest
    rw [List.cons_append, List.append_assoc, List.singleton_append,
      classify_of_starts_eq_false noWord, found]
    have size : Utf8.size ('"' :: (inside ++ ['"'])) = Utf8.size inside + 2 := by
      have one : ('"').utf8Size = 1 := rfl
      rw [Utf8.size_cons, Utf8.size_append, Utf8.size_cons, Utf8.size_nil, one]
      omega
    rw [size]
    rfl
  | @integer c digits _ digit inside stop =>
    have noWord := rule.starts_eq_false_of_isDigit digit
    have noQuote : c ≠ '"' := by
      rintro rfl
      cases digit
    have run : ∀ d ∈ c :: digits, d.isDigit = true := by
      intro d member
      rcases List.mem_cons.mp member with rfl | later
      · exact digit
      · exact inside d later
    have taken := Text.takeWhile_append_stop run stop
    rw [List.cons_append] at taken
    rw [List.cons_append, classify_of_starts_eq_false noWord,
      stringConstant?_eq_none fun quote => absurd quote noQuote, Rule.integerConstant?, taken]
    rfl
  | lineComment body =>
    rw [List.append_nil]
    exact classify_comment rule rfl
  | @blockComment inside _ first =>
    have cut := Text.cutAt?_append first rest
    have found : comment? ('/' :: '*' :: (inside ++ '*' :: '/' :: rest)) =
        some (.blockComment, 2 + Utf8.size inside + 2) := by
      simp only [comment?, cut]
    have size : Utf8.size ('/' :: '*' :: (inside ++ ['*', '/'])) = 2 + Utf8.size inside + 2 := by
      have slash : ('/').utf8Size = 1 := rfl
      have star : ('*').utf8Size = 1 := rfl
      simp only [Utf8.size_cons, Utf8.size_append, Utf8.size_nil, slash, star]
      omega
    rw [size, List.cons_append, List.cons_append, List.append_assoc]
    exact classify_comment rule found
  | @openBlockComment body unclosed =>
    have found : comment? ('/' :: '*' :: body) =
        some (.openBlockComment, Utf8.size ('/' :: '*' :: body)) := by
      simp only [comment?, Text.cutAt?_of_unmarked unclosed]
    rw [List.append_nil]
    exact classify_comment rule found
  | @symbol c _ lone =>
    rw [List.singleton_append, classify_of_starts_eq_false lone.noWord,
      stringConstant?_eq_none lone.noString, integerConstant?_eq_none lone.noDigit, Option.none_or,
      Option.none_or, Rule.symbol?, lone.comment?_eq_none]
    simp only [lone.visible, Bool.false_eq_true, if_false, Utf8.size_cons, Utf8.size_nil, Nat.add_zero]
    rfl

/-! ## Every text that is not blank at its front has one -/

/-- What stands in front of a text, by cases on its first character and then on the one behind it. -/
theorem exists_front (rule : IdentifierRule) {c : Char} (visible : Text.isBlank c = false)
    (text : List Char) :
    ∃ content piece rest, c :: text = piece ++ rest ∧ Front rule content piece rest := by
  by_cases first : rule.starts c = true
  · refine ⟨_, c :: text.takeWhile rule.continues, text.dropWhile rule.continues, by simp,
      .word first (fun d member => ?_) (.dropWhile _ text)⟩
    exact List.all_eq_true.mp List.all_takeWhile d member
  by_cases digit : c.isDigit = true
  · refine ⟨_, c :: text.takeWhile Char.isDigit, text.dropWhile Char.isDigit, by simp,
      .integer digit (fun d member => ?_) (.dropWhile _ text)⟩
    exact List.all_eq_true.mp List.all_takeWhile d member
  rw [Bool.not_eq_true] at first digit
  by_cases closed : c = '"' ∧ '"' ∈ text
  · obtain ⟨rfl, later⟩ := closed
    obtain ⟨inside, rest, rfl, none⟩ := List.eq_append_cons_of_mem later
    exact ⟨_, '"' :: (inside ++ ['"']), rest, by simp, .string rest none⟩
  by_cases comment : c = '/' ∧ (text.head? = some '/' ∨ text.head? = some '*')
  · obtain ⟨rfl, slash | star⟩ := comment
    · obtain ⟨body, rfl⟩ := List.head?_eq_some_iff.mp slash
      exact ⟨_, '/' :: '/' :: body, [], by simp, .lineComment body⟩
    · obtain ⟨body, rfl⟩ := List.head?_eq_some_iff.mp star
      rcases Text.marker_cases '*' '/' body with unclosed | ⟨inside, rest, rfl, earliest⟩
      · exact ⟨_, '/' :: '*' :: body, [], by simp, .openBlockComment unclosed⟩
      · exact ⟨_, '/' :: '*' :: (inside ++ ['*', '/']), rest, by simp, .blockComment rest earliest⟩
  -- Nothing longer starts here, so the character stands for itself.
  refine ⟨_, [c], text, rfl, .symbol ⟨visible, first, digit, fun quote later => ?_, ?_⟩⟩
  · exact closed ⟨quote, later⟩
  · rintro slash d front
    constructor
    · rintro rfl
      exact comment ⟨slash, .inl front⟩
    · rintro rfl
      exact comment ⟨slash, .inr front⟩

/-- A lexeme is made of at least one character, and the first is no blank. -/
theorem Front.head {rule : IdentifierRule} {content : Content} {piece rest : List Char}
    (front : Front rule content piece rest) :
    ∃ c tail, piece = c :: tail ∧ Text.isBlank c = false := by
  cases front with
  | word first _ _ => exact ⟨_, _, rfl, IdentifierRule.isBlank_eq_false_of_starts first⟩
  | string _ _ => exact ⟨_, _, rfl, rfl⟩
  | integer digit _ _ => exact ⟨_, _, rfl, Text.isBlank_eq_false_of_isDigit digit⟩
  | lineComment _ => exact ⟨_, _, rfl, rfl⟩
  | blockComment _ _ => exact ⟨_, _, rfl, rfl⟩
  | openBlockComment _ => exact ⟨_, _, rfl, rfl⟩
  | symbol lone => exact ⟨_, _, rfl, lone.visible⟩

/-! ## With other texts behind -/

/-- A lexeme stays what it is with nothing behind it. -/
theorem Front.alone {rule : IdentifierRule} {content : Content} {piece rest : List Char}
    (front : Front rule content piece rest) : Front rule content piece [] := by
  cases front with
  | word first inside _ => exact .word first inside (.nil _)
  | string _ closed => exact .string [] closed
  | integer digit inside _ => exact .integer digit inside (.nil _)
  | lineComment body => exact .lineComment body
  | blockComment _ first => exact .blockComment [] first
  | openBlockComment unclosed => exact .openBlockComment unclosed
  | symbol lone =>
    refine .symbol ⟨lone.visible, lone.noWord, lone.noDigit, fun _ => List.not_mem_nil, ?_⟩
    intro _ d member
    cases member

/-- A token stays what it is before a blank, if it is no quotation mark that another would follow. -/
theorem Front.before_blank {rule : IdentifierRule} {kind : Kind} {piece rest : List Char} {w : Char}
    (front : Front rule (.token kind) piece []) (blank : Text.isBlank w = true)
    (unpaired : kind = .symbol '"' → '"' ∉ rest) : Front rule (.token kind) piece (w :: rest) := by
  generalize same : Content.token kind = content at front
  cases front with
  | word first inside _ =>
    exact .word first inside (.cons (rule.continues_eq_false_of_isBlank blank) rest)
  | string _ closed => exact .string (w :: rest) closed
  | integer digit inside _ =>
    exact .integer digit inside (.cons (Text.isDigit_eq_false_of_isBlank blank) rest)
  | lineComment _ => cases same
  | blockComment _ _ => cases same
  | openBlockComment _ => cases same
  | symbol lone =>
    refine .symbol ⟨lone.visible, lone.noWord, lone.noDigit, fun quote => ?_, fun _ d member => ?_⟩
    · subst quote
      cases same
      rw [List.mem_cons, not_or]
      refine ⟨?_, unpaired rfl⟩
      rintro rfl
      cases blank
    · cases member
      constructor <;> rintro rfl <;> cases blank

/-! ## Spellings -/

/-- **How a token is written in a source.** A string stands between quotation marks; anything else is its
own text. -/
def Kind.spelling : Kind → List Char
  | .stringConstant text => '"' :: (text.toList ++ ['"'])
  | kind => kind.lexeme.toList

theorem Keyword.spelling_of_ofSpelling? {text : String} {word : Keyword}
    (found : ofSpelling? text = some word) : word.spelling = text :=
  beq_iff_eq.mp (List.find?_some (p := fun k : Keyword => k.spelling == text) found)

@[simp] theorem spelling_wordKind (word : List Char) : (wordKind word).spelling = word := by
  unfold wordKind
  split
  · rename_i reserved found
    rw [Kind.spelling, Kind.lexeme, Keyword.spelling_of_ofSpelling? found, String.toList_ofList]
    exact fun text same => by cases same
  · exact String.toList_ofList

/-- **What a token is made of is its spelling.** -/
theorem Front.eq_spelling {rule : IdentifierRule} {content : Content} {piece rest : List Char} {kind : Kind}
    (front : Front rule content piece rest) (token : content = .token kind) : piece = kind.spelling := by
  cases front with
  | word _ _ _ =>
    cases token
    exact (spelling_wordKind _).symm
  | string _ _ =>
    cases token
    rw [Kind.spelling, String.toList_ofList]
  | integer _ _ _ =>
    cases token
    exact String.toList_ofList.symm
  | lineComment _ => cases token
  | blockComment _ _ => cases token
  | openBlockComment _ => cases token
  | symbol _ =>
    cases token
    simp [Kind.spelling, Kind.lexeme]

end JackTokens
