import JackTokens.Proofs.Lexemes

/-!
# The order of the rules

`classify` tries five rules in a fixed order, and the first that matches decides. Most of that order is
accidental. A text that opens a word opens neither a string nor a number, so that it makes no difference
which of the three is asked for first. Two pairs are not apart: a reserved word is a word, too, and the last
rule takes the first character of anything that another rule matches.

**Openings** (`opens`). Each rule needs a certain first character (`exists_opens`). The classes of the three
rules in the middle are disjoint (`eq_of_opens`), and all of them are without blanks (`isBlank_eq_false_of_opens`).

**Decisions** (`Decides`). Where anything matches there is one rule that decides: of the others that match,
each is `symbol`, or it is `identifier` beside `keyword` (`exists_decides`). An order that asks for this rule
before those others finds what it finds (`findSome?_of_first`), and no other order does (`idxOf_lt_of_findSome?`).

**The law** (`priority_essentials`): an order of the five rules classifies every text as the given one does
if and only if it has `keyword` before `identifier` and `symbol` at its end.
-/

namespace JackTokens

namespace Rule

variable {identifiers : IdentifierRule} {rule other : Rule} {text : List Char} {lexeme : Lexeme}
  {order : List Rule}

/-! ## Openings -/

/-- **A rule matches** a text. -/
def Matches (identifiers : IdentifierRule) (text : List Char) (rule : Rule) : Prop :=
  (rule.match? identifiers text).isSome = true

/-- Does a match of a rule begin with this character? -/
def opens (identifiers : IdentifierRule) : Rule → Char → Bool
  | keyword, c => identifiers.starts c
  | identifier, c => identifiers.starts c
  | stringConstant, c => c == '"'
  | integerConstant, c => c.isDigit
  | symbol, c => !Text.isBlank c

/-- The rules of which no two match the same text. -/
def exclusive : List Rule := [identifier, stringConstant, integerConstant]

theorem starts_of_word (nonempty : identifiers.word text ≠ []) :
    ∃ c rest, text = c :: rest ∧ identifiers.starts c = true := by
  cases text with
  | nil => exact absurd rfl nonempty
  | cons c rest =>
    refine ⟨c, rest, rfl, ?_⟩
    by_contra other
    apply nonempty
    rw [IdentifierRule.word, if_neg other]

/-- **A rule needs its first character.** -/
theorem exists_opens (found : Matches identifiers text rule) :
    ∃ c rest, text = c :: rest ∧ rule.opens identifiers c = true := by
  obtain ⟨lexeme, found⟩ := Option.isSome_iff_exists.mp found
  cases rule with
  | keyword =>
    obtain ⟨k, reserved, -⟩ := Option.map_eq_some_iff.mp found
    apply starts_of_word
    intro empty
    rw [empty, Keyword.ofSpelling?_empty] at reserved
    cases reserved
  | identifier =>
    apply starts_of_word
    intro empty
    rw [match?, identifier?, empty] at found
    cases found
  | stringConstant =>
    unfold match? stringConstant? at found
    dsimp only at found
    split at found
    · exact ⟨_, _, rfl, rfl⟩
    · cases found
  | integerConstant =>
    cases text with
    | nil => cases found
    | cons c rest =>
      refine ⟨c, rest, rfl, ?_⟩
      by_contra other
      rw [match?, integerConstant?_eq_none (Bool.eq_false_iff.mpr other)] at found
      cases found
  | symbol =>
    cases text with
    | nil => cases found
    | cons c rest =>
      refine ⟨c, rest, rfl, ?_⟩
      -- Before a blank no rule finds anything, the last one included.
      by_contra blank
      have nothing := classify_of_isBlank identifiers (by simpa [opens] using blank) rest
      rw [classify, List.findSome?_eq_none_iff] at nothing
      rw [nothing symbol (by decide)] at found
      cases found

/-- No character opens two of the exclusive rules. -/
theorem eq_of_opens {c : Char} (first : rule ∈ exclusive) (second : other ∈ exclusive)
    (opened : rule.opens identifiers c = true) (opened' : other.opens identifiers c = true) :
    rule = other := by
  have digit : c.isDigit = true → identifiers.starts c = false := identifiers.starts_eq_false_of_isDigit
  have quote : identifiers.starts '"' = false := by cases identifiers <;> rfl
  simp only [exclusive, List.mem_cons, List.not_mem_nil, or_false] at first second
  rcases first with rfl | rfl | rfl <;> rcases second with rfl | rfl | rfl <;> simp_all [opens]

/-- No blank opens any rule. -/
theorem isBlank_eq_false_of_opens {c : Char} (opened : rule.opens identifiers c = true) :
    Text.isBlank c = false := by
  cases rule with
  | keyword => exact IdentifierRule.isBlank_eq_false_of_starts opened
  | identifier => exact IdentifierRule.isBlank_eq_false_of_starts opened
  | stringConstant =>
    rw [opens, beq_iff_eq] at opened
    subst opened
    rfl
  | integerConstant => exact Text.isBlank_eq_false_of_isDigit opened
  | symbol => rwa [opens, Bool.not_eq_true'] at opened

/-! ## What matches beside what -/

/-- **No two of the exclusive rules match** the same text. -/
theorem eq_of_matches (first : rule ∈ exclusive) (second : other ∈ exclusive)
    (found : Matches identifiers text rule) (found' : Matches identifiers text other) : rule = other := by
  obtain ⟨c, rest, rfl, opened⟩ := exists_opens found
  obtain ⟨_, _, same, opened'⟩ := exists_opens found'
  cases same
  exact eq_of_opens first second opened opened'

/-- **A reserved word is a word**, of the same length. -/
theorem identifier_of_keyword (found : match? identifiers keyword text = some lexeme) :
    ∃ word, match? identifiers identifier text = some word ∧ word.length = lexeme.length := by
  obtain ⟨k, reserved, rfl⟩ := Option.map_eq_some_iff.mp found
  have nonempty : identifiers.word text ≠ [] := by
    intro empty
    rw [empty, Keyword.ofSpelling?_empty] at reserved
    cases reserved
  rw [match?, identifier?, if_neg (by simpa using nonempty)]
  exact ⟨_, rfl, rfl⟩

theorem matches_identifier_of_keyword (found : Matches identifiers text keyword) :
    Matches identifiers text identifier := by
  obtain ⟨lexeme, found⟩ := Option.isSome_iff_exists.mp found
  obtain ⟨word, found', -⟩ := identifier_of_keyword found
  exact Option.isSome_iff_exists.mpr ⟨word, found'⟩

/-- **The last rule matches whatever any rule matches.** -/
theorem matches_symbol (found : Matches identifiers text rule) : Matches identifiers text symbol := by
  obtain ⟨c, rest, rfl, opened⟩ := exists_opens found
  have visible := isBlank_eq_false_of_opens opened
  unfold Matches match? symbol?
  dsimp only
  split
  · rfl
  · rw [if_neg (by rw [visible]; exact Bool.false_ne_true)]
    rfl

theorem rule_of_match? (found : rule.match? identifiers text = some lexeme) : lexeme.rule = rule := by
  cases rule with
  | keyword =>
    obtain ⟨k, -, rfl⟩ := Option.map_eq_some_iff.mp found
    rfl
  | identifier =>
    unfold match? identifier? at found
    dsimp only at found
    split at found
    · cases found
    · cases found
      rfl
  | stringConstant =>
    unfold match? stringConstant? at found
    dsimp only at found
    split at found
    · split at found
      · cases found
      · cases found
        rfl
    · cases found
  | integerConstant =>
    unfold match? integerConstant? at found
    dsimp only at found
    split at found
    · cases found
    · cases found
      rfl
  | symbol =>
    unfold match? symbol? at found
    dsimp only at found
    split at found
    · cases found
      rfl
    · split at found
      · cases found
      · split at found
        · cases found
        · cases found
          rfl

/-- **The rule that decides** about a text: it matches, and any other that does is the last rule, or it is the
one for words beside the one for reserved words. -/
structure Decides (identifiers : IdentifierRule) (text : List Char) (rule : Rule) : Prop where
  found : Matches identifiers text rule
  others : ∀ other, Matches identifiers text other → other ≠ rule →
    other = symbol ∨ rule = keyword ∧ other = identifier

theorem mem_exclusive (words : rule ≠ keyword) (last : rule ≠ symbol) : rule ∈ exclusive := by
  cases rule with
  | keyword => exact absurd rfl words
  | symbol => exact absurd rfl last
  | _ => simp [exclusive]

/-- **Where a rule matches, one decides**: the one for reserved words if it matches, and if not, the only one of
the others that does, but for the last. -/
theorem exists_decides (found : Matches identifiers text rule) : ∃ first, Decides identifiers text first := by
  by_cases reserved : Matches identifiers text keyword
  · refine ⟨keyword, reserved, fun other found' different => ?_⟩
    by_cases last : other = symbol
    · exact .inl last
    · have word := matches_identifier_of_keyword reserved
      exact .inr ⟨rfl, eq_of_matches (mem_exclusive different last) (by simp [exclusive]) found' word⟩
  by_cases inside : ∃ middle ∈ exclusive, Matches identifiers text middle
  · obtain ⟨middle, member, matched⟩ := inside
    refine ⟨middle, matched, fun other found' different => .inl ?_⟩
    by_contra last
    have words : other ≠ keyword := fun same => reserved (same ▸ found')
    exact different (eq_of_matches (mem_exclusive words last) member found' matched)
  · refine ⟨symbol, matches_symbol found, fun other found' different => ?_⟩
    have words : other ≠ keyword := fun same => reserved (same ▸ found')
    exact absurd ⟨other, mem_exclusive words different, found'⟩ inside

/-! ## Orders -/

/-- An order that asks for a rule before any other that matches finds what this rule finds. -/
theorem findSome?_of_first (member : rule ∈ order) (found : Matches identifiers text rule)
    (first : ∀ other, Matches identifiers text other → other ≠ rule →
      order.idxOf rule < order.idxOf other) :
    order.findSome? (fun r => r.match? identifiers text) = rule.match? identifiers text := by
  obtain ⟨lexeme, matched⟩ := Option.isSome_iff_exists.mp found
  obtain ⟨before, after, split, absent⟩ := List.eq_append_cons_of_mem member
  rw [matched, List.findSome?_eq_some_iff]
  refine ⟨before, rule, after, split, matched, fun other early => ?_⟩
  by_contra some
  have different : other ≠ rule := fun same => absent (same ▸ early)
  have later := first other (Option.isSome_iff_ne_none.mpr some) different
  have place : order.idxOf other < before.length := by
    rw [split, List.idxOf_append_of_mem early]
    exact List.idxOf_lt_length_of_mem early
  have own : order.idxOf rule = before.length := by
    rw [split, List.idxOf_append_of_notMem absent, List.idxOf_cons_self, Nat.add_zero]
  omega

/-- What an order finds was found by a rule that it asks for before any other that matches. -/
theorem idxOf_lt_of_findSome? (found : order.findSome? (fun r => r.match? identifiers text) = some lexeme)
    (matched : Matches identifiers text other) (different : other ≠ lexeme.rule) :
    order.idxOf lexeme.rule < order.idxOf other := by
  obtain ⟨before, rule, after, split, decided, early⟩ := List.findSome?_eq_some_iff.mp found
  cases rule_of_match? decided
  have absent : lexeme.rule ∉ before := by
    intro member
    rw [early _ member] at decided
    cases decided
  have later : other ∉ before := by
    intro member
    rw [Matches, early _ member] at matched
    cases matched
  rw [split, List.idxOf_append_of_notMem absent, List.idxOf_append_of_notMem later, List.idxOf_cons_self,
    List.idxOf_cons_ne _ different.symm]
  omega

theorem nodup_of_perm (each : order.Perm priority) : order.Nodup := each.nodup_iff.mpr (by decide)

theorem mem_of_perm (each : order.Perm priority) (rule : Rule) : rule ∈ order := by
  rw [each.mem_iff]
  cases rule <;> decide

/-- The rule at the end of an order is the one that comes behind all others. -/
theorem getLast?_eq_some_iff (each : order.Perm priority) :
    order.getLast? = some rule ↔ ∀ other, other ≠ rule → order.idxOf other < order.idxOf rule := by
  have once := nodup_of_perm each
  obtain ⟨front, last, split⟩ : ∃ front last, order = front ++ [last] :=
    ⟨_, _, (List.dropLast_append_getLast (List.ne_nil_of_mem (mem_of_perm each keyword))).symm⟩
  have absent : last ∉ front := by
    intro member
    rw [split, List.nodup_append] at once
    exact once.2.2 last member last (List.mem_singleton_self last) rfl
  have place : order.idxOf last = front.length := by
    rw [split, List.idxOf_append_of_notMem absent, List.idxOf_cons_self, Nat.add_zero]
  have earlier {other : Rule} (different : other ≠ last) : order.idxOf other < front.length := by
    have member : other ∈ front := by
      have somewhere := mem_of_perm each other
      rw [split, List.mem_append, List.mem_singleton] at somewhere
      exact somewhere.resolve_right different
    rw [split, List.idxOf_append_of_mem member]
    exact List.idxOf_lt_length_of_mem member
  have ends : order.getLast? = some last := by rw [split, List.getLast?_append_cons, List.getLast?_singleton]
  rw [ends, Option.some.injEq]
  constructor
  · rintro rfl other different
    rw [place]
    exact earlier different
  · intro behind
    by_contra different
    have before := behind last different
    have own := earlier (Ne.symm different)
    omega

/-- A text that a rule decides about. -/
def specimen : Rule → List Char
  | keyword => ['d', 'o']
  | identifier => ['x']
  | stringConstant => ['"', '"']
  | integerConstant => ['0']
  | symbol => [';']

theorem exists_classify_specimen (identifiers : IdentifierRule) (rule : Rule) :
    ∃ lexeme, classify identifiers rule.specimen = some lexeme ∧ lexeme.rule = rule := by
  cases identifiers <;> cases rule <;> exact ⟨_, rfl, rfl⟩

/-! ## The law -/

/-- An order that puts `keyword` before `identifier` and ends with `symbol` asks for the rule that decides before
any other that matches. -/
theorem Decides.idxOf_lt (decides : Decides identifiers text rule) (each : order.Perm priority)
    (words : order.idxOf keyword < order.idxOf identifier) (last : order.getLast? = some symbol)
    (matched : Matches identifiers text other) (different : other ≠ rule) :
    order.idxOf rule < order.idxOf other := by
  rcases decides.others other matched different with rfl | ⟨rfl, rfl⟩
  · exact (getLast?_eq_some_iff each).mp last rule (Ne.symm different)
  · exact words

/-- **Such an order classifies every text as the given one does.** -/
theorem findSome?_eq_classify (each : order.Perm priority)
    (words : order.idxOf keyword < order.idxOf identifier) (last : order.getLast? = some symbol)
    (identifiers : IdentifierRule) (text : List Char) :
    order.findSome? (fun rule => rule.match? identifiers text) = classify identifiers text := by
  by_cases something : ∃ rule, Matches identifiers text rule
  · obtain ⟨rule, found⟩ := something
    obtain ⟨first, decides⟩ := exists_decides found
    have given : priority.idxOf keyword < priority.idxOf identifier := by decide
    rw [classify, findSome?_of_first (mem_of_perm each first) decides.found
        fun other matched different => decides.idxOf_lt each words last matched different,
      findSome?_of_first (mem_of_perm (.refl _) first) decides.found
        fun other matched different => decides.idxOf_lt (.refl _) given rfl matched different]
  · have nothing (rule : Rule) : rule.match? identifiers text = none := by
      by_contra some
      exact something ⟨rule, Option.isSome_iff_ne_none.mpr some⟩
    rw [classify, List.findSome?_eq_none_iff.mpr fun rule _ => nothing rule,
      List.findSome?_eq_none_iff.mpr fun rule _ => nothing rule]

/-- **An order that classifies the specimens as the given one does** has each rule before those that match its
specimen as well. -/
theorem idxOf_lt_of_eq_classify
    (same : ∀ text, order.findSome? (fun rule => rule.match? identifiers text) = classify identifiers text)
    (matched : Matches identifiers rule.specimen other) (different : other ≠ rule) :
    order.idxOf rule < order.idxOf other := by
  obtain ⟨lexeme, found, rfl⟩ := exists_classify_specimen identifiers rule
  exact idxOf_lt_of_findSome? ((same _).trans found) matched different

theorem matches_specimen (identifiers : IdentifierRule) (rule : Rule) :
    Matches identifiers rule.specimen rule := by
  obtain ⟨lexeme, found, rfl⟩ := exists_classify_specimen identifiers rule
  obtain ⟨first, -, matched⟩ := List.exists_of_findSome?_eq_some found
  cases rule_of_match? matched
  exact Option.isSome_iff_exists.mpr ⟨lexeme, matched⟩

/-- **Only two facts about the order of the rules matter.** On every text at most one of the rules for words,
strings and numbers matches; where the rule for reserved words matches, the one for words does, with the same
length; and the last rule matches wherever any does. So an order of the five rules classifies every text as the
given order does if and only if it asks for reserved words before words and for symbols last. -/
theorem priority_essentials (identifiers : IdentifierRule) :
    (∀ text : List Char,
      (∀ rule ∈ exclusive, ∀ other ∈ exclusive,
        Matches identifiers text rule → Matches identifiers text other → rule = other) ∧
      (∀ lexeme, match? identifiers keyword text = some lexeme →
        ∃ word, match? identifiers identifier text = some word ∧ word.length = lexeme.length) ∧
      ∀ rule, Matches identifiers text rule → Matches identifiers text symbol) ∧
    ∀ order : List Rule, order.Perm priority →
      ((∀ text, order.findSome? (fun rule => rule.match? identifiers text) = classify identifiers text) ↔
        order.idxOf keyword < order.idxOf identifier ∧ order.getLast? = some symbol) := by
  constructor
  · intro text
    refine ⟨?_, fun lexeme found => identifier_of_keyword found, fun rule found => matches_symbol found⟩
    intro rule first other second found found'
    exact eq_of_matches first second found found'
  · intro order each
    constructor
    · intro same
      have reserved := matches_specimen identifiers keyword
      refine ⟨idxOf_lt_of_eq_classify same (matches_identifier_of_keyword reserved) (by decide), ?_⟩
      rw [getLast?_eq_some_iff each]
      intro rule different
      exact idxOf_lt_of_eq_classify same (matches_symbol (matches_specimen identifiers rule)) different.symm
    · rintro ⟨words, last⟩ text
      exact findSome?_eq_classify each words last identifiers text

/-- The law at an order that asks for numbers and strings first, at one that asks for words before reserved words,
and at the text of a reserved word. -/
theorem priority_essentials_numbersFirst :
    (∀ text, [integerConstant, stringConstant, keyword, identifier, symbol].findSome?
        (fun rule => rule.match? .alphabetic text) = classify .alphabetic text) ∧
    (¬ ∀ text, [identifier, keyword, stringConstant, integerConstant, symbol].findSome?
        (fun rule => rule.match? .alphabetic text) = classify .alphabetic text) ∧
    Matches .alphabetic ['d', 'o', '1'] symbol ∧
    ¬ Matches .alphabetic ['d', 'o', '1'] stringConstant ∧
    ∃ word, match? .alphabetic identifier ['d', 'o', '1'] = some word ∧ word.length = 2 := by
  obtain ⟨rules, orders⟩ := priority_essentials .alphabetic
  obtain ⟨apart, reserved, last⟩ := rules ['d', 'o', '1']
  have found : match? .alphabetic keyword ['d', 'o', '1'] =
      some ⟨keyword, 2, .token (.keyword .kDo)⟩ := by decide
  have word : Matches .alphabetic ['d', 'o', '1'] identifier := rfl
  refine ⟨?_, ?_, last keyword rfl, fun string => ?_, reserved _ found⟩
  · exact (orders _ (by decide)).mpr ⟨by decide, rfl⟩
  · rw [orders _ (by decide)]
    decide
  · cases apart _ (by decide) _ (by decide) word string

end Rule

end JackTokens
