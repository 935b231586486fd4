import JackTokens.Proofs.Failure
import JackTokens.Proofs.LineNumbers

/-!
# The shapes of tokens

A kind of token carries any text, and nothing in the types keeps a newline out of a string, a reserved word
out of the identifiers or a letter out of the symbols. Whoever reads the stream relies on the tokenizer for
that. This module says which shapes can occur (`Kind.WellFormed`), without a word about how lexemes are found.

**Lexemes.** What stands in front of a text has its shape from the rule that found it and from the rules that
came before and found nothing (`Front.wellFormed`): an identifier is no reserved word, and a symbol opens no
word and no number. Only a string takes characters of every kind, so it is free of newlines if its line is.

**Lines.** A reading hands out one physical line (`SourceFile.lines_of_readLine`). Its newline, if it has one,
stands at the end and is trimmed off with the blanks there, so the line that a cursor holds has none
(`LineCursor.newline_not_mem_load`).

**The law** (`visits_wellFormed`): in every state of a run all tokens are well formed, and they stand on a line
that has been counted.
-/

namespace JackTokens

/-! ## Shapes -/

/-- **The words of a rule.** Under the alphanumeric rule a word is a letter or an underscore, and then letters,
digits and underscores; under the alphabetic rule it is letters, and at least one. -/
def IdentifierRule.IsWord : IdentifierRule → List Char → Prop
  | .alphanumeric, [] => False
  | .alphanumeric, c :: word =>
    (c.isAlpha = true ∨ c = '_') ∧ ∀ d ∈ word, d.isAlpha = true ∨ d.isDigit = true ∨ d = '_'
  | .alphabetic, word => word ≠ [] ∧ ∀ c ∈ word, c.isAlpha = true

/-- **The shape of a token**, given the identifier rule. -/
def Kind.WellFormed (rule : IdentifierRule) : Kind → Prop
  | .keyword _ => True
  | .identifier name => rule.IsWord name.toList ∧ ∀ word : Keyword, word.spelling ≠ name
  | .stringConstant text => '"' ∉ text.toList ∧ '\n' ∉ text.toList
  | .integerConstant digits => digits.toList ≠ [] ∧ ∀ c ∈ digits.toList, c.isDigit = true
  | .symbol c => Text.isBlank c = false ∧ c.isDigit = false ∧ ¬ rule.IsWord [c]

instance : (rule : IdentifierRule) → (word : List Char) → Decidable (rule.IsWord word)
  | .alphanumeric, [] => inferInstanceAs (Decidable False)
  | .alphanumeric, _ :: word => @instDecidableAnd _ _ _ (List.decidableBAll _ word)
  | .alphabetic, word => @instDecidableAnd _ _ _ (List.decidableBAll _ word)

theorem Keyword.mem_all (word : Keyword) : word ∈ all := by
  cases word <;> decide

instance (name : String) : Decidable (∀ word : Keyword, word.spelling ≠ name) :=
  decidable_of_iff (∀ word ∈ Keyword.all, word.spelling ≠ name)
    ⟨fun none word => none word word.mem_all, fun none word _ => none word⟩

instance (rule : IdentifierRule) : (kind : Kind) → Decidable (kind.WellFormed rule)
  | .keyword _ => inferInstanceAs (Decidable True)
  | .identifier _ => inferInstanceAs (Decidable (_ ∧ _))
  | .stringConstant _ => inferInstanceAs (Decidable (_ ∧ _))
  | .integerConstant digits => @instDecidableAnd _ _ _ (List.decidableBAll _ digits.toList)
  | .symbol _ => inferInstanceAs (Decidable (_ ∧ _))

example : ¬ (Kind.identifier "while").WellFormed .alphanumeric ∧
    (Kind.identifier "while_1").WellFormed .alphanumeric ∧
    ¬ (Kind.identifier "while_1").WellFormed .alphabetic ∧
    (Kind.symbol '_').WellFormed .alphabetic ∧ ¬ (Kind.symbol '_').WellFormed .alphanumeric := by
  decide +kernel

/-! ## What is found has its shape -/

theorem IdentifierRule.isWord_cons {rule : IdentifierRule} {c : Char} {word : List Char}
    (first : rule.starts c = true) (inside : ∀ d ∈ word, rule.continues d = true) :
    rule.IsWord (c :: word) := by
  rw [starts_iff] at first
  cases rule with
  | alphanumeric =>
    refine ⟨first.imp_right And.right, fun d member => ?_⟩
    rcases continues_iff.mp (inside d member) with letter | ⟨-, underscore | digit⟩
    · exact .inl letter
    · exact .inr (.inr underscore)
    · exact .inr (.inl digit)
  | alphabetic =>
    refine ⟨List.cons_ne_nil c word, List.forall_mem_cons.mpr ⟨?_, inside⟩⟩
    rcases first with letter | ⟨other, -⟩
    · exact letter
    · cases other

theorem IdentifierRule.starts_of_isWord {rule : IdentifierRule} {c : Char} (word : rule.IsWord [c]) :
    rule.starts c = true := by
  rw [starts_iff]
  cases rule with
  | alphanumeric => exact word.1.imp_right fun underscore => ⟨rfl, underscore⟩
  | alphabetic => exact .inl (word.2 c List.mem_cons_self)

theorem Keyword.spelling_ne_of_ofSpelling? {text : String} (none : ofSpelling? text = none)
    (word : Keyword) : word.spelling ≠ text := by
  intro same
  have other := List.find?_eq_none.mp none word word.mem_all
  exact other (beq_iff_eq.mpr same)

theorem wellFormed_wordKind {rule : IdentifierRule} {word : List Char} (isWord : rule.IsWord word) :
    (wordKind word).WellFormed rule := by
  unfold wordKind
  split
  · trivial
  · rename_i none
    refine ⟨?_, Keyword.spelling_ne_of_ofSpelling? none⟩
    rwa [String.toList_ofList]

/-- **What stands in front of a line has its shape.** -/
theorem Front.wellFormed {rule : IdentifierRule} {kind : Kind} {piece rest : List Char}
    (front : Front rule (.token kind) piece rest) (oneLine : '\n' ∉ piece) : kind.WellFormed rule := by
  generalize found : Content.token kind = content at front
  cases front with
  | word first inside _ =>
    cases found
    exact wellFormed_wordKind (IdentifierRule.isWord_cons first inside)
  | string _ closed =>
    cases found
    rw [Kind.WellFormed, String.toList_ofList]
    exact ⟨closed, fun newline => oneLine (by simp [newline])⟩
  | integer digit inside _ =>
    cases found
    rw [Kind.WellFormed, String.toList_ofList]
    exact ⟨List.cons_ne_nil _ _, List.forall_mem_cons.mpr ⟨digit, inside⟩⟩
  | lineComment _ => cases found
  | blockComment _ _ => cases found
  | openBlockComment _ => cases found
  | symbol lone =>
    cases found
    refine ⟨lone.visible, lone.noDigit, fun word => ?_⟩
    have opens := lone.noWord
    rw [IdentifierRule.starts_of_isWord word] at opens
    cases opens

/-! ## A line in the cursor has no newline -/

namespace Text

theorem trimEnd_append_blank {trail : List Char} (blank : Blank trail) (text : List Char) :
    trimEnd (text ++ trail) = trimEnd text := by
  have reversed : ∀ c ∈ trail.reverse, isBlank c = true := fun c member =>
    blank c (List.mem_reverse.mp member)
  rw [trimEnd, List.reverse_append, List.dropWhile_append_of_pos reversed, trimEnd]

theorem trim_append_blank {trail : List Char} (blank : Blank trail) (text : List Char) :
    trim (text ++ trail) = trim text := by
  rcases blank_cases text with all | ⟨run, c, rest, before, visible, rfl⟩
  · rw [trim, trim, trimStart_of_blank all, trimStart_of_blank (all.append blank)]
  · rw [List.append_assoc, List.cons_append, trim, trim, trimStart_append before (.cons visible _),
      trimStart_append before (.cons visible _), ← List.cons_append, trimEnd_append_blank blank]

theorem trim_subset (text : List Char) : trim text ⊆ text := by
  obtain ⟨lead, trail, -, -, split⟩ := exists_trim text
  intro c member
  rw [split]
  simp [member]

theorem trimStart_subset (text : List Char) : trimStart text ⊆ text := by
  obtain ⟨lead, -, split⟩ := exists_trimStart text
  intro c member
  rw [split]
  exact List.mem_append_right lead member

/-- A physical line has no newline but the one at its end, and that is trimmed off. -/
theorem newline_not_mem_trim {raw : List Char} (single : lines raw = [raw]) : '\n' ∉ trim raw := by
  rcases newline_cases raw with oneLine | ⟨body, rest, oneLine, rfl⟩
  · exact fun newline => oneLine (trim_subset raw newline)
  · rw [lines_append_newline oneLine] at single
    rw [← (List.cons.inj single).1, trim_append_blank .newline]
    exact fun newline => oneLine (trim_subset body newline)

end Text

/-- **A reading hands out one physical line.** -/
theorem SourceFile.lines_of_readLine {tree : FileTree} {file next : SourceFile} {raw : List Char}
    (read : file.readLine tree = (next, .ok (some raw))) : Text.lines raw = [raw] := by
  have reads : file.Reads tree [raw] next := .cons read (.nil next)
  have single := reads.lines_flatten
  rwa [List.flatten_singleton] at single

namespace LineCursor

theorem text_keep_subset (cursor : LineCursor) (empty : cursor.text = []) (text : List Char) :
    (cursor.keep text).1.text ⊆ text := by
  rcases cursor.keep_cases text with kept | ⟨unkept, -⟩
  · rw [kept]
    exact List.Subset.refl text
  · rw [unkept, empty]
    exact List.nil_subset text

theorem text_load_subset (cursor : LineCursor) (raw : List Char) :
    (cursor.load raw).1.text ⊆ Text.trim raw := by
  unfold load
  dsimp only
  split
  · split
    · exact List.nil_subset _
    · rename_i before rest cut
      have code : codeOf true (Text.trim raw) = some rest := by rw [codeOf, if_pos rfl, cut]; rfl
      have within := List.Subset.trans (Text.trimStart_subset rest) (codeOf_suffix code).subset
      exact List.Subset.trans (text_keep_subset _ rfl (Text.trimStart rest)) within
  · exact text_keep_subset _ rfl (Text.trim raw)

/-- **A line that has been loaded has no newline.** -/
theorem newline_not_mem_load (cursor : LineCursor) {raw : List Char} (single : Text.lines raw = [raw]) :
    '\n' ∉ (cursor.load raw).1.text := fun newline =>
  Text.newline_not_mem_trim single (text_load_subset cursor raw newline)

theorem text_subset_of_remaining? {cursor : LineCursor} {rest : List Char}
    (remaining : cursor.remaining? = some rest) : rest ⊆ cursor.text := by
  obtain ⟨passed, whole, -⟩ := Utf8.eq_append_of_dropBytes? (cursor.remaining_eq.symm.trans remaining)
  intro c member
  rw [whole]
  exact List.mem_append_right passed member

end LineCursor

/-! ## Every state of a run -/

namespace Tokenizer

variable {tree : FileTree} {start t next : Tokenizer} {rule : IdentifierRule}

/-- **All tokens have their shapes**, and the line that is being scanned will yield no other: it has no
newline. -/
structure Shaped (rule : IdentifierRule) (t : Tokenizer) : Prop where
  identifiers : t.policy.identifiers = rule
  oneLine : '\n' ∉ t.cursor.text
  tokens : ∀ token ∈ t.tokens, token.kind.WellFormed rule

theorem Fresh.shaped (fresh : start.Fresh) : start.Shaped start.policy.identifiers := by
  rw [fresh.eq]
  exact ⟨rfl, List.not_mem_nil, fun token none => absurd none (Array.not_mem_empty token)⟩

/-- A lexeme on a line without a newline. -/
theorem Shaped.absorb (shaped : t.Shaped rule) {run piece rest : List Char} {content : Content}
    (remaining : t.cursor.remaining? = some (run ++ (piece ++ rest)))
    (front : Front t.policy.identifiers content piece rest) :
    ((t.pass run piece).absorb content).Shaped rule := by
  have oneLine : '\n' ∉ piece := fun newline =>
    shaped.oneLine (LineCursor.text_subset_of_remaining? remaining (by simp [newline]))
  rcases content with kind | (_ | _ | _)
  · rw [shaped.identifiers] at front
    refine ⟨shaped.identifiers, shaped.oneLine, fun token member => ?_⟩
    rcases Array.mem_push.mp member with earlier | rfl
    · exact shaped.tokens token earlier
    · exact front.wellFormed oneLine
  · exact ⟨shaped.identifiers, shaped.oneLine, shaped.tokens⟩
  · exact ⟨shaped.identifiers, shaped.oneLine, shaped.tokens⟩
  · exact ⟨shaped.identifiers, shaped.oneLine, shaped.tokens⟩

/-- **Each step keeps the tokens in shape.** -/
theorem Shaped.transition (shaped : t.Shaped rule) {outcome : Outcome}
    (taken : Transition tree t next outcome) : next.Shaped rule := by
  cases taken with
  | finished _ => exact shaped
  | completed _ _ => exact ⟨shaped.identifiers, shaped.oneLine, shaped.tokens⟩
  | unopened _ _ _ => exact ⟨shaped.identifiers, List.not_mem_nil, shaped.tokens⟩
  | opened _ _ _ => exact ⟨shaped.identifiers, List.not_mem_nil, shaped.tokens⟩
  | unreadable _ _ => exact ⟨shaped.identifiers, List.not_mem_nil, shaped.tokens⟩
  | ended _ _ => exact ⟨shaped.identifiers, List.not_mem_nil, shaped.tokens⟩
  | loaded _ read =>
    have oneLine := t.cursor.newline_not_mem_load (SourceFile.lines_of_readLine read)
    exact ⟨shaped.identifiers, oneLine, shaped.tokens⟩
  | blank _ _ _ => exact ⟨shaped.identifiers, shaped.oneLine, shaped.tokens⟩
  | lexeme _ remaining _ front => exact shaped.absorb remaining front

theorem Visits.shaped (visited : Visits start t) (coherent : start.Coherent) (shaped : start.Shaped rule) :
    t.Shaped rule := by
  induction visited with
  | refl => exact shaped
  | step tree before ih => exact ih.transition ((before.coherent coherent).transition_step tree)

/-- A token stands on a line that has been counted. -/
theorem Tallied.line_pos {parts : List (List Token)} (tallied : Tallied tree start t parts) {token : Token}
    (member : token ∈ t.tokens) : 1 ≤ token.line.toNat := by
  rw [← Array.mem_toList_iff, tallied.tokens, List.mem_flatten] at member
  obtain ⟨part, found, inside⟩ := member
  obtain ⟨i, there⟩ := List.mem_iff_getElem?.mp found
  exact Nat.one_le_of_lt ((tallied.ordered there).inside token inside).1

/-- **Every token is well formed.** In each state that is visited on the way from the start, whatever was asked
for and whatever has become of the files in between, an identifier is a word of the rule and no reserved
word, a number is digits, a string has neither a quotation mark nor a newline, and a symbol is a visible
character that is no digit and no word. And in each state of a run over files with fewer than 2 to the 32 lines
together, the tokens stand on line 1 or behind it. -/
theorem visits_wellFormed (fresh : start.Fresh) :
    (∀ t, Visits start t → ∀ token ∈ t.tokens, token.kind.WellFormed start.policy.identifiers) ∧
    ∀ tree : FileTree, (start.queue.map tree.linesAt).sum < UInt32.size →
      ∀ n, ∀ token ∈ (start.after tree n).tokens, 1 ≤ token.line.toNat := by
  constructor
  · intro t visited
    exact (visited.shaped fresh.coherent fresh.shaped).tokens
  · intro tree few n token member
    obtain ⟨parts, tallied⟩ := fresh.tallied_after few n
    exact tallied.line_pos member

/-- A text in which lexemes touch, with a quotation mark that no other follows on its line. -/
def touching : List Char := "do1\"x\n\"y_2\"/**/_\n".toList

/-- The law at this text, under both rules. -/
theorem visits_wellFormed_touching :
    let tree := FileTree.ofTexts [("A.jack", touching)]
    let wide := ofQueue { identifiers := .alphanumeric } ["A.jack"]
    let narrow := ofQueue { identifiers := .alphabetic } ["A.jack"]
    wide.Fresh ∧ narrow.Fresh ∧ (["A.jack"].map tree.linesAt).sum = 2 ∧
      (wide.after tree 20).tokens =
        #[⟨.identifier "do1", 1⟩, ⟨.symbol '"', 1⟩, ⟨.identifier "x", 1⟩, ⟨.stringConstant "y_2", 2⟩,
          ⟨.identifier "_", 2⟩] ∧
      (narrow.after tree 20).tokens =
        #[⟨.keyword .kDo, 1⟩, ⟨.integerConstant "1", 1⟩, ⟨.symbol '"', 1⟩, ⟨.identifier "x", 1⟩,
          ⟨.stringConstant "y_2", 2⟩, ⟨.symbol '_', 2⟩] ∧
      (∀ token ∈ (wide.after tree 20).tokens, token.kind.WellFormed .alphanumeric ∧ 1 ≤ token.line.toNat) ∧
      ∀ token ∈ (narrow.after tree 20).tokens, token.kind.WellFormed .alphabetic ∧ 1 ≤ token.line.toNat := by
  intro tree wide narrow
  have counts : (["A.jack"].map tree.linesAt).sum = 2 := by decide +kernel
  have few : (["A.jack"].map tree.linesAt).sum < UInt32.size := by
    rw [counts]
    decide
  obtain ⟨shapes, lines⟩ := visits_wellFormed (.queue _ _ : wide.Fresh)
  obtain ⟨shapes', lines'⟩ := visits_wellFormed (.queue _ _ : narrow.Fresh)
  refine ⟨.queue _ _, .queue _ _, counts, by decide +kernel, by decide +kernel, ?_, ?_⟩
  · exact fun token member => ⟨shapes _ (.after tree 20) token member, lines tree few 20 token member⟩
  · exact fun token member => ⟨shapes' _ (.after tree 20) token member, lines' tree few 20 token member⟩

end Tokenizer

end JackTokens
