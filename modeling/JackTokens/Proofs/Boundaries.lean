import JackTokens.Proofs.Lossless
import JackTokens.Proofs.Transitions

/-!
# Nothing is read outside its bounds

Positions and lengths are numbers of bytes, and the text they are about is made of characters of one to
four bytes. Nothing in a number says that it is a place between two characters. A length that is off by
one, for a string with its quotation marks or for a comment with its markers, would put the cursor inside a
character, and the failure would show up one step later, when the rest of the line is asked for.

**The law** (`visits_within`). In every state that a tokenizer visits, the cursor stands between two
characters of its line, and so does the one that has skipped the blanks. What is found there takes at least
one byte, no more than there are, and ends between two characters. Behind the end of a comment a line is cut
between two characters, too. The records point into the stream, and the place of the last token into the
records. So no request ever comes back with a text that no rule matches.

It follows from `Coherent`, which holds in all those states, and from `Front`, which knows the piece that a
lexeme was read from.
-/

namespace JackTokens

namespace LineCursor

variable {cursor : LineCursor}

/-- **A cursor that stands in its line**: not behind its end, and between two characters. -/
structure Within (cursor : LineCursor) : Prop where
  bounded : cursor.position ≤ Utf8.size cursor.text
  boundary : ∃ passed rest, cursor.text = passed ++ rest ∧ cursor.position = Utf8.size passed

theorem within_of_remaining? {rest : List Char} (remaining : cursor.remaining? = some rest) :
    cursor.Within := by
  obtain ⟨passed, whole, counted⟩ :=
    Utf8.eq_append_of_dropBytes? (cursor.remaining_eq.symm.trans remaining)
  refine ⟨?_, passed, rest, whole, counted.symm⟩
  rw [whole, Utf8.size_append, counted]
  omega

end LineCursor

/-- **A lexeme fits** where a cursor stands: it takes at least one byte and no more than there are, it ends
between two characters, and it is what stands there. -/
structure Lexeme.Fits (rule : IdentifierRule) (cursor : LineCursor) (lexeme : Lexeme) : Prop where
  positive : 1 ≤ lexeme.length
  bounded : lexeme.length ≤ cursor.bytesLeft
  boundary : ∃ piece rest, cursor.remaining? = some (piece ++ rest) ∧ lexeme.length = Utf8.size piece ∧
    Front rule lexeme.content piece rest

namespace LineCursor

variable {cursor : LineCursor}

theorem fits_of_front {rule : IdentifierRule} {content : Content} {piece rest : List Char}
    (remaining : cursor.remaining? = some (piece ++ rest)) (front : Front rule content piece rest) :
    Lexeme.Fits rule cursor ⟨content.rule, Utf8.size piece, content⟩ where
  positive := by
    obtain ⟨c, tail, rfl, -⟩ := front.head
    exact Utf8.size_pos (List.cons_ne_nil c tail)
  bounded := by
    have counted := size_of_remaining? remaining
    rw [Utf8.size_append] at counted
    simp only [bytesLeft]
    omega
  boundary := ⟨piece, rest, remaining, rfl, front⟩

/-- **One lexeme of a line**, from a cursor that is not inside a character: the blanks can be skipped, and
behind them the line ends or a lexeme fits, behind which the cursor stands in its line again. -/
theorem exists_fits (rule : IdentifierRule) {text : List Char} (remaining : cursor.remaining? = some text) :
    ∃ there, cursor.skipBlank? = some there ∧ there.Within ∧
      (there.atEnd = true ∨ ∃ lexeme, classify rule (there.remaining?.getD []) = some lexeme ∧
        lexeme.Fits rule there ∧ (there.advance lexeme.length).Within ∧
        (there.advance lexeme.length).position = there.position + lexeme.length) := by
  rcases Text.blank_cases text with blank | ⟨run, c, behind, blank, visible, split⟩
  · have whole : cursor.remaining? = some (text ++ []) := by rw [List.append_nil, remaining]
    have skipped := remaining?_advance whole
    exact ⟨_, skipBlank?_append whole blank (.nil _), within_of_remaining? skipped, .inl (atEnd_nil skipped)⟩
  · rw [split] at remaining
    have skipped := remaining?_advance remaining
    refine ⟨_, skipBlank?_append remaining blank (.cons visible behind), within_of_remaining? skipped, .inr ?_⟩
    obtain ⟨content, piece, rest, cut, front⟩ := exists_front rule visible behind
    rw [cut] at skipped
    refine ⟨_, ?_, fits_of_front skipped front, within_of_remaining? (remaining?_advance skipped),
      position_advance skipped⟩
    rw [skipped, Option.getD_some, classify_front front]

end LineCursor

/-- Behind the end of a comment a text is cut between two characters. -/
theorem Text.dropBytes?_cutAt? {text inside rest : List Char}
    (found : cutAt? '*' '/' text = some (inside, rest)) :
    Utf8.dropBytes? (Utf8.size inside + 2) text = some rest := by
  rcases marker_cases '*' '/' text with unmarked | ⟨before, behind, rfl, first⟩
  · rw [cutAt?_of_unmarked unmarked] at found
    cases found
  · rw [cutAt?_append first] at found
    cases found
    have size : Utf8.size (inside ++ ['*', '/']) = Utf8.size inside + 2 := by
      rw [Utf8.size_append]
      rfl
    have whole : inside ++ '*' :: '/' :: rest = (inside ++ ['*', '/']) ++ rest := by simp
    rw [← size, whole]
    exact Utf8.dropBytes?_append (inside ++ ['*', '/']) rest

namespace Tokenizer

variable {tree : FileTree} {t : Tokenizer}

/-- A step fails over a file, never over a text. -/
theorem Transition.ne_malformedLexeme {next : Tokenizer} {outcome : Outcome}
    (taken : Transition tree t next outcome) (file : String) (line : UInt32) (text : String) :
    outcome ≠ .failed (.malformedLexeme file line text) := by
  cases taken with
  | @lexeme _ _ _ _ content _ _ _ _ => cases content <;> nofun
  | _ => nofun

theorem Coherent.advance_ne_malformedLexeme (coherent : t.Coherent) (tree : FileTree) (file : String)
    (line : UInt32) (text : String) :
    (t.advance tree).2 ≠ .error (.malformedLexeme file line text) := by
  intro malformed
  obtain ⟨last, visited, -, ends⟩ := advance_last tree t
  have taken := (visited.coherent coherent).transition_step tree
  rw [malformed] at ends
  rcases ends with ⟨token, -, found⟩ | ⟨-, found⟩ | ⟨e, failed, found⟩
  · cases found
  · cases found
  · cases found
    exact taken.ne_malformedLexeme file line text failed

theorem Coherent.tokenizeAll_ne_malformedLexeme (coherent : t.Coherent) (tree : FileTree) (file : String)
    (line : UInt32) (text : String) :
    (t.tokenizeAll tree).2 ≠ .error (.malformedLexeme file line text) := by
  intro malformed
  obtain ⟨last, visited, -, ends⟩ := tokenizeAll_last tree t
  have taken := (visited.coherent coherent).transition_step tree
  rw [malformed] at ends
  rcases ends with ⟨-, found⟩ | ⟨e, failed, found⟩
  · cases found
  · cases found
    exact taken.ne_malformedLexeme file line text failed

theorem Coherent.take_ne_malformedLexeme (coherent : t.Coherent) (tree : FileTree) (n : Nat)
    (file : String) (line : UInt32) (text : String) :
    .error (.malformedLexeme file line text) ∉ (t.take tree n).2 := by
  induction n generalizing t with
  | zero => exact List.not_mem_nil
  | succ n ih =>
    have later := (Visits.refl.advance tree).coherent coherent
    have first := coherent.advance_ne_malformedLexeme tree file line text
    rw [take]
    split
    · exact List.not_mem_nil
    · rename_i next token asked
      rw [asked] at later
      rw [List.mem_cons, not_or]
      refine ⟨?_, ih later⟩
      intro same
      cases same
    · rename_i next e asked
      rw [asked] at later first
      rw [List.mem_cons, not_or]
      refine ⟨?_, ih later⟩
      intro same
      cases same
      exact first rfl

/-! ## The law -/

/-- **Nothing is read outside its bounds.** In every state that a tokenizer visits the cursor stands in its
line. With a line to scan, the blanks can be skipped, the cursor then stands in its line, and the line ends
there or a lexeme fits, behind which the cursor stands in its line again, as many bytes further on as the
lexeme takes. A line that ends a comment is cut between two characters. The last token came from a file that
has a record, and the section of each record is part of the stream. No step and no request fails over a text
that no rule matches. -/
theorem visits_within {policy : Policy} {queue : List String}
    (visited : Visits (ofQueue policy queue) t) :
    t.cursor.Within ∧
    (∀ file, t.phase = .lineBuffered file →
      ∃ there, t.cursor.skipBlank? = some there ∧ there.Within ∧
        (there.atEnd = true ∨
          ∃ lexeme, classify t.policy.identifiers (there.remaining?.getD []) = some lexeme ∧
            lexeme.Fits t.policy.identifiers there ∧ (there.advance lexeme.length).Within ∧
            (there.advance lexeme.length).position = there.position + lexeme.length)) ∧
    (∀ raw inside rest, Text.cutAt? '*' '/' (Text.trim raw) = some (inside, rest) →
      Utf8.dropBytes? (Utf8.size inside + 2) (Text.trim raw) = some rest) ∧
    (∀ i, t.lastEmitted = some i → i < t.files.size) ∧
    (∀ record ∈ t.files, record.first + record.count ≤ t.tokens.size) ∧
    ∀ tree file line text,
      (t.step tree).2 ≠ .failed (.malformedLexeme file line text) ∧
      (t.advance tree).2 ≠ .error (.malformedLexeme file line text) ∧
      (t.tokenizeAll tree).2 ≠ .error (.malformedLexeme file line text) ∧
      ∀ n, .error (.malformedLexeme file line text) ∉ (t.take tree n).2 := by
  have coherent := coherent_of_visits visited
  obtain ⟨text, remaining⟩ := coherent.boundary
  refine ⟨LineCursor.within_of_remaining? remaining, ?_, ?_, ?_, ?_, ?_⟩
  · intro file _
    exact LineCursor.exists_fits t.policy.identifiers remaining
  · intro raw inside rest found
    exact Text.dropBytes?_cutAt? found
  · intro i found
    exact coherent.emitted found
  · intro record member
    exact coherent.sections member
  · intro tree file line text
    exact ⟨(coherent.transition_step tree).ne_malformedLexeme file line text,
      coherent.advance_ne_malformedLexeme tree file line text,
      coherent.tokenizeAll_ne_malformedLexeme tree file line text,
      fun n => coherent.take_ne_malformedLexeme tree n file line text⟩

/-- The law at a line where a character of two bytes has been passed, and a blank and a string with another
one are next. -/
theorem visits_within_accented :
    let tree := FileTree.ofTexts [("Main.jack", "é \"é\"".toList)]
    let start := ofQueue {} ["Main.jack"]
    let t := start.after tree 3
    Visits start t ∧ t.phase = .lineBuffered ⟨"Main.jack", "Main.jack", .file 0 7 []⟩ ∧
      t.cursor.position = 2 ∧ t.cursor.Within ∧
      (∃ there lexeme, t.cursor.skipBlank? = some there ∧ there.position = 3 ∧
        classify .alphanumeric (there.remaining?.getD []) = some lexeme ∧
        lexeme = ⟨.stringConstant, 4, .token (.stringConstant "é")⟩ ∧
        lexeme.Fits .alphanumeric there ∧ (there.advance lexeme.length).position = 7) ∧
      ∀ file line text, (t.advance tree).2 ≠ .error (.malformedLexeme file line text) := by
  intro tree start t
  have visited : Visits start t := .after tree 3
  have buffered : t.phase = .lineBuffered ⟨"Main.jack", "Main.jack", .file 0 7 []⟩ := by decide +kernel
  have rule : t.policy.identifiers = .alphanumeric := by decide +kernel
  obtain ⟨within, scanned, -, -, -, sound⟩ := visits_within visited
  rw [rule] at scanned
  obtain ⟨there, skipped, -, found⟩ := scanned _ buffered
  have blank : t.cursor.skipBlank? = some (t.cursor.advance 1) := by decide +kernel
  cases blank.symm.trans skipped
  refine ⟨visited, buffered, by decide +kernel, within, ?_, fun file line text => (sound tree file line text).2.1⟩
  rcases found with ended | ⟨lexeme, classified, fits, -, moved⟩
  · exact absurd ended (by decide +kernel)
  · have string : classify .alphanumeric ((t.cursor.advance 1).remaining?.getD []) =
        some ⟨.stringConstant, 4, .token (.stringConstant "é")⟩ := by decide +kernel
    cases string.symm.trans classified
    exact ⟨_, _, blank, by decide +kernel, string, rfl, fits, moved.trans (by decide +kernel)⟩

end Tokenizer

end JackTokens
