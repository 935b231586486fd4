import JackTokens.Policy
import JackTokens.Text.Blank
import JackTokens.Text.Split
import JackTokens.Text.Utf8
import JackTokens.Token.Basic

/-!
# Classifying the front of a text

Five rules look at the front of a text, and the first that matches decides (`Rule.priority`). A match
is a `Lexeme`: the rule, the number of bytes it takes, and either the token it yields or the comment
it discards.

- A word is the longest run that the identifier rule accepts. It is a keyword if the whole word is
  reserved, and an identifier otherwise.
- A string is closed by the next quotation mark; its lexeme is what stands between the two.
- An integer is the longest run of ASCII digits.
- The last rule takes whatever else is there. Two slashes discard the rest of the text; a slash and a
  star discard up to the first star and slash behind them, or the rest of the text where there is
  none. Any other character that is not blank is a symbol, the quotation mark that no other closes
  included.
-/

namespace JackTokens

/-- The rules a classifier tries. -/
inductive Rule where
  | keyword | identifier | stringConstant | integerConstant | symbol
  deriving DecidableEq, Repr, Inhabited

/-- A comment that yields no token. -/
inductive Discard where
  /-- From two slashes to the end of the text. -/
  | lineComment
  /-- A block comment that is closed. -/
  | blockComment
  /-- A block comment that the text leaves open. -/
  | openBlockComment
  deriving DecidableEq, Repr, Inhabited

/-- What a match amounts to. -/
inductive Content where
  | token (kind : Kind)
  | discard (comment : Discard)
  deriving DecidableEq, Repr, Inhabited

/-- **A match at the front of a text**: the rule, the bytes it takes, and what it amounts to. -/
structure Lexeme where
  rule : Rule
  length : Nat
  content : Content
  deriving DecidableEq, Repr, Inhabited

/-- The longest identifier-shaped word at the front of a text; empty where none starts. -/
def IdentifierRule.word (rule : IdentifierRule) (text : List Char) : List Char :=
  match text with
  | [] => []
  | c :: _ => if rule.starts c then text.takeWhile rule.continues else []

/-- A comment at the front of a text, with its length in bytes. -/
def comment? (text : List Char) : Option (Discard × Nat) :=
  match text with
  | '/' :: '/' :: _ => some (.lineComment, Utf8.size text)
  | '/' :: '*' :: body =>
    match Text.cutAt? '*' '/' body with
    | some (inside, _) => some (.blockComment, 2 + Utf8.size inside + 2)
    | none => some (.openBlockComment, Utf8.size text)
  | _ => none

namespace Rule

/-- The order in which the rules are tried. -/
def priority : List Rule := [keyword, identifier, stringConstant, integerConstant, symbol]

/-- The name of a rule. -/
def name : Rule → String
  | keyword => "Keyword"
  | identifier => "Identifier"
  | stringConstant => "StringConstant"
  | integerConstant => "IntegerConstant"
  | symbol => "Symbol"

/-- A reserved word: the whole word at the front is one. -/
def keyword? (identifiers : IdentifierRule) (text : List Char) : Option Lexeme :=
  let word := identifiers.word text
  (Keyword.ofSpelling? (String.ofList word)).map fun k =>
    ⟨keyword, Utf8.size word, .token (.keyword k)⟩

/-- An identifier: the word at the front, reserved or not. -/
def identifier? (identifiers : IdentifierRule) (text : List Char) : Option Lexeme :=
  let word := identifiers.word text
  if word.isEmpty then none
  else some ⟨identifier, Utf8.size word, .token (.identifier (String.ofList word))⟩

/-- A string: a quotation mark that a later one closes. -/
def stringConstant? (text : List Char) : Option Lexeme :=
  match text with
  | '"' :: rest =>
    match rest.dropWhile (· != '"') with
    | [] => none
    | _ :: _ =>
      let inside := rest.takeWhile (· != '"')
      some ⟨stringConstant, Utf8.size inside + 2, .token (.stringConstant (String.ofList inside))⟩
  | _ => none

/-- An integer: the run of digits at the front. -/
def integerConstant? (text : List Char) : Option Lexeme :=
  let digits := text.takeWhile Char.isDigit
  if digits.isEmpty then none
  else some ⟨integerConstant, Utf8.size digits, .token (.integerConstant (String.ofList digits))⟩

/-- A comment, or any character that is not blank. -/
def symbol? (text : List Char) : Option Lexeme :=
  match comment? text with
  | some (comment, length) => some ⟨symbol, length, .discard comment⟩
  | none =>
    match text with
    | [] => none
    | c :: _ => if Text.isBlank c then none else some ⟨symbol, c.utf8Size, .token (.symbol c)⟩

/-- What a rule finds at the front of a text. -/
def match? (identifiers : IdentifierRule) (rule : Rule) (text : List Char) : Option Lexeme :=
  match rule with
  | keyword => keyword? identifiers text
  | identifier => identifier? identifiers text
  | stringConstant => stringConstant? text
  | integerConstant => integerConstant? text
  | symbol => symbol? text

end Rule

/-- **The lexeme at the front of a text**: what the first rule that matches finds. -/
def classify (identifiers : IdentifierRule) (text : List Char) : Option Lexeme :=
  Rule.priority.findSome? fun rule => rule.match? identifiers text

/-! ## Every lexeme takes something

The word of an empty text is empty, and the empty word is not reserved; so each rule takes at least
one byte when it matches. -/

@[simp] theorem Keyword.ofSpelling?_empty : Keyword.ofSpelling? (String.ofList []) = none := by decide

theorem comment?_length_pos {text : List Char} {comment : Discard} {length : Nat}
    (found : comment? text = some (comment, length)) : 0 < length := by
  unfold comment? at found
  split at found
  · obtain ⟨-, rfl⟩ := found
    exact Utf8.size_pos (by simp)
  · split at found
    · obtain ⟨-, rfl⟩ := found
      omega
    · obtain ⟨-, rfl⟩ := found
      exact Utf8.size_pos (by simp)
  · simp at found

theorem Rule.match?_length_pos {identifiers : IdentifierRule} {rule : Rule} {text : List Char}
    {lexeme : Lexeme} (found : rule.match? identifiers text = some lexeme) : 0 < lexeme.length := by
  cases rule with
  | keyword =>
    simp only [match?, keyword?, Option.map_eq_some_iff] at found
    obtain ⟨k, reserved, rfl⟩ := found
    refine Utf8.size_pos fun empty => ?_
    rw [empty, Keyword.ofSpelling?_empty] at reserved
    simp at reserved
  | identifier =>
    simp only [match?, identifier?] at found
    split at found
    · simp at found
    · rename_i nonempty
      simp only [Option.some.injEq] at found
      subst found
      exact Utf8.size_pos (by simpa using nonempty)
  | stringConstant =>
    simp only [match?, stringConstant?] at found
    split at found
    · split at found
      · simp at found
      · simp only [Option.some.injEq] at found
        subst found
        simp
    · simp at found
  | integerConstant =>
    simp only [match?, integerConstant?] at found
    split at found
    · simp at found
    · rename_i nonempty
      simp only [Option.some.injEq] at found
      subst found
      exact Utf8.size_pos (by simpa using nonempty)
  | symbol =>
    simp only [match?, symbol?] at found
    split at found
    · rename_i comment length isComment
      simp only [Option.some.injEq] at found
      subst found
      exact comment?_length_pos isComment
    · split at found
      · simp at found
      · split at found
        · simp at found
        · simp only [Option.some.injEq] at found
          subst found
          exact Char.utf8Size_pos _

/-- A lexeme takes at least one byte. -/
theorem classify_length_pos {identifiers : IdentifierRule} {text : List Char} {lexeme : Lexeme}
    (found : classify identifiers text = some lexeme) : 0 < lexeme.length := by
  obtain ⟨rule, -, matched⟩ := List.exists_of_findSome?_eq_some found
  exact Rule.match?_length_pos matched

end JackTokens
