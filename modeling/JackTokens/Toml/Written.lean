/-!
# Strings as they are written

A string is written in the first of four ways that suits it: between double quotes, between single
quotes, and then the same between three quotes. The first three are passed over when they would need
an escape, a tab apart; a string that none of the four suits, because it holds a control character, or
a backslash together with too many single quotes, is written between double quotes after all, with
escapes.

Between three quotes a string that holds a line break starts on a line of its own; that line break does
not count when the string is read.
-/

namespace JackTokens.Toml

namespace Written

/-- A control character, other than the tab and the line feed: only an escape can stand for it. -/
def isControl (c : Char) : Bool := (c < ' ' && c != '\t' && c != '\n') || c == '\x7f'

/-- The length of the longest run of a character, given the length of the run right before the text. -/
def longestRunFrom (mark : Char) : Nat → List Char → Nat
  | behind, [] => behind
  | behind, c :: rest =>
    if c == mark then longestRunFrom mark (behind + 1) rest
    else max behind (longestRunFrom mark 0 rest)

/-- The length of the longest run of a character. -/
def longestRun (mark : Char) (text : List Char) : Nat := longestRunFrom mark 0 text

/-- A digit below sixteen in upper case. -/
def hexDigit (n : Nat) : Char := "0123456789ABCDEF".toList.getD n '0'

/-- The escape of a character, if it needs one. A line feed needs none between three quotes. -/
def escape? (spread : Bool) (c : Char) : Option (List Char) :=
  match c with
  | '\x08' => some ['\\', 'b']
  | '\t' => some ['\\', 't']
  | '\n' => if spread then none else some ['\\', 'n']
  | '\x0c' => some ['\\', 'f']
  | '\r' => some ['\\', 'r']
  | '\\' => some ['\\', '\\']
  | c =>
    if isControl c then
      some ['\\', 'u', '0', '0', hexDigit (c.toNat / 16), hexDigit (c.toNat % 16)]
    else none

/-- A text with escapes. So many double quotes in a row stand unescaped, counted from the last escape or
other character on. -/
def escaped (spread : Bool) (allowed : Nat) : Nat → List Char → List Char
  | _, [] => []
  | behind, c :: rest =>
    if c == '"' then
      if behind < allowed then c :: escaped spread allowed (behind + 1) rest
      else '\\' :: c :: escaped spread allowed 0 rest
    else
      match escape? spread c with
      | some escape => escape ++ escaped spread allowed 0 rest
      | none => c :: escaped spread allowed 0 rest

/-- The ways to write a string. -/
inductive Form where
  /-- Between double quotes, with escapes. -/
  | basic
  /-- Between single quotes, as it is. -/
  | literal
  /-- Between three double quotes, with escapes. -/
  | multilineBasic
  /-- Between three single quotes, as it is. -/
  | multilineLiteral
  deriving DecidableEq, Repr, Inhabited

/-- The way a text is written. -/
def form (text : List Char) : Form :=
  let control := text.any isControl
  let spread := text.contains '\n'
  let backslash := text.contains '\\'
  if !control && !backslash && !spread && !text.contains '"' then .basic
  else if !control && !spread && !text.contains '\'' then .literal
  else if !control && !backslash && longestRun '"' text ≤ 2 then .multilineBasic
  else if !control && longestRun '\'' text ≤ 2 then .multilineLiteral
  else if spread then .multilineBasic
  else .basic

/-- What stands between twice three quotes: a text that holds a line break has one before it. -/
def opened (text inside : List Char) : List Char :=
  if text.contains '\n' then '\n' :: inside else inside

/-- A text in a form. -/
def inForm (text : List Char) : Form → List Char
  | .basic => ['"'] ++ escaped false 0 0 text ++ ['"']
  | .literal => ['\''] ++ text ++ ['\'']
  | .multilineBasic => ['"', '"', '"'] ++ opened text (escaped true 2 0 text) ++ ['"', '"', '"']
  | .multilineLiteral => ['\'', '\'', '\''] ++ opened text text ++ ['\'', '\'', '\'']

end Written

/-- **A string as it is written.** -/
def written (text : List Char) : List Char := Written.inForm text (Written.form text)

end JackTokens.Toml
