import JackTokens.Toml.Reader

/-!
# TOML strings

The four ways to write a string, and the blanks, comments and line ends around everything else.

Basic strings stand between double quotes and have escapes; literal strings stand between single quotes
and have none. Either may stand between three quotes and then hold line breaks; a line break right
behind the opening quotes does not count, and one or two quotes may stand inside, also right before
the closing ones.
-/

namespace JackTokens.Toml

namespace Reader

/-- A space or a tab. -/
def isBlank (c : Char) : Bool := c == ' ' || c == '\t'

/-- A character that may stand anywhere within a line: no control character but the tab. -/
def isPlain (c : Char) : Bool := c == '\t' || (' ' ≤ c && c != '\x7f')

/-- Reads blanks within a line. -/
def blanks : Reader Unit := do
  let _ ← run isBlank

/-- Reads the end of a line: a line feed, or a carriage return with one. -/
def newline : Reader Unit := exactly '\n' <|> word "\r\n"

/-- Reads a comment up to the end of its line. -/
def comment : Reader Unit := do
  exactly '#'
  let _ ← run isPlain

/-- Reads the end of a line, or of the text. -/
def lineEnd : Reader Unit := newline <|> atEnd

/-- Reads what may follow on a line that is complete. -/
def lineRest : Reader Unit := do
  blanks
  let _ ← optional comment
  lineEnd

/-- Reads blanks, line ends and comments. -/
def gap : Reader Unit := do
  let _ ← many ((do let _ ← char isBlank) <|> newline <|> (comment *> lineEnd))

/-- The value of a hexadecimal digit. -/
def hexDigit? (c : Char) : Option Nat :=
  if c.isDigit then some (c.toNat - '0'.toNat)
  else if 'a' ≤ c ∧ c ≤ 'f' then some (c.toNat - 'a'.toNat + 10)
  else if 'A' ≤ c ∧ c ≤ 'F' then some (c.toNat - 'A'.toNat + 10)
  else none

/-- Reads a number of hexadecimal digits. -/
def hexadecimal (count : Nat) : Reader Nat := fun text =>
  let digits := text.take count
  if digits.length = count then
    (digits.foldlM (fun value c => (hexDigit? c).map (16 * value + ·)) 0).map
      fun value => (value, text.drop count)
  else none

/-- The character with a number. Surrogates and what lies beyond the last plane are none. -/
def scalar? (value : Nat) : Option Char :=
  if valid : value.isValidChar then some (Char.ofNatAux value valid) else none

/-- Reads what follows the backslash of an escape. -/
def escaped : Reader Char := do
  match ← char fun _ => true with
  | 'b' => pure '\x08'
  | 't' => pure '\t'
  | 'n' => pure '\n'
  | 'f' => pure '\x0c'
  | 'r' => pure '\r'
  | '"' => pure '"'
  | '\\' => pure '\\'
  | 'u' => scalar? (← hexadecimal 4)
  | 'U' => scalar? (← hexadecimal 8)
  | _ => failure

/-- A character that stands for itself in a basic string. -/
def isBasic (c : Char) : Bool := isPlain c && c != '"' && c != '\\'

/-- A character that stands for itself in a literal string. -/
def isLiteral (c : Char) : Bool := isPlain c && c != '\''

/-- Reads one character of a basic string. -/
def basicChar : Reader Char := char isBasic <|> (exactly '\\' *> escaped)

/-- Reads a basic string on one line. -/
def basic : Reader (List Char) := do
  exactly '"'
  let text ← many basicChar
  exactly '"'
  return text

/-- Reads a literal string on one line. -/
def literal : Reader (List Char) := do
  exactly '\''
  let text ← run isLiteral
  exactly '\''
  return text

/-- Reads a backslash at the end of a line, with all blanks and line breaks behind it. -/
def continuation : Reader Unit := do
  exactly '\\'
  blanks
  newline
  let _ ← many ((do let _ ← char isBlank) <|> newline)

/-- Reads one or two quotes, with no further quote behind them. -/
def fewQuotes (quote : Char) : Reader (List Char) := fun text =>
  let quotes := text.takeWhile (· == quote)
  if quotes.length = 1 ∨ quotes.length = 2 then some (quotes, text.drop quotes.length) else none

/-- Reads the three quotes that end a string, with up to two that still belong to it before them. -/
def closingQuotes (quote : Char) : Reader (List Char) := fun text =>
  let quotes := text.takeWhile (· == quote)
  if 3 ≤ quotes.length ∧ quotes.length ≤ 5 then some (quotes.drop 3, text.drop quotes.length)
  else none

/-- Reads a string between three quotes, made of pieces. -/
def multiline (quote : Char) (piece : Reader (List Char)) : Reader (List Char) := do
  word (String.ofList [quote, quote, quote])
  let _ ← optional newline
  let pieces ← many (piece <|> (newline *> pure ['\n']) <|> fewQuotes quote)
  let last ← closingQuotes quote
  return pieces.flatten ++ last

/-- Reads a basic string over several lines. -/
def multilineBasic : Reader (List Char) :=
  multiline '"' ((continuation *> pure []) <|> ((fun c => [c]) <$> basicChar))

/-- Reads a literal string over several lines. -/
def multilineLiteral : Reader (List Char) :=
  multiline '\'' ((fun c => [c]) <$> char isLiteral)

/-- **Reads a string**, in any of the four ways. -/
def string : Reader String :=
  String.ofList <$> (multilineBasic <|> basic <|> multilineLiteral <|> literal)

/-- A character of a key that needs no quotes. -/
def isBare (c : Char) : Bool := c.isAlphanum || c == '_' || c == '-'

/-- Reads one part of a key. -/
def keyPart : Reader String := do
  blanks
  let part ← basic <|> literal <|> (do
    let part ← run isBare
    if part.isEmpty then failure
    return part)
  blanks
  return String.ofList part

/-- Reads a dotted key, as the list of its parts. -/
def keyParts : Reader (List String) := separated keyPart (exactly '.')

end Reader

end JackTokens.Toml
