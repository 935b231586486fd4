import JackTokens.Toml.Scalar

/-!
# TOML documents

A document is a list of pairs, and then of sections, each with a header and pairs of its own. Reading
finds the lines; placing them, by the rules of tables, finds what they mean. A text that breaks a rule
of either kind means nothing, and no more is said about it.
-/

namespace JackTokens.Toml

namespace Reader

/-- How many parts a key may have, and how deep values may nest. -/
def nestingLimit : Nat := 79

/-- Reads a dotted key. -/
def key : Reader Key := do
  let parts ← keyParts
  match parts.getLast? with
  | some name => if parts.length ≤ nestingLimit then return ⟨parts.dropLast, name⟩ else failure
  | none => failure

/-- Reads a key and its value. -/
def pair (value : Reader Value) : Reader Pair := do
  let key ← key
  exactly '='
  blanks
  let value ← value
  blanks
  return ⟨key, value⟩

/-- Reads an array. It may spread over lines, and its last item may have a comma behind it. -/
def array (value : Reader Value) : Reader Value := do
  exactly '['
  gap
  let items ← optional do
    let items ← separated (value <* gap) (exactly ',' *> gap)
    let _ ← optional (exactly ',' *> gap)
    return items
  exactly ']'
  return .array (items.getD [])

/-- Reads a table between braces. It stands on one line. -/
def inlineTable (value : Reader Value) : Reader Value := do
  exactly '\x7b'
  let pairs ← optional (separated (pair value) (exactly ','))
  blanks
  exactly '\x7d'
  let entries ← Entries.assignAll .inline [] (pairs.getD [])
  return .table .inline entries

/-- **Reads a value** with at most so many arrays and tables around each other. -/
def value : Nat → Reader Value
  | 0 => scalar
  | depth + 1 => scalar <|> array (value depth) <|> inlineTable (value depth)

/-- Reads a pair that fills a line. -/
def pairLine : Reader Pair := pair (value nestingLimit) <* lineRest

/-- Reads the header of a section: is it one of an array of tables, and its key. -/
def header : Reader (Bool × Key) :=
  ((do
      word "[["
      let key ← key
      word "]]"
      return (true, key))
    <|> (do
      exactly '['
      let key ← key
      exactly ']'
      return (false, key)))
  <* lineRest

/-- Reads the pairs up to the next header. -/
def pairs : Reader (List Pair) := many (pairLine <* gap)

/-- Reads a header and the pairs below it. -/
def headed : Reader Section := do
  let (repeated, key) ← header
  gap
  return ⟨repeated, key, ← pairs⟩

/-- Reads a whole document: the pairs before the first header, and the sections. -/
def document : Reader (List Pair × List Section) := do
  let _ ← optional (exactly '\ufeff')
  gap
  let front ← pairs
  let sections ← many headed
  atEnd
  return (front, sections)

end Reader

/-- **The entries of a document**, if the text is one. -/
def parse? (text : List Char) : Option Entries := do
  let ((front, sections), _) ← Reader.document text
  let entries ← Entries.assignAll .header [] front
  sections.foldlM Section.place entries

end JackTokens.Toml
