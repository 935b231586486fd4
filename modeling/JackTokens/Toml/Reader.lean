/-!
# Readers

A **reader** takes something off the front of a text, or refuses. It has no memory but the text that is
left, so a reader that refuses has taken nothing, and the choice `first <|> second` tries the second
on the same text.

Repetition takes its bound from the text: an item that is worth repeating takes at least one character,
so there are at most as many items as characters, and the text itself does for the count.
-/

namespace JackTokens.Toml

/-- A **reader**. -/
abbrev Reader := StateT (List Char) Option

namespace Reader

/-- Reads a character of a class. -/
def char (accepts : Char → Bool) : Reader Char := fun
  | c :: rest => if accepts c then some (c, rest) else none
  | [] => none

/-- Reads one given character. -/
def exactly (c : Char) : Reader Unit := do
  let _ ← char (· == c)

/-- Reads a given word. -/
def word (spelling : String) : Reader Unit := fun text =>
  if spelling.toList.isPrefixOf text then some ((), text.drop spelling.length) else none

/-- Reads the longest run of characters of a class, which may be empty. -/
def run (accepts : Char → Bool) : Reader (List Char) := fun text =>
  some (text.takeWhile accepts, text.dropWhile accepts)

/-- Accepts only the end of the text. -/
def atEnd : Reader Unit := fun text => if text.isEmpty then some ((), text) else none

/-- Reads an item if there is one. -/
def optional {α : Type} (item : Reader α) : Reader (Option α) := (some <$> item) <|> pure none

/-- Reads items one after the other, at most one for each character of the bound. -/
def upTo {α : Type} (item : Reader α) (bound : List Char) : Reader (List α) :=
  match bound with
  | [] => pure []
  | _ :: bound => fun text =>
    match item text with
    | none => some ([], text)
    | some (first, rest) => (upTo item bound rest).map fun (items, rest) => (first :: items, rest)

/-- Reads items one after the other, as many as there are. Each takes at least one character. -/
def many {α : Type} (item : Reader α) : Reader (List α) := fun text => upTo item text text

/-- Reads items with a separator between them, at least one item. -/
def separated {α β : Type} (item : Reader α) (separator : Reader β) : Reader (List α) := do
  let first ← item
  let others ← many (separator *> item)
  return first :: others

end Reader

end JackTokens.Toml
