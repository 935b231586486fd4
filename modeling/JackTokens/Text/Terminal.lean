import JackTokens.Text.Quoted

/-!
# Text for a terminal

A terminal takes some characters for commands: escape, bell, backspace, form feed, delete, and the
control characters beyond ASCII. A message may hold the name of any file, so on its way to a terminal
each of them is written by its number. All other characters pass, tabs and newlines among them.
-/

namespace JackTokens.Text

/-- Does a terminal take a character for a command? -/
def isCommand (c : Char) : Bool :=
  c == '\x1b' || c == '\x07' || c == '\x08' || c == '\x0c' || c == '\x7f' ||
    (0x80 ≤ c.toNat && c.toNat ≤ 0x9F)

/-- One character on its way to a terminal. A command of ASCII is written with two digits. -/
def inertChar (c : Char) : List Char :=
  if isCommand c then
    if c.toNat < 0x10 then ['\\', 'x', '0'] ++ hexadecimal c.toNat
    else if c.toNat < 0x80 then ['\\', 'x'] ++ hexadecimal c.toNat
    else ['\\', 'u', '\x7b'] ++ hexadecimal c.toNat ++ ['\x7d']
  else [c]

/-- A text without commands to a terminal. -/
def inert (text : String) : String := String.ofList (text.toList.flatMap inertChar)

end JackTokens.Text
