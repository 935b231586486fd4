import JackTokens.Text.Printable

/-!
# Quoted text

A text in a diagnostic stands between quotation marks, and shows what a terminal would hide: the
quotation mark and the backslash get a backslash in front, NUL, tab, newline and carriage return have
a letter, and any other character without a printed form of its own is written by its number.
-/

namespace JackTokens.Text

/-- A number in lower-case hexadecimal digits. -/
def hexadecimal (n : Nat) : List Char := Nat.toDigits 16 n

/-- One character between quotation marks. -/
def quoteChar (c : Char) : List Char :=
  match c with
  | '\x00' => ['\\', '0']
  | '\t' => ['\\', 't']
  | '\n' => ['\\', 'n']
  | '\r' => ['\\', 'r']
  | '"' => ['\\', '"']
  | '\\' => ['\\', '\\']
  | c =>
    if isPrinted c then [c]
    else ['\\', 'u', '\x7b'] ++ hexadecimal c.toNat ++ ['\x7d']

/-- A text between quotation marks. -/
def quoted (text : String) : String :=
  String.ofList ('"' :: text.toList.flatMap quoteChar ++ ['"'])

end JackTokens.Text
