/-!
# JSON text

The documents the library writes: numbers, strings, arrays and objects whose members keep their
order. There are two layouts. `Json.compact` has no space at all; `Json.indented` puts each element
and member on a line of its own, two spaces deeper than what holds it, and writes an empty array or
object as its two brackets.

In a string only the quotation mark, the backslash and the characters below U+0020 are escaped. Five
of those have a short form, and the rest are written with four lower-case hexadecimal digits.
-/

namespace JackTokens

/-- A JSON document. -/
inductive Json where
  | number (n : Nat)
  | string (text : String)
  | array (elements : List Json)
  | object (members : List (String × Json))

namespace Json

/-- A digit below sixteen in lower case. -/
def hexDigit (n : Nat) : Char := "0123456789abcdef".toList.getD n '0'

/-- One character inside a string. -/
def escapeChar (c : Char) : List Char :=
  match c with
  | '"' => ['\\', '"']
  | '\\' => ['\\', '\\']
  | '\n' => ['\\', 'n']
  | '\r' => ['\\', 'r']
  | '\t' => ['\\', 't']
  | '\x08' => ['\\', 'b']
  | '\x0c' => ['\\', 'f']
  | c =>
    if c.toNat < 0x20 then
      ['\\', 'u', '0', '0', hexDigit (c.toNat / 16), hexDigit (c.toNat % 16)]
    else [c]

/-- A string between quotation marks. -/
def quote (text : String) : String :=
  String.ofList ('"' :: text.toList.flatMap escapeChar ++ ['"'])

mutual
/-- A document without any space. -/
def compact : Json → String
  | number n => toString n
  | string text => quote text
  | array elements => "[" ++ compactElements elements ++ "]"
  | object members => "\x7b" ++ compactMembers members ++ "\x7d"
/-- The elements of an array, with commas between them. -/
def compactElements : List Json → String
  | [] => ""
  | [element] => element.compact
  | element :: elements => element.compact ++ "," ++ compactElements elements
/-- The members of an object, with commas between them. -/
def compactMembers : List (String × Json) → String
  | [] => ""
  | [(key, value)] => quote key ++ ":" ++ value.compact
  | (key, value) :: members =>
    quote key ++ ":" ++ value.compact ++ "," ++ compactMembers members
end

/-- A line break and the indentation of a level. -/
def newline (level : Nat) : String := String.ofList ('\n' :: List.replicate (2 * level) ' ')

mutual
/-- Writes a document behind a text, with each element and member on a line of its own. -/
def indentedOnto (out : String) (level : Nat) : Json → String
  | number n => out ++ toString n
  | string text => out ++ quote text
  | array [] => out ++ "[]"
  | array (element :: elements) =>
    let opened := out ++ "[" ++ newline (level + 1)
    let filled := indentedElements (element.indentedOnto opened (level + 1)) (level + 1) elements
    filled ++ newline level ++ "]"
  | object [] => out ++ "\x7b\x7d"
  | object ((key, value) :: members) =>
    let opened := out ++ "\x7b" ++ newline (level + 1) ++ quote key ++ ": "
    let filled := indentedMembers (value.indentedOnto opened (level + 1)) (level + 1) members
    filled ++ newline level ++ "\x7d"
/-- Writes the elements of an array behind the first. -/
def indentedElements (out : String) (level : Nat) : List Json → String
  | [] => out
  | element :: elements =>
    indentedElements (element.indentedOnto (out ++ "," ++ newline level) level) level elements
/-- Writes the members of an object behind the first. -/
def indentedMembers (out : String) (level : Nat) : List (String × Json) → String
  | [] => out
  | (key, value) :: members =>
    let named := out ++ "," ++ newline level ++ quote key ++ ": "
    indentedMembers (value.indentedOnto named level) level members
end

/-- A document with each element and member on a line of its own. -/
def indented (document : Json) : String := document.indentedOnto "" 0

end Json

end JackTokens
