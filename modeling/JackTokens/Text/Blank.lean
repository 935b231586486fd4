/-!
# White space

A blank is a character with the Unicode property White_Space: twenty-five characters, among them
the no-break spaces and the line and paragraph separators. Neither the zero width space nor the byte
order mark is one. Lines are trimmed of blanks at both ends, and blanks separate lexemes.
-/

namespace JackTokens.Text

/-- The twenty-five characters with the property White_Space. -/
def isBlank (c : Char) : Bool :=
  let n := c.toNat
  (0x09 ≤ n && n ≤ 0x0D) || n == 0x20 || n == 0x85 || n == 0xA0 || n == 0x1680 ||
    (0x2000 ≤ n && n ≤ 0x200A) || n == 0x2028 || n == 0x2029 || n == 0x202F || n == 0x205F ||
    n == 0x3000

/-- A text without the blanks at its front. -/
def trimStart (text : List Char) : List Char := text.dropWhile isBlank

/-- A text without the blanks at its end. -/
def trimEnd (text : List Char) : List Char := (text.reverse.dropWhile isBlank).reverse

/-- A text without the blanks at both its ends. -/
def trim (text : List Char) : List Char := trimEnd (trimStart text)

end JackTokens.Text
