import JackTokens.FileTree.Basic

/-!
# Sinks

Where output goes. A sink may have room for so many bytes only; it then takes the bytes that fit, even
if that tears a character apart, and refuses the rest.
-/

namespace JackTokens

/-- **A sink** and what it has taken. -/
structure Sink where
  /-- How many bytes it still takes; `none` if there is no bound. -/
  room : Option Nat := none
  text : String := ""
  /-- The first bytes of a character of which the others found no room. -/
  torn : List UInt8 := []
  deriving DecidableEq, Repr, Inhabited

namespace Sink

/-- The failure of a sink that has no room left. -/
def full : FileError := .other "sink full"

/-- Puts characters behind a text, as long as there is room. -/
def fill (text : String) (room : Nat) : List Char → Sink × Except FileError Unit
  | [] => ({ room := some room, text := text }, .ok ())
  | c :: rest =>
    if c.utf8Size ≤ room then fill (text.push c) (room - c.utf8Size) rest
    else
      ({ room := some 0, text := text, torn := (Utf8.encodeChar c).take room }, .error full)

/-- **Writes a text.** -/
def write (sink : Sink) (text : String) : Sink × Except FileError Unit :=
  match sink.room with
  | none => ({ sink with text := sink.text ++ text }, .ok ())
  | some room => fill sink.text room text.toList

end Sink

end JackTokens
