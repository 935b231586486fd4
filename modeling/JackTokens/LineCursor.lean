import JackTokens.Policy
import JackTokens.Text.Blank
import JackTokens.Text.Split
import JackTokens.Text.Utf8

/-!
# The line cursor

A cursor holds one line of a source and how many of its bytes have been passed. Beside the line it
keeps what outlives it: the line counter, and whether a block comment is open.

Loading a line counts it, trims it, and tells whether it holds anything to scan. Inside an open block
comment everything up to the closing marker is passed over, and a line without one is not kept. A
line that is blank, or that is nothing but a line comment, is not kept either.

A position is a number of bytes, and nothing prevents a caller from advancing into the middle of a
character. The text behind such a position does not exist: `remaining?` has no answer there, and
neither has `skipBlank?`.

The line and the position say everything about the scan. The size of the line and the text behind the
position follow from them (`size_eq`, `remaining_eq`); a cursor carries both along, so that passing a
lexeme costs no more than the lexeme.
-/

namespace JackTokens

/-- **A line of a source, and how far it has been read.** -/
structure LineCursor where
  /-- The line that is being scanned; empty when there is none. -/
  text : List Char
  /-- How many bytes of it have been passed. -/
  position : Nat
  /-- How many lines have been loaded. -/
  line : UInt32
  /-- Is a block comment open at the end of what has been passed? -/
  inBlockComment : Bool
  /-- How many bytes the line has. -/
  size : Nat
  /-- The text that has not been passed; none inside a character. -/
  remaining? : Option (List Char)
  size_eq : size = Utf8.size text
  remaining_eq : remaining? = Utf8.dropBytes? position text
  deriving DecidableEq, Repr

namespace LineCursor

/-- At the start of a line, with the counter and whether a block comment is open. -/
def start (text : List Char) (line : UInt32) (inBlockComment : Bool) : LineCursor where
  text := text
  position := 0
  line := line
  inBlockComment := inBlockComment
  size := Utf8.size text
  remaining? := some text
  size_eq := rfl
  remaining_eq := (Utf8.dropBytes?_zero text).symm

/-- Before the first line. -/
def fresh : LineCursor := start [] 0 false

instance : Inhabited LineCursor := ⟨fresh⟩

/-- Without a line. The counter and the open comment stay. -/
def clear (cursor : LineCursor) : LineCursor := start [] cursor.line cursor.inBlockComment

/-- The start of a file: without a line and without an open comment, and with the counter at zero if
each file is numbered on its own. Also tells whether a comment was open. -/
def beginFile (cursor : LineCursor) (numbering : LineNumbering) : LineCursor × Bool :=
  let line := match numbering with
    | .global => cursor.line
    | .perFile => 0
  (start [] line false, cursor.inBlockComment)

/-- Keeps a line that has something to scan. -/
def keep (cursor : LineCursor) (text : List Char) : LineCursor × Bool :=
  match text with
  | [] => (cursor, false)
  | '/' :: '/' :: _ => (cursor, false)
  | _ => (start text cursor.line cursor.inBlockComment, true)

/-- The next line of the source. Also tells whether there is something to scan in it. -/
def load (cursor : LineCursor) (raw : List Char) : LineCursor × Bool :=
  let next := { cursor.clear with line := cursor.line + 1 }
  let text := Text.trim raw
  if cursor.inBlockComment then
    match Text.cutAt? '*' '/' text with
    | none => (next, false)
    | some (_, rest) => { next with inBlockComment := false }.keep (Text.trimStart rest)
  else next.keep text

/-- How many bytes have not been passed. -/
def bytesLeft (cursor : LineCursor) : Nat := cursor.size - cursor.position

/-- Has the whole line been passed? -/
def atEnd (cursor : LineCursor) : Bool := cursor.size ≤ cursor.position

/-- The text behind so many more bytes. From inside a character it is found from the start of the
line. -/
def behind? (cursor : LineCursor) (count : Nat) : Option (List Char) :=
  match cursor.remaining? with
  | some rest => Utf8.dropBytes? count rest
  | none => Utf8.dropBytes? (cursor.position + count) cursor.text

/-- What is behind so many more bytes is what the line has there. -/
theorem behind?_eq (cursor : LineCursor) (count : Nat) :
    cursor.behind? count = Utf8.dropBytes? (cursor.position + count) cursor.text := by
  unfold behind?
  split
  · rename_i rest found
    exact (Utf8.dropBytes?_add (cursor.remaining_eq.symm.trans found) count).symm
  · rfl

/-- Passes so many bytes, but not beyond the end of the line. -/
def advance (cursor : LineCursor) (count : Nat) : LineCursor :=
  let passed := min count cursor.bytesLeft
  { cursor with
    position := cursor.position + passed
    remaining? := cursor.behind? passed
    remaining_eq := cursor.behind?_eq passed }

/-- Passes the blanks in front of the text that remains. -/
def skipBlank? (cursor : LineCursor) : Option LineCursor :=
  cursor.remaining?.map fun rest => cursor.advance (Utf8.size (rest.takeWhile Text.isBlank))

/-- Notes that a block comment is open. -/
def enterBlockComment (cursor : LineCursor) : LineCursor := { cursor with inBlockComment := true }

/-! ## How far -/

/-- Without a line there is nothing to pass. -/
@[simp] theorem bytesLeft_clear (cursor : LineCursor) : cursor.clear.bytesLeft = 0 := rfl

/-- Passing bytes leaves that many fewer. -/
@[simp] theorem bytesLeft_advance (cursor : LineCursor) (count : Nat) :
    (cursor.advance count).bytesLeft = cursor.bytesLeft - count := by
  simp only [bytesLeft, advance]
  omega

/-- Passing blanks leaves no more bytes than before. -/
theorem bytesLeft_skipBlank? {cursor next : LineCursor} (skipped : cursor.skipBlank? = some next) :
    next.bytesLeft ≤ cursor.bytesLeft := by
  simp only [skipBlank?, Option.map_eq_some_iff] at skipped
  obtain ⟨rest, -, rfl⟩ := skipped
  rw [bytesLeft_advance]
  omega

/-- Before the end there are bytes left. -/
theorem bytesLeft_pos {cursor : LineCursor} (before : cursor.atEnd = false) :
    0 < cursor.bytesLeft := by
  simp only [atEnd, decide_eq_false_iff_not] at before
  simp only [bytesLeft]
  omega

end LineCursor

end JackTokens
