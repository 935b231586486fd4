import JackTokens.FileTree.Basic

/-!
# Open files

A file is opened once and then read line by line. A handle on a file takes its bytes in blocks: it
remembers how many bytes it has taken from the slot and which of them it has not given out yet. A
change of the slot is therefore seen from the next block on. A directory can be opened too, but
nothing can be read from it.

A line ends behind its newline, or at the end of the file. It has to be a text of its own; a line that
is none is reported and passed, and reading goes on behind it. The bytes a line is made of are taken
off what is `unread`, so reading comes to an end.
-/

namespace JackTokens

/-- **An open file**, or an open directory. -/
inductive Handle where
  | directory
  /-- The slot of the file, how many of its bytes have been taken, and those not given out yet. -/
  | file (slot taken : Nat) (pending : List UInt8)
  deriving DecidableEq, Repr, Inhabited

/-- How many bytes are taken from a file at a time. -/
def blockSize : Nat := 8192

/-- The byte that ends a line. -/
def newlineByte : UInt8 := 10

/-- The first line of some bytes with its newline, and what stands behind it; nothing if there is no
newline. -/
def firstLine? (bytes : List UInt8) : Option (List UInt8 × List UInt8) :=
  match bytes.dropWhile (· != newlineByte) with
  | [] => none
  | newline :: rest => some (bytes.takeWhile (· != newlineByte) ++ [newline], rest)

/-- The next line of a file, given how many bytes have been taken and those not given out: the line,
and the same two things behind it. -/
def takeLine (content : List UInt8) (taken : Nat) (pending : List UInt8) :
    List UInt8 × Nat × List UInt8 :=
  match firstLine? pending with
  | some (line, rest) => (line, taken, rest)
  | none =>
    let block := (content.drop taken).take blockSize
    if _ : block = [] then (pending, taken, [])
    else
      let (line, next) := takeLine content (taken + block.length) block
      (pending ++ line, next)
termination_by content.length - taken
decreasing_by
  have nonempty : 0 < ((content.drop taken).take blockSize).length :=
    List.length_pos_iff.mpr (by assumption)
  simp only [List.length_take, List.length_drop] at *
  omega

namespace FileTree

/-- Opens what a path leads to. -/
def openFile (tree : FileTree) (path : String) : Except FileError Handle := do
  let location ← tree.locate path
  if tree.isDenied location then .error .permissionDenied
  else
    match tree.entry? location with
    | some (.file slot) => return .file slot 0 []
    | _ => return .directory

/-- How many bytes a handle can still give out. -/
def unread (tree : FileTree) : Handle → Nat
  | .directory => 0
  | .file slot taken pending => pending.length + ((tree.bytes slot).length - taken)

/-- Reads a line: the handle behind it, and its text with the newline. At the end of the file there is
no line. -/
def readLine (tree : FileTree) : Handle → Handle × Except FileError (Option (List Char))
  | .directory => (.directory, .error .isADirectory)
  | .file slot taken pending =>
    let (line, taken', pending') := takeLine (tree.bytes slot) taken pending
    let next := .file slot taken' pending'
    if line = [] then (next, .ok none)
    else
      match Utf8.decode line with
      | some text => (next, .ok (some text))
      | none => (next, .error .invalidData)

end FileTree

/-! ## Reading uses a file up -/

theorem length_firstLine? {bytes line rest : List UInt8} (found : firstLine? bytes = some (line, rest)) :
    line.length + rest.length = bytes.length := by
  have whole := congrArg List.length (List.takeWhile_append_dropWhile (p := (· != newlineByte)) (l := bytes))
  unfold firstLine? at found
  split at found
  · exact absurd found (by simp)
  · rename_i newline behind hdrop
    simp only [Option.some.injEq, Prod.mk.injEq] at found
    obtain ⟨rfl, rfl⟩ := found
    rw [hdrop] at whole
    simp only [List.length_append, List.length_cons, List.length_nil] at *
    omega

/-- What a line holds is what the unread bytes lose. -/
theorem takeLine_length (content : List UInt8) (taken : Nat) (pending : List UInt8) :
    (takeLine content taken pending).1.length +
        ((takeLine content taken pending).2.2.length +
          (content.length - (takeLine content taken pending).2.1)) =
      pending.length + (content.length - taken) := by
  fun_induction takeLine content taken pending with
  | case1 taken pending line rest found =>
    have := length_firstLine? found
    simp only
    omega
  | case2 taken pending found block ended =>
    have short : content.length - taken = 0 := by
      have := congrArg List.length ended
      simp only [block, List.length_take, List.length_drop, List.length_nil, blockSize] at this
      omega
    simp [short]
  | case3 taken pending found block nonempty line next hline ih =>
    rw [hline] at ih
    have taking : block.length ≤ content.length - taken := by
      simp only [block, List.length_take, List.length_drop]
      omega
    have pos : 0 < block.length := List.length_pos_iff.mpr nonempty
    simp only [List.length_append] at *
    omega

/-- Reading a line leaves less to read. -/
theorem FileTree.unread_readLine {tree : FileTree} {handle next : Handle} {text : List Char}
    (read : tree.readLine handle = (next, .ok (some text))) :
    tree.unread next < tree.unread handle := by
  cases handle with
  | directory => simp [readLine] at read
  | file slot taken pending =>
    have total := takeLine_length (tree.bytes slot) taken pending
    simp only [readLine] at read
    generalize takeLine (tree.bytes slot) taken pending = taking at read total
    obtain ⟨line, behind, rest⟩ := taking
    simp only at read total
    split at read
    · simp at read
    · rename_i nonempty
      have pos := List.length_pos_iff.mpr nonempty
      split at read
      · simp only [Prod.mk.injEq] at read
        obtain ⟨rfl, -⟩ := read
        simp only [unread]
        omega
      · simp at read

end JackTokens
