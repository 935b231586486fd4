import JackTokens.Source

/-!
# Reading a text line by line

A file is read as bytes, in blocks, and handed out as lines; its text is what all its bytes spell. This
module shows that the two views agree: a file whose bytes spell a text hands out exactly the physical
lines of that text, in order, and then nothing.

A **physical line** is a run of characters up to and with its newline, or what is left behind the last
newline (`Text.lines`). Three facts carry the agreement:

- **Blocks do not matter** (`takeLine_eq`). What a handle has not given out is one list of bytes,
  pending ones and untaken ones together, and the line it hands out next is the first line of that list.
- **Newlines are characters of their own** (`Utf8.decode_line`). The byte of a newline is no part
  of any other character, so that bytes can be cut behind it before they are decoded.
- **The induction over lines** (`Text.linesInduction`), which the modules on whole runs use as well.

`SourceFile.Reads` says which lines were handed out between two moments. It has no clause about the end
of the file, so it describes the readable part of a file that fails later on, too.

Lines can be counted without decoding them (`lineCount`). Each reading takes one of those that are left, and it
finds the end where there is none (`SourceFile.linesLeft_readLine`).
-/

namespace JackTokens

/-! ## Physical lines -/

namespace Text

/-- **The physical lines of a text**: each with its newline, and the rest behind the last newline if
there is any. -/
def lines : List Char → List (List Char)
  | [] => []
  | c :: text =>
    if c = '\n' then [c] :: lines text
    else
      match lines text with
      | [] => [[c]]
      | line :: others => (c :: line) :: others

@[simp] theorem lines_nil : lines [] = [] := rfl

theorem lines_append_newline {body : List Char} (oneLine : '\n' ∉ body) (rest : List Char) :
    lines (body ++ '\n' :: rest) = (body ++ ['\n']) :: lines rest := by
  induction body with
  | nil => simp [lines]
  | cons c body ih =>
    rw [List.mem_cons, not_or] at oneLine
    rw [List.cons_append, lines, if_neg (Ne.symm oneLine.1), ih oneLine.2]
    rfl

theorem lines_of_not_mem {body : List Char} (oneLine : '\n' ∉ body) (nonempty : body ≠ []) :
    lines body = [body] := by
  induction body with
  | nil => exact absurd rfl nonempty
  | cons c body ih =>
    rw [List.mem_cons, not_or] at oneLine
    rw [lines, if_neg (Ne.symm oneLine.1)]
    cases body with
    | nil => rfl
    | cons d body => rw [ih oneLine.2 (List.cons_ne_nil d body)]

theorem newline_cases (text : List Char) :
    '\n' ∉ text ∨ ∃ body rest, '\n' ∉ body ∧ text = body ++ '\n' :: rest := by
  by_cases newline : '\n' ∈ text
  · obtain ⟨body, rest, split, oneLine⟩ := List.eq_append_cons_of_mem newline
    exact .inr ⟨body, rest, oneLine, split⟩
  · exact .inl newline

/-- **Induction over lines.** A property of the empty text, of an unfinished line, and of a line in front
of a text that has it, holds of every text. -/
theorem linesInduction {motive : List Char → Prop} (nil : motive [])
    (last : ∀ body, '\n' ∉ body → body ≠ [] → motive body)
    (line : ∀ body rest, '\n' ∉ body → motive rest → motive (body ++ '\n' :: rest))
    (text : List Char) : motive text := by
  rcases newline_cases text with oneLine | ⟨body, rest, oneLine, rfl⟩
  · by_cases empty : text = []
    · exact empty ▸ nil
    · exact last text oneLine empty
  · exact line body rest oneLine (linesInduction nil last line rest)
termination_by text.length
decreasing_by simp_all; omega

@[simp] theorem flatten_lines (text : List Char) : (lines text).flatten = text := by
  induction text using linesInduction with
  | nil => rfl
  | last body oneLine nonempty => simp [lines_of_not_mem oneLine nonempty]
  | line body rest oneLine ih => simp [lines_append_newline oneLine, ih]

/-- Behind a newline the lines of a text start anew. -/
theorem lines_append {first : List Char} (ends : first = [] ∨ first.getLast? = some '\n')
    (second : List Char) : lines (first ++ second) = lines first ++ lines second := by
  induction first using linesInduction with
  | nil => rfl
  | last body oneLine nonempty =>
    rcases ends with empty | newline
    · exact absurd empty nonempty
    · exact absurd (List.mem_of_getLast? newline) oneLine
  | line body rest oneLine ih =>
    have later : rest = [] ∨ rest.getLast? = some '\n' := by
      cases rest with
      | nil => exact .inl rfl
      | cons c more =>
        right
        simpa [List.getLast?_append, List.getLast?_cons_cons] using ends
    rw [List.append_assoc, List.cons_append, lines_append_newline oneLine, lines_append_newline oneLine,
      ih later, List.cons_append]

end Text

/-! ## Lines of bytes

What a handle has not given out is the pending bytes and those not taken yet. The next line is the first
line of them, however the blocks fall. -/

theorem firstLine?_append_newline {body : List UInt8} (oneLine : newlineByte ∉ body)
    (rest : List UInt8) :
    firstLine? (body ++ newlineByte :: rest) = some (body ++ [newlineByte], rest) := by
  have before : ∀ b ∈ body, (b != newlineByte) = true := by
    intro b member
    exact bne_iff_ne.mpr fun same => oneLine (same ▸ member)
  simp [firstLine?, List.dropWhile_append_of_pos before, List.takeWhile_append_of_pos before]

theorem firstLine?_of_not_mem {bytes : List UInt8} (oneLine : newlineByte ∉ bytes) :
    firstLine? bytes = none := by
  have before : ∀ b ∈ bytes, (b != newlineByte) = true := by
    intro b member
    exact bne_iff_ne.mpr fun same => oneLine (same ▸ member)
  have dropped : (bytes ++ []).dropWhile (· != newlineByte) = [] :=
    List.dropWhile_append_of_pos before
  rw [List.append_nil] at dropped
  simp [firstLine?, dropped]

theorem newlineByte_cases (bytes : List UInt8) :
    newlineByte ∉ bytes ∨ ∃ body rest, newlineByte ∉ body ∧ bytes = body ++ newlineByte :: rest := by
  by_cases newline : newlineByte ∈ bytes
  · obtain ⟨body, rest, split, oneLine⟩ := List.eq_append_cons_of_mem newline
    exact .inr ⟨body, rest, oneLine, split⟩
  · exact .inl newline

theorem not_mem_of_firstLine?_eq_none {bytes : List UInt8} (none : firstLine? bytes = none) :
    newlineByte ∉ bytes := by
  rcases newlineByte_cases bytes with oneLine | ⟨body, rest, oneLine, rfl⟩
  · exact oneLine
  · rw [firstLine?_append_newline oneLine] at none
    cases none

/-- **The next line of some bytes**, and what stands behind it: the first line where there is a newline,
and everything otherwise. -/
def cutLine (bytes : List UInt8) : List UInt8 × List UInt8 := (firstLine? bytes).getD (bytes, [])

theorem cutLine_append_newline {body : List UInt8} (oneLine : newlineByte ∉ body)
    (rest : List UInt8) : cutLine (body ++ newlineByte :: rest) = (body ++ [newlineByte], rest) := by
  rw [cutLine, firstLine?_append_newline oneLine]
  rfl

theorem cutLine_of_not_mem {bytes : List UInt8} (oneLine : newlineByte ∉ bytes) :
    cutLine bytes = (bytes, []) := by
  rw [cutLine, firstLine?_of_not_mem oneLine]
  rfl

/-- The next line goes on behind bytes that end none. -/
theorem cutLine_append {first second : List UInt8} (oneLine : newlineByte ∉ first) :
    cutLine (first ++ second) = (first ++ (cutLine second).1, (cutLine second).2) := by
  rcases newlineByte_cases second with none | ⟨body, rest, before, rfl⟩
  · rw [cutLine_of_not_mem none, cutLine_of_not_mem (by simp [oneLine, none])]
  · have longer : newlineByte ∉ first ++ body := by simp [oneLine, before]
    rw [← List.append_assoc, cutLine_append_newline longer, cutLine_append_newline before,
      List.append_assoc]

/-- **Blocks do not matter.** The line a handle gives out is the next line of what it has not given out,
and what it has not given out afterwards is the rest. -/
theorem takeLine_eq (content : List UInt8) (taken : Nat) (pending : List UInt8) :
    ((takeLine content taken pending).1,
        (takeLine content taken pending).2.2 ++ content.drop (takeLine content taken pending).2.1) =
      cutLine (pending ++ content.drop taken) := by
  fun_induction takeLine content taken pending with
  | case1 taken pending line rest found =>
    rcases newlineByte_cases pending with oneLine | ⟨body, more, oneLine, rfl⟩
    · rw [firstLine?_of_not_mem oneLine] at found
      cases found
    · rw [firstLine?_append_newline oneLine] at found
      cases found
      rw [List.append_assoc, List.cons_append, cutLine_append_newline oneLine]
  | case2 taken pending found block ended =>
    have nothing : content.drop taken = [] := by
      simpa [block, blockSize] using ended
    simp only [nothing, List.append_nil]
    rw [cutLine_of_not_mem (not_mem_of_firstLine?_eq_none found)]
  | case3 taken pending found block nonempty line next taking ih =>
    have more : block ++ content.drop (taken + block.length) = content.drop taken := by
      rw [← List.drop_drop]
      exact List.prefix_iff_eq_append.mp (List.take_prefix blockSize (content.drop taken))
    rw [taking, more] at ih
    rw [cutLine_append (not_mem_of_firstLine?_eq_none found), ← ih]

/-! ## Bytes and characters

The decoder looks at the character that has been started, never at those it has read; so it can be
started anew wherever no character is open. A newline closes every gap of this kind. -/

namespace Utf8

/-- The decoder with more characters read before. -/
def Decoder.behind (read : List Char) (d : Decoder) : Decoder := ⟨d.read ++ read, d.started⟩

theorem Decoder.first_behind (read : List Char) (d : Decoder) (b : Nat) :
    (d.behind read).first b = (d.first b).map (Decoder.behind read) := by
  simp only [Decoder.first, apply_ite (Option.map (Decoder.behind read))]
  rfl
theorem Decoder.later_behind (read : List Char) (d : Decoder) (s : Started) (b : Nat) :
    (d.behind read).later s b = (d.later s b).map (Decoder.behind read) := by
  simp only [Decoder.later, apply_ite (Option.map (Decoder.behind read)), Option.map_map]
  rfl
theorem Decoder.step_behind (read : List Char) (d : Decoder) (b : UInt8) :
    (d.behind read).step b = (d.step b).map (Decoder.behind read) := by
  obtain ⟨before, started⟩ := d
  cases started with
  | none => exact Decoder.first_behind read ⟨before, none⟩ b.toNat
  | some s => exact Decoder.later_behind read ⟨before, some s⟩ s b.toNat

theorem Decoder.foldlM_behind (read : List Char) (d : Decoder) (bytes : List UInt8) :
    bytes.foldlM Decoder.step (d.behind read) =
      (bytes.foldlM Decoder.step d).map (Decoder.behind read) := by
  induction bytes generalizing d with
  | nil => rfl
  | cons b bytes ih =>
    rw [List.foldlM_cons, List.foldlM_cons, Decoder.step_behind]
    cases d.step b with
    | none => rfl
    | some e => exact ih e

theorem decode_eq_some_iff {bytes : List UInt8} {text : List Char} :
    decode bytes = some text ↔ bytes.foldlM Decoder.step {} = some ⟨text.reverse, none⟩ := by
  unfold decode
  split
  · rename_i read run
    rw [run]
    simp [List.reverse_eq_iff]
  · rename_i other
    constructor
    · intro impossible
      cases impossible
    · intro run
      exact absurd run (other text.reverse)

/-- Behind bytes that spell a text, decoding starts anew. -/
theorem decode_append {first : List UInt8} {text : List Char} (spelled : decode first = some text)
    (second : List UInt8) : decode (first ++ second) = (decode second).map (text ++ ·) := by
  have anew : (first ++ second).foldlM Decoder.step {} =
      (second.foldlM Decoder.step {}).map (Decoder.behind text.reverse) := by
    rw [List.foldlM_append, decode_eq_some_iff.mp spelled]
    exact Decoder.foldlM_behind text.reverse {} second
  unfold decode
  rw [anew]
  rcases second.foldlM Decoder.step {} with _ | ⟨read, _ | s⟩
  · rfl
  · simp [Decoder.behind]
  · rfl
/-- **What has been read holds no newline**, and a character that has been started is none: it takes
more bytes than a newline has. -/
structure Decoder.OneLine (d : Decoder) : Prop where
  read : '\n' ∉ d.read
  started : ∀ s, d.started = some s → 0x80 ≤ s.least

theorem toNat_of_scalar? {n : Nat} {c : Char} (found : scalar? n = some c) : c.toNat = n := by
  by_cases valid : n.isValidChar
  · have made : scalar? n = some (Char.ofNatAux n valid) := dif_pos valid
    rw [made] at found
    cases found
    rfl
  · have none : scalar? n = none := dif_neg valid
    rw [none] at found
    cases found

theorem toNat_charOfNat {n : Nat} (ascii : n < 0x80) : (Char.ofNat n).toNat = n := by
  have valid : n.isValidChar := .inl (by omega)
  have made : Char.ofNat n = Char.ofNatAux n valid := dif_pos valid
  exact congrArg Char.toNat made

theorem Decoder.OneLine.first {d e : Decoder} {b : Nat} (clean : d.OneLine) (other : b ≠ 10)
    (taken : d.first b = some e) : e.OneLine := by
  unfold Decoder.first at taken
  split at taken
  · rename_i ascii
    cases taken
    refine ⟨?_, clean.started⟩
    intro newline
    rcases List.mem_cons.mp newline with same | before
    · have value := toNat_charOfNat ascii
      rw [← same] at value
      exact other value.symm
    · exact clean.read before
  · split at taken
    · cases taken
    · repeat' split at taken
      all_goals cases taken
      all_goals exact ⟨clean.read, fun s found => by cases found; simp⟩

theorem Decoder.OneLine.later {d e : Decoder} {s : Started} {b : Nat} (clean : d.OneLine)
    (started : d.started = some s) (taken : d.later s b = some e) : e.OneLine := by
  have least := clean.started s started
  unfold Decoder.later at taken
  split at taken
  · cases taken
  · dsimp only at taken
    split at taken
    · split at taken
      · cases taken
      · rename_i enough
        obtain ⟨c, found, rfl⟩ := Option.map_eq_some_iff.mp taken
        refine ⟨?_, fun s none => by cases none⟩
        intro newline
        rcases List.mem_cons.mp newline with rfl | before
        · have value := toNat_of_scalar? found
          have ten : ('\n').toNat = 10 := rfl
          omega
        · exact clean.read before
    · cases taken
      exact ⟨clean.read, fun s found => by cases found; exact least⟩

/-- A byte other than that of the newline brings no newline. -/
theorem Decoder.OneLine.step {d e : Decoder} {b : UInt8} (clean : d.OneLine) (other : b ≠ newlineByte)
    (taken : d.step b = some e) : e.OneLine := by
  unfold Decoder.step at taken
  split at taken
  · exact clean.first (fun ten => other (UInt8.toNat_inj.mp ten)) taken
  · rename_i s started
    exact clean.later started taken

theorem Decoder.OneLine.foldlM {bytes : List UInt8} (oneLine : newlineByte ∉ bytes) {d e : Decoder}
    (clean : d.OneLine) (run : bytes.foldlM Decoder.step d = some e) : e.OneLine := by
  induction bytes generalizing d with
  | nil =>
    cases run
    exact clean
  | cons b bytes ih =>
    rw [List.mem_cons, not_or] at oneLine
    rw [List.foldlM_cons] at run
    obtain ⟨next, taken, run⟩ := Option.bind_eq_some_iff.mp run
    exact ih oneLine.2 (clean.step (Ne.symm oneLine.1) taken) run

/-- Bytes without the byte of a newline spell a text without a newline. -/
theorem newline_not_mem_of_decode {bytes : List UInt8} {text : List Char}
    (oneLine : newlineByte ∉ bytes) (spelled : decode bytes = some text) : '\n' ∉ text := by
  have clean : Decoder.OneLine {} := ⟨List.not_mem_nil, fun s none => by cases none⟩
  have read := (clean.foldlM oneLine (decode_eq_some_iff.mp spelled)).read
  simpa using read

/-- After a byte the decoder is not where it started from: it has read a character, or is inside one. -/
theorem Decoder.step_ne_start {d e : Decoder} {b : UInt8} (taken : d.step b = some e) : e ≠ {} := by
  rintro rfl
  unfold Decoder.step at taken
  split at taken
  · unfold Decoder.first at taken
    repeat' split at taken
    all_goals simp at taken
  · unfold Decoder.later at taken
    dsimp only at taken
    repeat' split at taken
    all_goals simp at taken

theorem eq_nil_of_decode {bytes : List UInt8} (spelled : decode bytes = some []) : bytes = [] := by
  rcases List.eq_nil_or_concat bytes with empty | ⟨front, b, rfl⟩
  · exact empty
  · have run := decode_eq_some_iff.mp spelled
    rw [List.concat_eq_append, List.foldlM_append] at run
    obtain ⟨d, -, taken⟩ := Option.bind_eq_some_iff.mp run
    rw [List.foldlM_cons] at taken
    obtain ⟨e, stepped, last⟩ := Option.bind_eq_some_iff.mp taken
    cases last
    exact absurd rfl (Decoder.step_ne_start stepped)

/-- **Newlines are characters of their own.** Bytes that spell a text can be cut behind a newline, and
both parts spell their part of the text. -/
theorem decode_line {body rest : List UInt8} {text : List Char} (oneLine : newlineByte ∉ body)
    (spelled : decode (body ++ newlineByte :: rest) = some text) :
    ∃ line more, '\n' ∉ line ∧ decode (body ++ [newlineByte]) = some (line ++ ['\n']) ∧
      decode rest = some more ∧ text = line ++ '\n' :: more := by
  have run := decode_eq_some_iff.mp spelled
  rw [List.foldlM_append] at run
  obtain ⟨⟨read, started⟩, before, run⟩ := Option.bind_eq_some_iff.mp run
  cases started with
  | some s =>
    -- The newline falls into a character: there is no text that goes on like this.
    cases run
  | none =>
    have line : decode body = some read.reverse := by
      rw [decode_eq_some_iff, List.reverse_reverse, before]
    have ended : decode (body ++ [newlineByte]) = some (read.reverse ++ ['\n']) :=
      decode_append line [newlineByte]
    have split := decode_append ended rest
    rw [List.append_assoc, List.singleton_append, spelled] at split
    obtain ⟨more, behind, rfl⟩ := Option.map_eq_some_iff.mp split.symm
    refine ⟨read.reverse, more, newline_not_mem_of_decode oneLine line, ended, behind, ?_⟩
    simp

end Utf8

/-! ## Reading a file -/

/-- What reading makes of the bytes of a line: none at the end, and otherwise the text they spell. -/
def lineText (line : List UInt8) : Except FileError (Option (List Char)) :=
  if line = [] then .ok none
  else
    match Utf8.decode line with
    | some text => .ok (some text)
    | none => .error .invalidData

theorem lineText_of_decode_eq_none {line : List UInt8} (garbled : Utf8.decode line = none) :
    lineText line = .error .invalidData := by
  have nonempty : line ≠ [] := by
    rintro rfl
    cases garbled
  rw [lineText, if_neg nonempty, garbled]

/-- A tree whose root holds files with the given names and texts. -/
def FileTree.ofTexts (files : List (String × List Char)) : FileTree where
  entries := files.mapIdx fun slot file => ([file.1], .file slot)
  slots := (files.map fun file => Utf8.encode file.2).toArray

namespace SourceFile

variable {tree : FileTree}

/-- **A regular file with these bytes left**: pending ones first, then those not taken yet. -/
def Holds (tree : FileTree) (file : SourceFile) (bytes : List UInt8) : Prop :=
  ∃ slot taken pending, file.handle = .file slot taken pending ∧
    pending ++ (tree.bytes slot).drop taken = bytes

/-- Reading takes the next line off the bytes that are left, and gives its text. -/
theorem readLine_of_holds {file : SourceFile} {bytes : List UInt8} (left : file.Holds tree bytes) :
    ∃ next, file.readLine tree = (next, lineText (cutLine bytes).1) ∧
      next.Holds tree (cutLine bytes).2 ∧ next.name = file.name ∧ next.path = file.path := by
  obtain ⟨slot, taken, pending, opened, rfl⟩ := left
  rw [← takeLine_eq (tree.bytes slot) taken pending]
  cases taking : takeLine (tree.bytes slot) taken pending with
  | mk line behind =>
  refine ⟨{ file with handle := .file slot behind.1 behind.2 }, ?_, ⟨slot, _, _, rfl, rfl⟩, rfl, rfl⟩
  simp only [readLine, opened, FileTree.readLine, lineText, taking]
  split
  · rfl
  · cases Utf8.decode line <;> rfl

/-- **These lines are handed out between two moments.** -/
inductive Reads (tree : FileTree) : SourceFile → List (List Char) → SourceFile → Prop
  | nil (file : SourceFile) : Reads tree file [] file
  | cons {file next last : SourceFile} {raw : List Char} {rest : List (List Char)} :
    file.readLine tree = (next, .ok (some raw)) → Reads tree next rest last →
      Reads tree file (raw :: rest) last

/-- **A file hands out the lines of its text.** The bytes that are left spell a text; then reading gives
its physical lines, and nothing behind them. -/
theorem reads_lines {text : List Char} {file : SourceFile} {bytes : List UInt8}
    (left : file.Holds tree bytes) (spelled : Utf8.decode bytes = some text) :
    ∃ last ended, Reads tree file (Text.lines text) last ∧
      last.readLine tree = (ended, .ok none) ∧ ended.name = file.name := by
  obtain ⟨next, read, holds, name, -⟩ := readLine_of_holds left
  rcases newlineByte_cases bytes with oneLine | ⟨body, rest, oneLine, rfl⟩
  · rw [cutLine_of_not_mem oneLine] at read holds
    obtain ⟨ended, noMore, -, same, -⟩ := readLine_of_holds holds
    by_cases empty : bytes = []
    · subst empty
      cases spelled
      exact ⟨file, next, .nil file, read, name⟩
    · have nonempty : text ≠ [] := fun none => empty (Utf8.eq_nil_of_decode (none ▸ spelled))
      refine ⟨next, ended, ?_, noMore, same.trans name⟩
      rw [Text.lines_of_not_mem (Utf8.newline_not_mem_of_decode oneLine spelled) nonempty]
      refine .cons ?_ (.nil next)
      rw [read, lineText, if_neg empty, spelled]
  · rw [cutLine_append_newline oneLine] at read holds
    obtain ⟨line, more, first, ended, behind, rfl⟩ := Utf8.decode_line oneLine spelled
    obtain ⟨last, done, reads, finished, same⟩ := reads_lines holds behind
    refine ⟨last, done, ?_, finished, same.trans name⟩
    rw [Text.lines_append_newline first]
    refine .cons ?_ reads
    rw [read, lineText, if_neg (by simp), ended]
termination_by bytes.length
decreasing_by simp_all; omega

/-- A file whose text can be read can be opened, and all its bytes are left. -/
theorem openAt_of_readText {path : String} {text : List Char} (readable : tree.readText path = .ok text) :
    ∃ file bytes, openAt tree path = .ok file ∧ file.Holds tree bytes ∧
      Utf8.decode bytes = some text ∧ file.name = Path.displayName path ∧ file.path = path := by
  unfold FileTree.readText at readable
  cases found : tree.locate path with
  | error e =>
    rw [found] at readable
    cases readable
  | ok location =>
    simp only [found, bind, Except.bind] at readable
    split at readable
    · cases readable
    · rename_i allowed
      split at readable
      · rename_i slot isFile
        split at readable
        · rename_i read spelled
          cases readable
          refine ⟨⟨Path.displayName path, path, .file slot 0 []⟩, tree.bytes slot, ?_,
            ⟨slot, 0, [], rfl, rfl⟩, spelled, rfl, rfl⟩
          simp [openAt, FileTree.openFile, found, allowed, isFile, bind, Except.bind, pure, Except.pure]
        · cases readable
      · cases readable

end SourceFile

/-- The text of a file that may be read is what its bytes spell. -/
theorem FileTree.readText_of_decode {tree : FileTree} {path : String} {location : Location} {slot : Nat}
    {text : List Char} (located : tree.locate path = .ok location) (allowed : tree.isDenied location = false)
    (found : tree.entry? location = some (.file slot)) (spelled : Utf8.decode (tree.bytes slot) = some text) :
    tree.readText path = .ok text := by
  unfold readText
  rw [located]
  simp only [bind, Except.bind, allowed, found, spelled]
  rfl

/-- A path whose text can be read is there, and is not that of a directory. -/
theorem FileTree.isDirectory_of_readText {tree : FileTree} {path : String} {text : List Char}
    (readable : tree.readText path = .ok text) : tree.pathExists path = true ∧ tree.isDirectory path = false := by
  unfold readText at readable
  cases located : tree.locate path with
  | error cause =>
    rw [located] at readable
    cases readable
  | ok location =>
    have file : tree.entry? location ≠ some .directory := by
      intro directory
      simp only [located, bind, Except.bind, directory] at readable
      split at readable <;> cases readable
    unfold pathExists isDirectory
    rw [located]
    exact ⟨rfl, by simpa using file⟩

/-- Any other path than that of a directory stands for itself. -/
theorem Source.collect_of_isDirectory_eq_false {tree : FileTree} {path : String}
    (other : tree.isDirectory path = false) (extension : String) :
    collect tree path extension = .ok ([path], []) := by
  unfold collect
  rw [other]
  rfl

/-! ## Lines of bytes

Bytes have lines whether or not they spell a text. -/

/-- **How many lines some bytes have**: one for each newline, and one more where something stands behind the
last of them. -/
def lineCount (bytes : List UInt8) : Nat :=
  bytes.count newlineByte + if bytes.getLast?.getD newlineByte = newlineByte then 0 else 1

theorem lineCount_append_newline {body : List UInt8} (oneLine : newlineByte ∉ body) (rest : List UInt8) :
    lineCount (body ++ newlineByte :: rest) = lineCount rest + 1 := by
  have last : (body ++ newlineByte :: rest).getLast? = some (rest.getLast?.getD newlineByte) := by
    rw [List.getLast?_append, List.getLast?_cons, Option.some_or]
  rw [lineCount, lineCount, last, List.count_append, List.count_cons_self,
    List.count_eq_zero_of_not_mem oneLine, Option.getD_some]
  omega

theorem lineCount_of_not_mem {bytes : List UInt8} (oneLine : newlineByte ∉ bytes) (nonempty : bytes ≠ []) :
    lineCount bytes = 1 := by
  have last : bytes.getLast nonempty ≠ newlineByte :=
    fun same => oneLine (same ▸ List.getLast_mem nonempty)
  rw [lineCount, List.count_eq_zero_of_not_mem oneLine, List.getLast?_eq_some_getLast nonempty,
    Option.getD_some, if_neg last]

/-- The first line is one of them. -/
theorem lineCount_cutLine {bytes : List UInt8} (nonempty : bytes ≠ []) :
    lineCount bytes = lineCount (cutLine bytes).2 + 1 := by
  rcases newlineByte_cases bytes with oneLine | ⟨body, rest, oneLine, rfl⟩
  · rw [cutLine_of_not_mem oneLine, lineCount_of_not_mem oneLine nonempty]
    rfl
  · rw [cutLine_append_newline oneLine, lineCount_append_newline oneLine]

theorem eq_nil_of_cutLine {bytes : List UInt8} (empty : (cutLine bytes).1 = []) : bytes = [] := by
  rcases newlineByte_cases bytes with oneLine | ⟨body, rest, oneLine, rfl⟩
  · rwa [cutLine_of_not_mem oneLine] at empty
  · rw [cutLine_append_newline oneLine] at empty
    simp at empty

namespace SourceFile

variable {tree : FileTree}

/-- **How many lines of a source are left.** A directory has none, though reading it fails. -/
def linesLeft (tree : FileTree) (file : SourceFile) : Nat :=
  match file.handle with
  | .directory => 0
  | .file slot taken pending => lineCount (pending ++ (tree.bytes slot).drop taken)

theorem linesLeft_of_holds {file : SourceFile} {bytes : List UInt8} (left : file.Holds tree bytes) :
    file.linesLeft tree = lineCount bytes := by
  obtain ⟨slot, taken, pending, opened, rfl⟩ := left
  rw [linesLeft, opened]

/-- **What a reading does to the lines that are left**, by what it comes to: it takes one, and it finds the
end only where none is left. It fails on one of them, or because there is nothing but a directory. -/
def TakesLine (before behind : Nat) : Except FileError (Option (List Char)) → Prop
  | .ok none => before = 0
  | .ok (some _) => before = behind + 1
  | .error cause => cause = .isADirectory ∨ 0 < before

theorem takesLine_lineText (bytes : List UInt8) :
    TakesLine (lineCount bytes) (lineCount (cutLine bytes).2) (lineText (cutLine bytes).1) := by
  unfold lineText
  split
  · rename_i empty
    rw [eq_nil_of_cutLine empty]
    rfl
  · rename_i filled
    have nonempty : bytes ≠ [] := by
      rintro rfl
      exact filled rfl
    rw [lineCount_cutLine nonempty]
    split
    · rfl
    · exact .inr (Nat.succ_pos _)

theorem linesLeft_readLine {file behind : SourceFile} {line : Except FileError (Option (List Char))}
    (read : file.readLine tree = (behind, line)) :
    TakesLine (file.linesLeft tree) (behind.linesLeft tree) line := by
  cases opened : file.handle with
  | directory =>
    simp only [readLine, opened, FileTree.readLine, Prod.mk.injEq] at read
    obtain ⟨-, rfl⟩ := read
    exact .inl rfl
  | file slot taken pending =>
    have left : file.Holds tree (pending ++ (tree.bytes slot).drop taken) :=
      ⟨slot, taken, pending, opened, rfl⟩
    obtain ⟨next, reading, holds, -⟩ := readLine_of_holds left
    rw [read, Prod.mk.injEq] at reading
    obtain ⟨rfl, rfl⟩ := reading
    rw [linesLeft_of_holds left, linesLeft_of_holds holds]
    exact takesLine_lineText _

/-- Where reading does not come to the end, a line is left, unless it is the reading of a directory. -/
theorem linesLeft_pos {file behind : SourceFile} {line : Except FileError (Option (List Char))}
    (read : file.readLine tree = (behind, line)) (more : line ≠ .ok none)
    (isFile : line ≠ .error .isADirectory) : 0 < file.linesLeft tree := by
  have takes := linesLeft_readLine read
  rcases line with cause | _ | raw
  · rcases takes with rfl | left
    · exact absurd rfl isFile
    · exact left
  · exact absurd rfl more
  · exact takes ▸ Nat.succ_pos _

/-- What has handed out a line is no directory. -/
theorem handle_ne_directory {file behind : SourceFile} {raw : List Char}
    (read : file.readLine tree = (behind, .ok (some raw))) : behind.handle ≠ .directory := by
  cases opened : file.handle with
  | directory => simp [readLine, opened, FileTree.readLine] at read
  | file slot taken pending =>
    have left : file.Holds tree (pending ++ (tree.bytes slot).drop taken) :=
      ⟨slot, taken, pending, opened, rfl⟩
    obtain ⟨next, reading, ⟨slot', taken', pending', holds, -⟩, -⟩ := readLine_of_holds left
    have same : behind = next := congrArg Prod.fst (read.symm.trans reading)
    rw [same, holds]
    intro directory
    cases directory

/-- The reading of a directory fails, and nothing else fails like that. -/
theorem readLine_eq_isADirectory_iff {file : SourceFile} :
    (file.readLine tree).2 = .error .isADirectory ↔ file.handle = .directory := by
  cases opened : file.handle with
  | directory => simp [readLine, opened, FileTree.readLine]
  | file slot taken pending =>
    have left : file.Holds tree (pending ++ (tree.bytes slot).drop taken) :=
      ⟨slot, taken, pending, opened, rfl⟩
    obtain ⟨next, reading, -, -⟩ := readLine_of_holds left
    rw [reading, lineText]
    split
    · simp
    · split <;> simp

end SourceFile

/-- **How many lines a path leads to**; none where it cannot be opened, and none in a directory. -/
def FileTree.linesAt (tree : FileTree) (path : String) : Nat :=
  match SourceFile.openAt tree path with
  | .ok file => file.linesLeft tree
  | .error _ => 0

end JackTokens
