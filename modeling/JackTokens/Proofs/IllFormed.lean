import JackTokens.Proofs.Encoding
import JackTokens.Proofs.Failure
import Mathlib.Logic.ExistsUnique

/-!
# Where the bytes of a file go wrong

A file is checked line by line: each reading takes the bytes up to the next newline, and fails if they spell
no text. This module says what that means for the file as a whole.

**Lines are cut between characters.** The byte of a newline is no part of any other character, so cutting
behind it neither hides an ill-formed sequence nor makes one. A sequence that a newline breaks off was
ill-formed before, and the line that fails is the one in which it starts
(`SourceFile.exists_reads_of_broken`).

**The law** (`tokenizeAll_illFormed`): a run over a file fails if and only if its bytes are ill-formed
somewhere, on the line of that place. It makes no difference whether the place is inside a comment, since a
line is read before anything is made of it.
-/

namespace JackTokens

/-! ## Reading up to the place -/

theorem isPrefix_cutLine (bytes : List UInt8) : (cutLine bytes).1 <+: bytes := by
  rcases newlineByte_cases bytes with oneLine | ⟨body, rest, oneLine, rfl⟩
  · exact ⟨[], by rw [cutLine_of_not_mem oneLine, List.append_nil]⟩
  · rw [cutLine_append_newline oneLine]
    exact ⟨rest, by simp⟩

namespace SourceFile

variable {tree : FileTree} {file last : SourceFile} {lines : List (List Char)}

/-- **The line in which no character begins** cannot be read, wherever it ends. -/
theorem readLine_of_broken {body : List Char} {rest : List UInt8}
    (left : file.Holds tree (Utf8.encode body ++ rest)) (oneLine : '\n' ∉ body) (nonempty : rest ≠ [])
    (broken : ∀ c : Char, ¬ String.utf8EncodeChar c <+: rest) :
    ∃ ended, file.readLine tree = (ended, .error .invalidData) := by
  obtain ⟨ended, read, -⟩ := readLine_of_holds left
  have some : (cutLine rest).1 ≠ [] := fun empty => nonempty (eq_nil_of_cutLine empty)
  have garbled : Utf8.decode (cutLine rest).1 = none :=
    Utf8.decode_eq_none some fun c begins => broken c (begins.trans (isPrefix_cutLine rest))
  have whole : Utf8.decode (Utf8.encode body ++ (cutLine rest).1) = none := by
    rw [Utf8.decode_append (Utf8.decode_encode body), garbled]
    rfl
  rw [cutLine_append (Utf8.newlineByte_not_mem_encode oneLine), lineText_of_decode_eq_none whole] at read
  exact ⟨ended, read⟩

/-- **Before it, every line can be read.** -/
theorem exists_reads_of_broken {text : List Char} {rest : List UInt8}
    (left : file.Holds tree (Utf8.encode text ++ rest)) (nonempty : rest ≠ [])
    (broken : ∀ c : Char, ¬ String.utf8EncodeChar c <+: rest) :
    ∃ lines last ended, file.Reads tree lines last ∧ last.readLine tree = (ended, .error .invalidData) ∧
      lines.length = text.count '\n' := by
  induction text using Text.linesInduction generalizing file with
  | nil =>
    obtain ⟨ended, fails⟩ := readLine_of_broken left List.not_mem_nil nonempty broken
    exact ⟨[], file, ended, .nil file, fails, rfl⟩
  | last body oneLine _ =>
    obtain ⟨ended, fails⟩ := readLine_of_broken left oneLine nonempty broken
    exact ⟨[], file, ended, .nil file, fails, (List.count_eq_zero_of_not_mem oneLine).symm⟩
  | line body more oneLine ih =>
    obtain ⟨next, read, holds, -⟩ := readLine_of_holds left
    have spelled : Utf8.decode (Utf8.encode body ++ [newlineByte]) = some (body ++ ['\n']) :=
      Utf8.decode_append (Utf8.decode_encode body) [newlineByte]
    rw [Utf8.encode_line, List.append_assoc, List.cons_append,
      cutLine_append_newline (Utf8.newlineByte_not_mem_encode oneLine)] at read holds
    rw [lineText, if_neg (by simp), spelled] at read
    obtain ⟨lines, last, ended, reads, fails, count⟩ := ih holds
    refine ⟨(body ++ ['\n']) :: lines, last, ended, .cons read reads, fails, ?_⟩
    rw [List.length_cons, count, List.count_append, List.count_cons_self,
      List.count_eq_zero_of_not_mem oneLine, Nat.zero_add]

theorem Reads.linesLeft (reads : file.Reads tree lines last) :
    file.linesLeft tree = last.linesLeft tree + lines.length := by
  induction reads with
  | nil file => rfl
  | cons read _ ih =>
    have taken : _ = _ + 1 := linesLeft_readLine read
    rw [taken, ih, List.length_cons, Nat.add_assoc]

end SourceFile

/-- **A physical line has one newline, at its end.** Only the last may be without. -/
theorem Text.line_cases {text line : List Char} {i : Nat} (found : (lines text)[i]? = some line) :
    ∃ body, '\n' ∉ body ∧ (line = body ++ ['\n'] ∨ line = body ∧ i + 1 = (lines text).length) := by
  induction text using linesInduction generalizing i with
  | nil => cases found
  | last body oneLine nonempty =>
    rw [lines_of_not_mem oneLine nonempty] at found ⊢
    obtain ⟨rfl, rfl⟩ : i = 0 ∧ body = line := by
      cases i with
      | zero => exact ⟨rfl, Option.some.inj found⟩
      | succ i => cases found
    exact ⟨body, oneLine, .inr ⟨rfl, rfl⟩⟩
  | line body rest oneLine ih =>
    rw [lines_append_newline oneLine] at found ⊢
    cases i with
    | zero => exact ⟨body, oneLine, .inl (Option.some.inj found).symm⟩
    | succ i =>
      obtain ⟨other, within, shape⟩ := ih found
      refine ⟨other, within, shape.imp_right fun last => ⟨last.1, ?_⟩⟩
      rw [List.length_cons, last.2]

/-! ## The law -/

theorem Utf8.existsUnique_illFormedAt {bytes : List UInt8} (invalid : ¬ bytes.toByteArray.IsValidUTF8) :
    ∃! place, IllFormedAt bytes place := by
  have garbled : decode bytes = none := by
    rw [← Option.not_isSome_iff_eq_none, Option.isSome_iff_exists, ← isValidUTF8_iff]
    exact invalid
  obtain ⟨place, illFormed⟩ := exists_illFormedAt garbled
  exact ⟨place, illFormed, fun other there => there.eq illFormed⟩

variable {tree : FileTree} {path : String} {slot : Nat}

/-- **An ill-formed file breaks off on the line of the place**, which is one of those that are counted. -/
theorem SourceFile.breaksOff_of_illFormedAt (opened : tree.openFile path = .ok (.file slot 0 []))
    {place : Nat} (illFormed : Utf8.IllFormedAt (tree.bytes slot) place) :
    ∃ lines, BreaksOff tree path lines .invalidData ∧
      lines.length = ((tree.bytes slot).take place).count newlineByte ∧
      lines.length + 1 ≤ lineCount (tree.bytes slot) := by
  obtain ⟨inside, before, broken⟩ := illFormed
  obtain ⟨text, spelled⟩ := Utf8.isValidUTF8_iff.mp before
  let file : SourceFile := ⟨Path.displayName path, path, .file slot 0 []⟩
  have holds : file.Holds tree (Utf8.encode text ++ (tree.bytes slot).drop place) := by
    refine ⟨slot, 0, [], rfl, ?_⟩
    rw [Utf8.encode_of_decode spelled, List.take_append_drop]
    rfl
  have nonempty : (tree.bytes slot).drop place ≠ [] := by
    rw [← List.length_pos_iff, List.length_drop]
    omega
  obtain ⟨lines, last, ended, reads, fails, count⟩ := exists_reads_of_broken holds nonempty broken
  refine ⟨lines, ⟨file, last, ended, openAt_of_openFile opened, reads, fails⟩, ?_, ?_⟩
  · rw [← Utf8.encode_of_decode spelled, Utf8.count_newlineByte_encode, count]
  · have left : file.linesLeft tree = lineCount (tree.bytes slot) := rfl
    have one := linesLeft_pos fails (by simp) (by simp)
    rw [← left, reads.linesLeft]
    omega

/-- **A well-formed file is handed out in physical lines**, and nothing of it is left over. -/
theorem SourceFile.exists_reads_of_isValidUTF8 (opened : tree.openFile path = .ok (.file slot 0 []))
    (valid : (tree.bytes slot).toByteArray.IsValidUTF8) :
    ∃ file lines last ended, openAt tree path = .ok file ∧ file.Reads tree lines last ∧
      last.readLine tree = (ended, .ok none) ∧ lines.flatten.utf8Encode = (tree.bytes slot).toByteArray ∧
      ∀ i line, lines[i]? = some line →
        ∃ body, '\n' ∉ body ∧ (line = body ++ ['\n'] ∨ line = body ∧ i + 1 = lines.length) := by
  obtain ⟨text, spelled⟩ := Utf8.isValidUTF8_iff.mp valid
  let file : SourceFile := ⟨Path.displayName path, path, .file slot 0 []⟩
  have holds : file.Holds tree (tree.bytes slot) := ⟨slot, 0, [], rfl, rfl⟩
  obtain ⟨last, ended, reads, noMore, -⟩ := reads_lines holds spelled
  refine ⟨file, Text.lines text, last, ended, openAt_of_openFile opened, reads, noMore, ?_,
    fun i line => Text.line_cases⟩
  rw [Text.flatten_lines, ← Utf8.toByteArray_encode, Utf8.encode_of_decode spelled]

namespace Tokenizer

/-- A run over a file that is ill-formed at a place. -/
theorem tokenizeAll_of_illFormedAt (policy : Policy) (opened : tree.openFile path = .ok (.file slot 0 []))
    (few : lineCount (tree.bytes slot) < UInt32.size) {place : Nat}
    (illFormed : Utf8.IllFormedAt (tree.bytes slot) place) :
    ∃ line : UInt32, ((ofQueue policy [path]).tokenizeAll tree).2 =
        .error (.unreadable (Path.displayName path) line .invalidData) ∧
      line.toNat = 1 + ((tree.bytes slot).take place).count newlineByte := by
  obtain ⟨lines, breaks, count, counted⟩ := SourceFile.breaksOff_of_illFormedAt opened illFormed
  obtain ⟨final, -, -, -, -, failed⟩ :=
    tokenizeAll_breaksOff (.refl (ofQueue policy [])) rfl rfl rfl breaks (sections_ofQueue policy [])
  have line : lineBase policy.lineNumbering (ofQueue policy []).cursor.line = 0 := lineBase_zero _
  rw [line] at failed
  refine ⟨_, congrArg Prod.snd (failed []), ?_⟩
  have next : 0 + UInt32.ofNat lines.length + 1 = UInt32.ofNat (lines.length + 1) := by
    rw [UInt32.zero_add, UInt32.ofNat_add]
    rfl
  rw [next, UInt32.toNat_ofNat_of_lt' (Nat.lt_of_le_of_lt counted few), count, Nat.add_comm]

/-- **Ill-formed bytes are located exactly.** Let a path lead to a regular file with fewer than 2 to the 32
lines. A run over it fails if and only if its bytes, as a whole, are not well formed. Then there is one place
where they are ill-formed, and the failure is that of invalid data on its line: the first line, and one more
for each newline before the place. Where they are well formed, the readings hand out lines that make up the
whole of them, up to the end of the file; each has one newline, at its end, and only the last may be
without. -/
theorem tokenizeAll_illFormed (policy : Policy) (opened : tree.openFile path = .ok (.file slot 0 []))
    (few : lineCount (tree.bytes slot) < UInt32.size) :
    let bytes := tree.bytes slot
    let run := (ofQueue policy [path]).tokenizeAll tree
    ((∃ e, run.2 = .error e) ↔ ¬ bytes.toByteArray.IsValidUTF8) ∧
    (¬ bytes.toByteArray.IsValidUTF8 → ∃! place, Utf8.IllFormedAt bytes place) ∧
    (∀ place, Utf8.IllFormedAt bytes place → ∃ line : UInt32,
      run.2 = .error (.unreadable (Path.displayName path) line .invalidData) ∧
      line.toNat = 1 + (bytes.take place).count newlineByte) ∧
    (bytes.toByteArray.IsValidUTF8 → ∃ file lines last ended,
      SourceFile.openAt tree path = .ok file ∧ file.Reads tree lines last ∧
      last.readLine tree = (ended, .ok none) ∧ lines.flatten.utf8Encode = bytes.toByteArray ∧
      ∀ i line, lines[i]? = some line →
        ∃ body, '\n' ∉ body ∧ (line = body ++ ['\n'] ∨ line = body ∧ i + 1 = lines.length)) := by
  intro bytes run
  have located := fun (place : Nat) (illFormed : Utf8.IllFormedAt bytes place) =>
    tokenizeAll_of_illFormedAt policy opened few illFormed
  refine ⟨⟨?_, ?_⟩, Utf8.existsUnique_illFormedAt, located, SourceFile.exists_reads_of_isValidUTF8 opened⟩
  · rintro ⟨e, failed⟩ valid
    obtain ⟨text, spelled⟩ := Utf8.isValidUTF8_iff.mp valid
    obtain ⟨-, -, readable⟩ := SourceFile.readText_of_openFile opened
    obtain ⟨final, ran, -⟩ := tokenizeAll_single policy (readable text spelled)
    have succeeded : run.2 = .ok final.tokens := congrArg Prod.snd ran
    rw [succeeded] at failed
    cases failed
  · intro invalid
    obtain ⟨place, illFormed, -⟩ := Utf8.existsUnique_illFormedAt invalid
    obtain ⟨line, failed, -⟩ := located place illFormed
    exact ⟨_, failed⟩

/-- A file with a character of three bytes that a newline cuts off behind its second, inside a comment; and
the same with the character complete. -/
def cutCharacter : FileTree where
  entries := [(["A.jack"], .file 0), (["B.jack"], .file 1)]
  slots := #[Utf8.encode "a\n/* b\n".toList ++ [0xE2, 0x82] ++ Utf8.encode "\n*/ c".toList,
    Utf8.encode "a\n/* b\n€\n*/ c".toList]

/-- The law at both files. -/
theorem tokenizeAll_illFormed_cutCharacter :
    cutCharacter.openFile "A.jack" = .ok (.file 0 0 []) ∧ lineCount (cutCharacter.bytes 0) = 4 ∧
    Utf8.IllFormedAt (cutCharacter.bytes 0) 7 ∧
    (∃ line : UInt32, ((ofQueue {} ["A.jack"]).tokenizeAll cutCharacter).2 =
      .error (.unreadable "A.jack" line .invalidData) ∧ line.toNat = 3) ∧
    cutCharacter.openFile "B.jack" = .ok (.file 1 0 []) ∧ lineCount (cutCharacter.bytes 1) = 4 ∧
    (cutCharacter.bytes 1).toByteArray.IsValidUTF8 ∧
    ¬ ∃ e, ((ofQueue {} ["B.jack"]).tokenizeAll cutCharacter).2 = .error e := by
  have illFormed : Utf8.IllFormedAt (cutCharacter.bytes 0) 7 := by decide +kernel
  have valid : (cutCharacter.bytes 1).toByteArray.IsValidUTF8 :=
    Utf8.isValidUTF8_iff.mpr ⟨"a\n/* b\n€\n*/ c".toList, by decide +kernel⟩
  obtain ⟨-, -, located, -⟩ :=
    tokenizeAll_illFormed {} (rfl : cutCharacter.openFile "A.jack" = .ok (.file 0 0 [])) (by decide +kernel)
  obtain ⟨fails, -⟩ :=
    tokenizeAll_illFormed {} (rfl : cutCharacter.openFile "B.jack" = .ok (.file 1 0 [])) (by decide +kernel)
  obtain ⟨line, failed, number⟩ := located 7 illFormed
  refine ⟨rfl, by decide +kernel, illFormed, ⟨line, failed, ?_⟩, rfl, by decide +kernel, valid, ?_⟩
  · rw [number]
    decide +kernel
  · exact fun failed => fails.mp failed valid

end Tokenizer

end JackTokens
