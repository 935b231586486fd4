import JackTokens.Proofs.Transitions
import Mathlib.Logic.ExistsUnique

/-!
# Every token has its file

A record says which tokens of the stream are those of its file. Records are written in two places: the
opening of a file begins a section where the stream has got to, and each token lengthens the section that
was begun last. The place of the file that yielded the last token is kept apart from both.

**The law** (`visits_partition`). In every state that a tokenizer visits, whatever was asked for and whether
or not the run has failed, the sections follow each other without a gap and without an overlap, from the
first token to the last. Each token is in one of them, and cut out of the stream and put together again they
are the stream. The name of the current file is that of the section in which the last token is, and this is
the last section that is not empty, however many files without tokens have been opened since.

Sections are compared by where they begin: `placeOf parts i` tokens come before the `i`-th section, and the
next one begins where it ends. All of the law is about this one function (`Sections.section_eq`),
which never decreases.
-/

namespace JackTokens

/-- **A record owns a place of the stream** that lies in its section. -/
def Provenance.Owns (record : Provenance) (place : Nat) : Prop :=
  record.first ≤ place ∧ place < record.first + record.count

namespace Tokenizer

variable {tree : FileTree} {t start : Tokenizer} {parts : List (List Token)}

/-! ## Where sections begin -/

/-- How many tokens come before the `i`-th section. -/
def placeOf (parts : List (List Token)) (i : Nat) : Nat := (parts.take i).flatten.length

@[simp] theorem placeOf_zero (parts : List (List Token)) : placeOf parts 0 = 0 := rfl

theorem placeOf_succ {part : List Token} {i : Nat} (found : parts[i]? = some part) :
    placeOf parts (i + 1) = placeOf parts i + part.length := by
  simp [placeOf, List.take_add_one, found]

theorem placeOf_mono (parts : List (List Token)) {i j : Nat} (le : i ≤ j) :
    placeOf parts i ≤ placeOf parts j := by
  obtain ⟨rest, split⟩ := List.take_prefix_take_left (l := parts) le
  rw [placeOf, placeOf, ← split, List.flatten_append, List.length_append]
  exact Nat.le_add_right _ _

/-- Of two sections, the first ends before the second begins. -/
theorem placeOf_succ_le (parts : List (List Token)) {i j : Nat} (earlier : i < j) :
    placeOf parts (i + 1) ≤ placeOf parts j := placeOf_mono parts earlier

theorem placeOf_of_length_le {i : Nat} (beyond : parts.length ≤ i) :
    placeOf parts i = parts.flatten.length := by
  rw [placeOf, List.take_of_length_le beyond]

theorem placeOf_le (parts : List (List Token)) (i : Nat) : placeOf parts i ≤ parts.flatten.length := by
  rw [← placeOf_of_length_le (Nat.le_add_left parts.length i)]
  exact placeOf_mono parts (Nat.le_add_right i parts.length)

/-- A section that is begun without tokens moves no other. -/
@[simp] theorem placeOf_append_nil (parts : List (List Token)) (i : Nat) :
    placeOf (parts ++ [[]]) i = placeOf parts i := by
  rw [placeOf, placeOf, List.take_append, List.flatten_append]
  cases i - parts.length <;> simp

/-- Each place before the end of some sections is in one of them. -/
theorem exists_placeOf (parts : List (List Token)) {place count : Nat} (inside : place < placeOf parts count) :
    ∃ i < count, placeOf parts i ≤ place ∧ place < placeOf parts (i + 1) := by
  induction count with
  | zero => exact absurd inside (Nat.not_lt_zero place)
  | succ count ih =>
    by_cases earlier : place < placeOf parts count
    · obtain ⟨i, less, found⟩ := ih earlier
      exact ⟨i, by omega, found⟩
    · exact ⟨count, by omega, by omega, inside⟩

@[simp] theorem length_spans (first : Nat) (parts : List (List Token)) : (spans first parts).length = parts.length := by
  induction parts generalizing first with
  | nil => rfl
  | cons part parts ih => rw [spans, List.length_cons, List.length_cons, ih]

@[simp] theorem getElem?_spans (first : Nat) (parts : List (List Token)) (i : Nat) :
    (spans first parts)[i]? = parts[i]?.map fun part => (first + placeOf parts i, part.length) := by
  induction parts generalizing first i with
  | nil => rfl
  | cons part parts ih =>
    cases i with
    | zero => simp [spans]
    | succ i => simp [spans, ih, placeOf, Nat.add_assoc]

/-! ## What the records say -/

theorem Sections.size_files (sections : t.Sections parts) : t.files.size = parts.length := by
  have counted := congrArg List.length sections.files
  rwa [List.length_map, Array.length_toList, length_spans] at counted

theorem Sections.size_tokens (sections : t.Sections parts) : t.tokens.size = parts.flatten.length := by
  rw [← sections.tokens, Array.length_toList]

/-- **A record says where its section begins and where it ends.** -/
theorem Sections.section_eq (sections : t.Sections parts) {i : Nat} {record : Provenance}
    (found : t.files[i]? = some record) :
    record.first = placeOf parts i ∧ record.first + record.count = placeOf parts (i + 1) := by
  have spanned : (spans 0 parts)[i]? = some (record.first, record.count) := by
    rw [← sections.files, List.getElem?_map, Array.getElem?_toList, found, Option.map_some]
  rw [getElem?_spans, Option.map_eq_some_iff] at spanned
  obtain ⟨part, member, same⟩ := spanned
  rw [Nat.zero_add, Prod.mk.injEq] at same
  rw [placeOf_succ member, ← same.1, ← same.2]
  exact ⟨rfl, rfl⟩

theorem Sections.exists_record (sections : t.Sections parts) {i : Nat} (inside : i < parts.length) :
    ∃ record, t.files[i]? = some record :=
  ⟨_, Array.getElem?_eq_getElem (sections.size_files ▸ inside)⟩

/-- **Each token is in one section**, and in no other. -/
theorem Sections.existsUnique_owner (sections : t.Sections parts) {place : Nat}
    (inside : place < t.tokens.size) :
    ∃! i : Nat, ∃ record : Provenance, t.files[i]? = some record ∧ record.Owns place := by
  rw [sections.size_tokens, ← placeOf_of_length_le (Nat.le_refl parts.length)] at inside
  obtain ⟨i, less, before, behind⟩ := exists_placeOf parts inside
  obtain ⟨record, found⟩ := sections.exists_record less
  obtain ⟨first, stop⟩ := sections.section_eq found
  refine ⟨i, ⟨record, found, by omega, by omega⟩, ?_⟩
  rintro j ⟨other, member, before', behind'⟩
  obtain ⟨first', stop'⟩ := sections.section_eq member
  rcases Nat.lt_trichotomy i j with earlier | same | later
  · have apart := placeOf_succ_le parts earlier
    omega
  · exact same.symm
  · have apart := placeOf_succ_le parts later
    omega

/-- Put together, the sections that the records cut out are the stream. -/
theorem Sections.map_tokensOf? (sections : t.Sections parts) :
    (List.range t.files.size).map t.tokensOf? = parts.map some := by
  refine List.ext_getElem (by simp [sections.size_files]) fun i inside _ => ?_
  simp only [List.getElem_map, List.getElem_range, sections.tokensOf?_eq]
  exact List.getElem?_eq_getElem _

/-! ## The last token -/

/-- **The place of the last token**: the last section that holds one. -/
def LastFilled (parts : List (List Token)) : Option Nat → Prop
  | none => parts.flatten = []
  | some i => placeOf parts i < placeOf parts (i + 1) ∧ placeOf parts (i + 1) = parts.flatten.length

/-- **The stream falls into sections**, and the place of the last token is known. -/
structure Attributed (t : Tokenizer) (parts : List (List Token)) : Prop extends t.Sections parts where
  last : LastFilled parts t.lastEmitted

theorem Attributed.congr (attributed : t.Attributed parts) {next : Tokenizer}
    (tokens : next.tokens = t.tokens) (files : next.files = t.files)
    (lastEmitted : next.lastEmitted = t.lastEmitted) : next.Attributed parts :=
  ⟨attributed.toSections.congr tokens files, lastEmitted ▸ attributed.last⟩

theorem Fresh.attributed (fresh : start.Fresh) : start.Attributed [] := by
  rw [fresh.eq]
  exact ⟨⟨rfl, rfl⟩, rfl⟩

theorem Attributed.opening (attributed : t.Attributed parts) (file : SourceFile) (queue : List String) :
    (t.opening file queue).Attributed (parts ++ [[]]) := by
  refine ⟨attributed.toSections.push rfl rfl rfl rfl, ?_⟩
  have last : LastFilled parts (t.opening file queue).lastEmitted := attributed.last
  cases found : (t.opening file queue).lastEmitted with
  | none =>
    rw [found] at last
    simpa [LastFilled] using last
  | some i =>
    rw [found] at last
    simpa [LastFilled, placeOf_append_nil] using last

theorem Attributed.emit {part : List Token} (attributed : t.Attributed (parts ++ [part])) (token : Token) :
    (t.emit token).Attributed (parts ++ [part ++ [token]]) := by
  refine ⟨attributed.toSections.emit token, ?_⟩
  have counted := attributed.size_files
  rw [List.length_append, List.length_singleton] at counted
  have before : placeOf (parts ++ [part ++ [token]]) parts.length = parts.flatten.length := by
    rw [placeOf, List.take_left]
  rw [lastEmitted_emit counted, LastFilled, before, placeOf_of_length_le (by simp)]
  simp

/-- The open file has the last section. -/
theorem Coherent.exists_append (coherent : t.Coherent) {file : SourceFile}
    (isOpen : t.file = some file) (sections : t.Sections parts) :
    ∃ front part, parts = front ++ [part] := by
  obtain ⟨record, last, -⟩ := coherent.recorded isOpen
  obtain ⟨front, files⟩ := Array.back?_eq_some_iff.mp last
  have counted := sections.size_files
  rw [files, Array.size_push] at counted
  rcases List.eq_nil_or_concat parts with rfl | ⟨front, part, rfl⟩
  · cases counted
  · exact ⟨front, part, List.concat_eq_append⟩

/-- **Each step keeps the stream in sections**, and knows the place of the last token. -/
theorem Attributed.transition (attributed : t.Attributed parts) (coherent : t.Coherent) {next : Tokenizer}
    {outcome : Outcome} (taken : Transition tree t next outcome) : ∃ parts, next.Attributed parts := by
  cases taken with
  | finished _ => exact ⟨parts, attributed⟩
  | completed _ _ => exact ⟨parts, attributed.congr rfl rfl rfl⟩
  | unopened _ _ _ => exact ⟨parts, attributed.congr rfl rfl rfl⟩
  | opened _ _ _ => exact ⟨parts ++ [[]], attributed.opening _ _⟩
  | unreadable _ _ => exact ⟨parts, attributed.congr rfl rfl rfl⟩
  | ended _ _ => exact ⟨parts, attributed.congr rfl rfl rfl⟩
  | loaded _ _ => exact ⟨parts, attributed.congr rfl rfl rfl⟩
  | blank _ _ _ => exact ⟨parts, attributed.congr rfl rfl rfl⟩
  | @lexeme file run piece rest content phase _ _ _ =>
    have passed : (t.pass run piece).Attributed parts := attributed.congr rfl rfl rfl
    rcases content with kind | (_ | _ | _)
    · obtain ⟨front, part, rfl⟩ := coherent.exists_append (file_of_lineBuffered phase) attributed.toSections
      exact ⟨_, passed.emit _⟩
    · exact ⟨parts, passed⟩
    · exact ⟨parts, passed⟩
    · exact ⟨parts, passed.congr rfl rfl rfl⟩

theorem Visits.attributed (visited : Visits start t) (fresh : start.Fresh) :
    ∃ parts, t.Attributed parts := by
  induction visited with
  | refl => exact ⟨[], fresh.attributed⟩
  | step tree earlier ih =>
    obtain ⟨parts, attributed⟩ := ih
    have coherent := earlier.coherent fresh.coherent
    exact attributed.transition coherent (coherent.transition_step tree)

/-! ## The law -/

/-- **The records partition the stream**, and the current file is that of the last token. -/
structure Partition (t : Tokenizer) : Prop where
  /-- The first section begins with the stream. -/
  first : ∀ record : Provenance, t.files[0]? = some record → record.first = 0
  /-- Each section begins where the one before it ends. -/
  next : ∀ (i : Nat) (record later : Provenance), t.files[i]? = some record → t.files[i + 1]? = some later →
    later.first = record.first + record.count
  /-- The last section ends with the stream. -/
  last : ∀ record : Provenance, t.files.back? = some record → record.first + record.count = t.tokens.size
  /-- Each token is in one section. -/
  owned : ∀ place, place < t.tokens.size →
    ∃! i : Nat, ∃ record : Provenance, t.files[i]? = some record ∧ record.Owns place
  /-- The sections of all the files, one behind the other, are the stream. -/
  joined : ∃ parts : List (List Token), (List.range t.files.size).map t.tokensOf? = parts.map some ∧
    parts.flatten = t.tokens.toList
  /-- Before the first token there is no current file. -/
  unnamed : t.tokens = #[] → t.currentFile = ""
  /-- The current file has the section of the last token, and all sections behind it are empty. -/
  named : t.tokens ≠ #[] → ∃ (i : Nat) (record : Provenance), t.files[i]? = some record ∧
    record.Owns (t.tokens.size - 1) ∧ t.currentFile = record.name ∧
    ∀ (j : Nat) (later : Provenance), i < j → t.files[j]? = some later → later.count = 0

theorem Attributed.currentFile_eq_empty (attributed : t.Attributed parts) (none : t.tokens = #[]) :
    t.currentFile = "" := by
  have nothing := attributed.last
  have empty : parts.flatten = [] := by rw [← attributed.tokens, none]
  cases found : t.lastEmitted with
  | none => rw [currentFile, found, Option.bind_none]
  | some i =>
    rw [found] at nothing
    obtain ⟨filled, stop⟩ := nothing
    rw [stop, empty] at filled
    cases filled

theorem Attributed.exists_current (attributed : t.Attributed parts) (nonempty : t.tokens ≠ #[]) :
    ∃ (i : Nat) (record : Provenance), t.files[i]? = some record ∧ record.Owns (t.tokens.size - 1) ∧
      t.currentFile = record.name ∧
      ∀ (j : Nat) (later : Provenance), i < j → t.files[j]? = some later → later.count = 0 := by
  have last := attributed.last
  cases emitted : t.lastEmitted with
  | none =>
    rw [emitted] at last
    exact absurd (Array.toList_inj.mp (attributed.tokens.trans last)) nonempty
  | some i =>
    rw [emitted] at last
    obtain ⟨filled, ends⟩ := last
    have inside : i < parts.length := by
      rcases Nat.lt_or_ge i parts.length with inside | beyond
      · exact inside
      · rw [placeOf_of_length_le beyond, ends] at filled
        exact absurd filled (Nat.lt_irrefl _)
    obtain ⟨record, found⟩ := attributed.exists_record inside
    obtain ⟨first, stop⟩ := attributed.section_eq found
    have size := attributed.size_tokens
    refine ⟨i, record, found, ⟨by omega, by omega⟩, ?_, ?_⟩
    · rw [currentFile, emitted, Option.bind_some, found]
    · -- A later section begins where the stream ends.
      intro j later behind member
      obtain ⟨first', stop'⟩ := attributed.section_eq member
      have begins := placeOf_succ_le parts behind
      have fits := placeOf_le parts (j + 1)
      omega

theorem Attributed.partition (attributed : t.Attributed parts) : t.Partition where
  first := by
    intro record found
    exact (attributed.section_eq found).1
  next := by
    intro i record later found following
    rw [(attributed.section_eq found).2, (attributed.section_eq following).1]
  last := by
    intro record found
    rw [Array.back?_eq_getElem?] at found
    obtain ⟨-, stop⟩ := attributed.section_eq found
    have inside := (Array.getElem?_eq_some_iff.mp found).1
    rw [stop, attributed.size_tokens]
    exact placeOf_of_length_le (by rw [← attributed.size_files]; omega)
  owned := fun _ => attributed.existsUnique_owner
  joined := ⟨parts, attributed.map_tokensOf?, attributed.tokens.symm⟩
  unnamed := attributed.currentFile_eq_empty
  named := attributed.exists_current

/-- **Every token has its file.** In every state that a tokenizer visits, under any requests and whether or
not the run has failed, the records partition the stream and the current file is that of the last token; and
every request leads to such a state. -/
theorem visits_partition (fresh : start.Fresh) (visited : Visits start t) :
    t.Partition ∧ ∀ tree, (t.advance tree).1.Partition ∧ (t.tokenizeAll tree).1.Partition ∧
      ∀ n, (t.take tree n).1.Partition := by
  have partition {t : Tokenizer} (visited : Visits start t) : t.Partition := by
    obtain ⟨parts, attributed⟩ := visited.attributed fresh
    exact attributed.partition
  refine ⟨partition visited, fun tree => ⟨?_, ?_, fun n => ?_⟩⟩
  · exact partition (visited.advance tree)
  · exact partition (visited.tokenizeAll tree)
  · exact partition (visited.take tree n)

/-- The law at the end of a run that has failed on its fifth path. Two files were opened twice, and one of
them has no tokens: the last token is in the third section, and the fourth is empty. -/
theorem visits_partition_silentFile :
    let tree := FileTree.ofTexts [("A.jack", "a b\n".toList), ("B.jack", "// c\n".toList)]
    let start := ofQueue {} ["A.jack", "B.jack", "A.jack", "B.jack", "C.jack"]
    let t := start.after tree 19
    start.Fresh ∧ Visits start t ∧ t.phase = .exhausted ∧ t.Partition ∧
      t.files.toList.map (fun record => (record.name, record.first, record.count)) =
        [("A.jack", 0, 2), ("B.jack", 2, 0), ("A.jack", 2, 2), ("B.jack", 4, 0)] ∧
      ∃ (i : Nat) (record : Provenance), t.files[i]? = some record ∧ record.Owns 3 ∧
        t.currentFile = record.name ∧ t.currentFile = "A.jack" := by
  intro tree start t
  have fresh : start.Fresh := .queue _ _
  have visited : Visits start t := .after tree 19
  obtain ⟨partition, -⟩ := visits_partition fresh visited
  have size : t.tokens.size = 4 := by decide +kernel
  obtain ⟨i, record, found, owns, named, -⟩ := partition.named (by
    intro empty
    rw [empty] at size
    cases size)
  rw [size] at owns
  exact ⟨fresh, visited, by decide +kernel, partition, by decide +kernel, i, record, found, owns, named,
    by decide +kernel⟩

end Tokenizer

end JackTokens
