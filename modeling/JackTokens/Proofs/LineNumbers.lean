import JackTokens.Proofs.Encoding
import JackTokens.Proofs.Failure
import JackTokens.Proofs.Provenance
import Mathlib.Algebra.GroupWithZero.Nat

/-!
# Line numbers

One counter of 32 bits goes through all the lines of a unit, those that are kept and those that are not. It
goes up by one for each line that is read, it is put back to zero at the start of a file where each file is
numbered on its own, and it gives each token its line. A failure counts one more, for the line that could not
be read.

**Where the counter is** (`Counted`). Together with the lines that are left of the open file it makes up the
number of the last line of that file, in the numbering that is used (`lineReach`). Each step keeps this up:
the counter takes over what reading takes off. So the counter stays below the number of lines of the unit
while a line is left, and while that number is below 2 to the 32 no line that is read makes it overflow.

**Where the tokens are** (`InOrder`). The tokens of a file are in the order of their lines, behind the line
before the file (`lineFloor`) and not behind its last line.

**The law** (`after_lines`) says this of each state of a run, for both kinds of numbering, and gives the
counter at the end of a run that has not failed. It is about lines of bytes, so it holds of files that cannot
be read to their end as well; the lines of a path that cannot be opened are none, and those of a directory,
too. A directory fails all the same, and the failure names the line behind the lines before it. Where these
take up all the numbers there is none left for it (`line_wraps_at_directory`).
-/

namespace JackTokens

namespace Tokenizer

/-! ## Numbers of lines -/

/-- The line behind which the `i`-th file of a unit begins, for the line counts of its files. -/
def lineFloor (numbering : LineNumbering) (counts : List Nat) (i : Nat) : Nat :=
  match numbering with
  | .global => (counts.take i).sum
  | .perFile => 0

/-- The number of the last line of the first `n` files. -/
def lineReach (numbering : LineNumbering) (counts : List Nat) : Nat → Nat
  | 0 => 0
  | i + 1 => lineFloor numbering counts i + counts.getD i 0

theorem sum_take_succ (counts : List Nat) (i : Nat) :
    (counts.take (i + 1)).sum = (counts.take i).sum + counts.getD i 0 := by
  rw [List.take_add_one, List.sum_append, List.getD_eq_getElem?_getD]
  cases counts[i]? <;> simp

theorem sum_take_le (counts : List Nat) (i : Nat) : (counts.take i).sum ≤ counts.sum := by
  have whole := congrArg List.sum (List.take_append_drop i counts)
  rw [List.sum_append] at whole
  omega

theorem sum_take_mono (counts : List Nat) {i j : Nat} (le : i ≤ j) :
    (counts.take i).sum ≤ (counts.take j).sum := by
  have shorter := sum_take_le (counts.take j) i
  rwa [List.take_take, Nat.min_eq_left le] at shorter

theorem lineReach_global (counts : List Nat) (n : Nat) :
    lineReach .global counts n = (counts.take n).sum := by
  cases n with
  | zero => rfl
  | succ i => rw [sum_take_succ]; rfl

/-- Behind all files the counter is at the last line of the unit, or of its last file. -/
@[simp] theorem lineReach_global_length (counts : List Nat) : lineReach .global counts counts.length = counts.sum := by
  rw [lineReach_global, List.take_length]

theorem lineReach_perFile_length {counts : List Nat} {last : Nat} (found : counts.getLast? = some last) :
    lineReach .perFile counts counts.length = last := by
  rw [List.getLast?_eq_getElem?] at found
  have inside := (List.getElem?_eq_some_iff.mp found).1
  have length : counts.length = counts.length - 1 + 1 := by omega
  rw [length, lineReach, lineFloor, Nat.zero_add, List.getD_eq_getElem?_getD, found, Option.getD_some]

theorem lineReach_le (numbering : LineNumbering) (counts : List Nat) (n : Nat) :
    lineReach numbering counts n ≤ counts.sum := by
  have whole := sum_take_le counts n
  cases numbering with
  | global => rwa [lineReach_global]
  | perFile =>
    cases n with
    | zero => exact Nat.zero_le _
    | succ i =>
      rw [sum_take_succ] at whole
      simp only [lineReach, lineFloor]
      omega

/-- A file is counted on from where the counter is behind the files before it, or from zero. -/
theorem toNat_lineBase {numbering : LineNumbering} {line : UInt32} {counts : List Nat} {n : Nat}
    (counted : line.toNat = lineReach numbering counts n) :
    (lineBase numbering line).toNat = lineFloor numbering counts n := by
  cases numbering with
  | global => exact counted.trans (lineReach_global counts n)
  | perFile => rfl

theorem toNat_add_one {line : UInt32} (few : line.toNat + 1 < UInt32.size) :
    (line + 1).toNat = line.toNat + 1 := toNat_add_ofNat few

/-- Only the last number has none behind it. -/
theorem toNat_add_one_iff {line : UInt32} :
    (line + 1).toNat = line.toNat + 1 ↔ line.toNat + 1 ≠ UInt32.size := by
  have bounded : line.toNat < UInt32.size := line.toNat_lt
  constructor
  · intro same last
    have wrapped : (line + 1).toNat < UInt32.size := (line + 1).toNat_lt
    omega
  · intro another
    exact toNat_add_one (by omega)

end Tokenizer

/-- A text of newlines has as many lines. -/
@[simp] theorem Text.lines_replicate (n : Nat) : lines (List.replicate n '\n') = List.replicate n ['\n'] := by
  induction n with
  | zero => rfl
  | succ n ih =>
    rw [List.replicate_succ, List.replicate_succ, ← ih]
    exact lines_append_newline List.not_mem_nil (List.replicate n '\n')

@[simp] theorem lineCount_replicate (n : Nat) : lineCount (Utf8.encode (List.replicate n '\n')) = n := by
  induction n with
  | zero => rfl
  | succ n ih =>
    have one : Utf8.encode (List.replicate (n + 1) '\n') =
        [] ++ newlineByte :: Utf8.encode (List.replicate n '\n') := rfl
    rw [one, lineCount_append_newline List.not_mem_nil, ih]

/-- A load counts the line. -/
@[simp] theorem LineCursor.line_load (cursor : LineCursor) (raw : List Char) :
    (cursor.load raw).1.line = cursor.line + 1 := by
  rcases cursor.load_cases raw with ⟨text, kept⟩ | ⟨inComment, unkept⟩
  · rw [kept]
    rfl
  · rw [unkept]
    rfl

namespace Tokenizer

variable {tree : FileTree} {start t next : Tokenizer} {parts : List (List Token)}

/-! ## Tokens in the order of their lines -/

/-- **Tokens in the order of their lines**, all of them behind one line and none behind another. -/
structure InOrder (floor reach : Nat) (part : List Token) : Prop where
  sorted : part.Pairwise fun first second => first.line.toNat ≤ second.line.toNat
  inside : ∀ token ∈ part, floor < token.line.toNat ∧ token.line.toNat ≤ reach

theorem InOrder.nil (floor reach : Nat) : InOrder floor reach [] :=
  ⟨.nil, List.forall_mem_nil _⟩

theorem InOrder.append {floor reach : Nat} {part : List Token} (ordered : InOrder floor reach part)
    {token : Token} (last : ∀ earlier ∈ part, earlier.line.toNat ≤ token.line.toNat)
    (above : floor < token.line.toNat) (below : token.line.toNat ≤ reach) :
    InOrder floor reach (part ++ [token]) where
  sorted := by
    rw [List.pairwise_append]
    refine ⟨ordered.sorted, List.pairwise_singleton _ _, ?_⟩
    intro earlier member other same
    cases List.mem_singleton.mp same
    exact last earlier member
  inside := by
    intro other member
    rcases List.mem_append.mp member with earlier | same
    · exact ordered.inside other earlier
    · cases List.mem_singleton.mp same
      exact ⟨above, below⟩

/-! ## Where the counter is -/

/-- How many lines of the open file are left. -/
def linesLeft (tree : FileTree) (t : Tokenizer) : Nat :=
  match t.file with
  | some file => file.linesLeft tree
  | none => 0

theorem linesLeft_of_file {file : SourceFile} (isOpen : t.file = some file) :
    t.linesLeft tree = file.linesLeft tree := by
  rw [linesLeft, isOpen]

theorem linesLeft_of_closed (closed : t.file = none) : t.linesLeft tree = 0 := by
  rw [linesLeft, closed]

/-- A line that is read is off the file. -/
theorem linesLeft_of_readLine {file behind : SourceFile} {raw : List Char}
    (phase : t.phase = .lineEmpty file) (read : file.readLine tree = (behind, .ok (some raw))) :
    t.linesLeft tree = behind.linesLeft tree + 1 :=
  (linesLeft_of_file (file_of_lineEmpty phase)).trans (SourceFile.linesLeft_readLine read)

/-- The line counts of the files of a unit. -/
def unitCounts (tree : FileTree) (start : Tokenizer) : List Nat := start.queue.map tree.linesAt

/-- The line behind which the `i`-th file begins. -/
def floorOf (tree : FileTree) (start : Tokenizer) (i : Nat) : Nat :=
  lineFloor start.policy.lineNumbering (start.unitCounts tree) i

/-- The last line of the first `n` files. -/
def reachOf (tree : FileTree) (start : Tokenizer) (n : Nat) : Nat :=
  lineReach start.policy.lineNumbering (start.unitCounts tree) n

/-- **The tokens have the lines of their files**, in a run that began in another state. -/
structure Tallied (tree : FileTree) (start t : Tokenizer) (parts : List (List Token)) : Prop extends
    t.Sections parts where
  /-- The files were opened in the order of the queue. -/
  paths : t.files.toList.map Provenance.path <+: start.queue
  ordered : ∀ {i : Nat} {part : List Token}, parts[i]? = some part →
    InOrder (start.floorOf tree i) (start.reachOf tree (i + 1)) part

/-- **The counter is where it has to be**, in a run that has not failed. -/
structure Counted (tree : FileTree) (start t : Tokenizer) (parts : List (List Token)) : Prop extends
    Tallied tree start t parts where
  policy : t.policy = start.policy
  queued : t.files.toList.map Provenance.path ++ t.queue = start.queue
  /-- The run has ended with nothing left to open. -/
  completed : t.state = .exhausted → t.queue = []
  /-- The counter and the lines that are left make up the last line of the files that were opened. -/
  counter : t.cursor.line.toNat + t.linesLeft tree = start.reachOf tree t.files.size
  /-- In a file the counter is not before its start. -/
  begun : ∀ {file : SourceFile}, t.file = some file →
    start.floorOf tree (t.files.size - 1) ≤ t.cursor.line.toNat
  /-- In a directory it stays there. -/
  unread : ∀ {file : SourceFile}, t.file = some file → file.handle = .directory →
    t.cursor.line.toNat = start.floorOf tree (t.files.size - 1)
  /-- With a line to scan it is behind it. -/
  buffered : t.state = .lineBuffered → start.floorOf tree (t.files.size - 1) < t.cursor.line.toNat
  /-- It has passed the lines of all the tokens of the last file. -/
  passed : ∀ {front : List (List Token)} {part : List Token}, parts = front ++ [part] →
    ∀ token ∈ part, token.line.toNat ≤ t.cursor.line.toNat

theorem Tallied.congr (tallied : Tallied tree start t parts) (tokens : next.tokens = t.tokens)
    (files : next.files = t.files) : Tallied tree start next parts :=
  ⟨tallied.toSections.congr tokens files, files ▸ tallied.paths, tallied.ordered⟩

/-- A change that leaves the lists, the counter and the lines of the open file as they are. -/
theorem Counted.congr (counted : Counted tree start t parts) (policy : next.policy = t.policy)
    (queue : next.queue = t.queue) (tokens : next.tokens = t.tokens) (files : next.files = t.files)
    (line : next.cursor.line = t.cursor.line) (left : next.linesLeft tree = t.linesLeft tree)
    (completed : next.state = .exhausted → next.queue = [])
    (isOpen : ∀ {file : SourceFile}, next.file = some file → t.file = some file)
    (buffered : next.state = .lineBuffered → t.state = .lineBuffered) :
    Counted tree start next parts where
  toTallied := counted.toTallied.congr tokens files
  policy := policy.trans counted.policy
  queued := by rw [files, queue, counted.queued]
  completed := completed
  counter := by rw [line, left, files, counted.counter]
  begun := by
    intro file found
    rw [line, files]
    exact counted.begun (isOpen found)
  unread := by
    intro file found directory
    rw [line, files]
    exact counted.unread (isOpen found) directory
  buffered := by
    intro found
    rw [line, files]
    exact counted.buffered (buffered found)
  passed := by
    intro front part split
    rw [line]
    exact counted.passed split

theorem Fresh.counted (fresh : start.Fresh) (tree : FileTree) : Counted tree start start [] := by
  have sections : start.Sections [] := fresh.attributed.toSections
  have idle : start.state = .idle := congrArg Tokenizer.state fresh.eq
  have closed : start.file = none := congrArg Tokenizer.file fresh.eq
  have files : start.files = #[] := congrArg Tokenizer.files fresh.eq
  have cursor : start.cursor = .fresh := congrArg Tokenizer.cursor fresh.eq
  refine ⟨⟨sections, by simp [files], nofun⟩, rfl, by simp [files], ?_, ?_, ?_, ?_, ?_, ?_⟩
  · rw [idle]
    nofun
  · rw [linesLeft_of_closed closed, cursor, files]
    rfl
  · rw [closed]
    nofun
  · rw [closed]
    nofun
  · rw [idle]
    nofun
  · intro front part split
    simp at split

/-- The next path of the queue is that of the next file. -/
theorem Counted.getD_unitCounts (counted : Counted tree start t parts) {path : String} {queue : List String}
    (queued : t.queue = path :: queue) :
    (start.unitCounts tree).getD t.files.size 0 = tree.linesAt path := by
  have place : (t.files.toList.map Provenance.path).length = t.files.size := by simp
  rw [unitCounts, ← counted.queued, queued, List.getD_eq_getElem?_getD, List.getElem?_map,
    List.getElem?_append_right (by omega), place, Nat.sub_self]
  rfl

/-- **A file is opened**: the counter is at the line before it. -/
theorem Counted.opening (counted : Counted tree start t parts) {path : String} {queue : List String}
    {file : SourceFile} (idle : t.phase = .idle) (queued : t.queue = path :: queue)
    (opened : SourceFile.openAt tree path = .ok file) :
    Counted tree start (t.opening file queue) (parts ++ [[]]) := by
  have size : (t.opening file queue).files.size = t.files.size + 1 := Array.size_push _
  have before : t.cursor.line.toNat = start.reachOf tree t.files.size := by
    have whole := counted.counter
    rwa [linesLeft_of_closed (file_of_idle idle), Nat.add_zero] at whole
  have line : (t.opening file queue).cursor.line.toNat = start.floorOf tree t.files.size := by
    rw [floorOf, ← toNat_lineBase before, ← counted.policy]
    rfl
  have lines : tree.linesAt path = file.linesLeft tree := by rw [FileTree.linesAt, opened]
  have paths : (t.opening file queue).files.toList.map Provenance.path ++ queue = start.queue := by
    rw [← counted.queued, queued, ← (SourceFile.name_of_openAt opened).2]
    simp [Tokenizer.opening]
  refine ⟨⟨counted.toSections.push rfl rfl rfl rfl, ⟨queue, paths⟩, ?_⟩, counted.policy, paths, ?_, ?_, ?_, ?_, ?_,
    ?_⟩
  · intro i part found
    by_cases earlier : i < parts.length
    · rw [List.getElem?_append_left earlier] at found
      exact counted.ordered found
    · rw [List.getElem?_append_right (by omega)] at found
      cases List.mem_singleton.mp (List.mem_of_getElem? found)
      exact .nil _ _
  · intro done
    cases done
  · have left : (t.opening file queue).linesLeft tree = file.linesLeft tree := rfl
    rw [line, left, size, ← lines, ← counted.getD_unitCounts queued]
    rfl
  · intro other _
    rw [line, size]
    exact Nat.le_refl _
  · intro other _ _
    rw [line, size]
    rfl
  · intro buffered
    cases buffered
  · intro front part split
    cases (List.append_inj_right' split rfl)
    exact List.forall_mem_nil _

/-- The counter stays below the lines of the unit while one of them is left. -/
theorem Counted.line_lt (counted : Counted tree start t parts)
    (few : (start.unitCounts tree).sum < UInt32.size) (left : 0 < t.linesLeft tree) :
    t.cursor.line.toNat + 1 < UInt32.size := by
  have whole := counted.counter
  have bounded : start.reachOf tree t.files.size ≤ (start.unitCounts tree).sum := lineReach_le _ _ _
  omega

/-- **A line is read**: the counter takes over what reading takes off. -/
theorem Counted.loading (counted : Counted tree start t parts)
    (few : (start.unitCounts tree).sum < UInt32.size) {file behind : SourceFile} {raw : List Char}
    (phase : t.phase = .lineEmpty file) (read : file.readLine tree = (behind, .ok (some raw))) :
    Counted tree start (t.loading behind raw) parts := by
  have left := linesLeft_of_readLine phase read
  have line : (t.loading behind raw).cursor.line.toNat = t.cursor.line.toNat + 1 := by
    rw [Tokenizer.loading, LineCursor.line_load]
    exact toNat_add_one (counted.line_lt few (by omega))
  have floor := counted.begun (file_of_lineEmpty phase)
  have whole := counted.counter
  refine ⟨counted.toTallied.congr rfl rfl, counted.policy, counted.queued, ?_, ?_, ?_, ?_, ?_, ?_⟩
  · intro done
    unfold Tokenizer.loading at done
    split at done <;> cases done
  · have behind : (t.loading behind raw).linesLeft tree = behind.linesLeft tree := rfl
    rw [line, behind]
    exact (by omega : _ = t.cursor.line.toNat + t.linesLeft tree).trans whole
  · intro other _
    rw [line]
    exact Nat.le_succ_of_le floor
  · -- What has handed out a line is no directory.
    intro other isOpen directory
    cases isOpen
    exact absurd directory (SourceFile.handle_ne_directory read)
  · intro _
    rw [line]
    exact Nat.lt_succ_of_le floor
  · intro front part split token member
    rw [line]
    exact Nat.le_succ_of_le (counted.passed split token member)

/-- A token does not change the paths of the records. -/
@[simp] theorem map_path_emit (t : Tokenizer) (token : Token) :
    (t.emit token).files.toList.map Provenance.path = t.files.toList.map Provenance.path := by
  apply List.ext_getElem?
  intro i
  simp only [Tokenizer.emit, Array.toList_modify, List.getElem?_map, List.getElem?_modify]
  split
  · cases t.files.toList[i]? <;> rfl
  · simp

/-- **A token is emitted**, on the line of the counter. -/
theorem Counted.emit {front : List (List Token)} {part : List Token}
    (counted : Counted tree start t (front ++ [part])) (buffered : t.state = .lineBuffered) (kind : Kind) :
    Counted tree start (t.emit ⟨kind, t.cursor.line⟩) (front ++ [part ++ [⟨kind, t.cursor.line⟩]]) := by
  have paths := map_path_emit t ⟨kind, t.cursor.line⟩
  have size : (t.emit ⟨kind, t.cursor.line⟩).files.size = t.files.size := Array.size_modify
  have last : t.files.size = front.length + 1 := by simp [counted.size_files]
  have earlier := counted.passed rfl
  have above := counted.buffered buffered
  have whole := counted.counter
  rw [last] at whole
  rw [last, Nat.add_sub_cancel] at above
  refine ⟨⟨counted.toSections.emit _, paths ▸ counted.paths, ?_⟩, counted.policy,
    paths ▸ counted.queued, counted.completed, size ▸ counted.counter, size ▸ counted.begun,
    size ▸ counted.unread, size ▸ counted.buffered, ?_⟩
  · intro i other found
    rcases Nat.lt_trichotomy i front.length with before | rfl | behind
    · have same : (front ++ [part])[i]? = some other := by
        rwa [List.getElem?_append_left before] at found ⊢
      exact counted.ordered same
    · rw [List.getElem?_concat_length] at found
      cases found
      have ordered := counted.ordered (List.getElem?_concat_length (l := front) (a := part))
      exact ordered.append earlier above (by simp only; omega)
    · rw [List.getElem?_eq_none (by simp; omega)] at found
      cases found
  · intro others other split token member
    cases List.append_inj_right' split rfl
    rcases List.mem_append.mp member with before | same
    · exact earlier token before
    · cases List.mem_singleton.mp same
      exact Nat.le_refl _

/-- **Each step keeps the counter where it has to be**, or it fails and leaves the tokens as they are. -/
theorem Counted.transition (counted : Counted tree start t parts) (coherent : t.Coherent)
    (few : (start.unitCounts tree).sum < UInt32.size) {outcome : Outcome}
    (taken : Transition tree t next outcome) :
    (∃ parts, Counted tree start next parts) ∨
      (∃ e, outcome = .failed e) ∧ ∃ parts, Tallied tree start next parts := by
  cases taken with
  | finished _ => exact .inl ⟨parts, counted⟩
  | completed idle empty =>
    exact .inl ⟨parts, counted.congr rfl rfl rfl rfl rfl rfl (fun _ => empty) id nofun⟩
  | unopened _ _ _ => exact .inr ⟨⟨_, rfl⟩, parts, counted.toTallied.congr rfl rfl⟩
  | opened idle queued opened => exact .inl ⟨_, counted.opening idle queued opened⟩
  | unreadable _ _ => exact .inr ⟨⟨_, rfl⟩, parts, counted.toTallied.congr rfl rfl⟩
  | ended phase read =>
    have none : t.linesLeft tree = 0 :=
      (linesLeft_of_file (file_of_lineEmpty phase)).trans (SourceFile.linesLeft_readLine read)
    exact .inl ⟨parts, counted.congr rfl rfl rfl rfl rfl none.symm nofun nofun nofun⟩
  | loaded phase read => exact .inl ⟨parts, counted.loading few phase read⟩
  | blank _ _ _ => exact .inl ⟨parts, counted.congr rfl rfl rfl rfl rfl rfl nofun id nofun⟩
  | @lexeme file run piece rest content phase _ _ _ =>
    obtain ⟨buffered, isOpen⟩ := phase_eq_lineBuffered_iff.mp phase
    have passed : Counted tree start (t.pass run piece) parts :=
      counted.congr rfl rfl rfl rfl rfl rfl counted.completed id id
    rcases content with kind | (_ | _ | _)
    · obtain ⟨front, part, rfl⟩ := coherent.exists_append isOpen counted.toSections
      exact .inl ⟨_, passed.emit buffered kind⟩
    · exact .inl ⟨parts, passed⟩
    · exact .inl ⟨parts, passed⟩
    · exact .inl ⟨parts, passed.congr rfl rfl rfl rfl rfl rfl passed.completed id id⟩

/-! ## A whole run -/

/-- **In every state of a run** the counter is where it has to be, or the run has failed. -/
theorem Fresh.counted_after (fresh : start.Fresh) (few : (start.unitCounts tree).sum < UInt32.size)
    (n : Nat) :
    (∃ parts, Counted tree start (start.after tree n) parts) ∨
      (start.after tree n).phase = .exhausted ∧ ∃ parts, Tallied tree start (start.after tree n) parts := by
  induction n with
  | zero => exact .inl ⟨[], fresh.counted tree⟩
  | succ n ih =>
    have coherent := (Visits.after tree n).coherent fresh.coherent
    rcases ih with ⟨parts, counted⟩ | ⟨done, tallied⟩
    · have taken := coherent.transition_step tree
      rcases counted.transition coherent few taken with goesOn | ⟨failed, tallied⟩
      · exact .inl goesOn
      · exact .inr ⟨taken.exhausted (.inr failed), tallied⟩
    · have stays : start.after tree (n + 1) = start.after tree n := by
        rw [after, step_of_exhausted (state_of_exhausted done)]
      rw [stays]
      exact .inr ⟨done, tallied⟩

theorem Fresh.tallied_after (fresh : start.Fresh) (few : (start.unitCounts tree).sum < UInt32.size)
    (n : Nat) : ∃ parts, Tallied tree start (start.after tree n) parts := by
  rcases fresh.counted_after few n with ⟨parts, counted⟩ | ⟨-, tallied⟩
  · exact ⟨parts, counted.toTallied⟩
  · exact tallied

/-- A step that does not fail keeps the counter where it has to be. -/
theorem Counted.step (counted : Counted tree start t parts) (coherent : t.Coherent)
    (few : (start.unitCounts tree).sum < UInt32.size) {outcome : Outcome}
    (stepped : t.step tree = (next, outcome)) (unfailed : ∀ e, outcome ≠ .failed e) :
    (∃ parts, Counted tree start next parts) ∧ next.Coherent := by
  have taken := coherent.transition_step tree
  rw [stepped] at taken
  refine ⟨?_, coherent.transition taken⟩
  rcases counted.transition coherent few taken with goesOn | ⟨⟨e, failed⟩, -⟩
  · exact goesOn
  · exact absurd failed (unfailed e)

theorem Counted.drain (counted : Counted tree start t parts) (coherent : t.Coherent)
    (few : (start.unitCounts tree).sum < UInt32.size) (success : (t.drain tree).2 = .ok ()) :
    ∃ parts, Counted tree start (t.drain tree).1 parts := by
  fun_induction Tokenizer.drain tree t generalizing parts with
  | case1 t next stepped ih =>
    obtain ⟨⟨_, goesOn⟩, fits⟩ := counted.step coherent few stepped (by simp)
    exact ih goesOn fits success
  | case2 t next token stepped ih =>
    obtain ⟨⟨_, goesOn⟩, fits⟩ := counted.step coherent few stepped (by simp)
    exact ih goesOn fits success
  | case3 t next stepped => exact (counted.step coherent few stepped (by simp)).1
  | case4 t next e stepped => cases success

/-- **A run that does not fail ends** with the counter where it has to be. -/
theorem Counted.tokenizeAll (counted : Counted tree start t parts) (coherent : t.Coherent)
    (few : (start.unitCounts tree).sum < UInt32.size) {stream : Array Token}
    (success : (t.tokenizeAll tree).2 = .ok stream) :
    ∃ parts, Counted tree start (t.tokenizeAll tree).1 parts := by
  have drained := counted.drain coherent few
  unfold Tokenizer.tokenizeAll at success ⊢
  split at success
  · rename_i final ended
    rw [ended] at drained
    exact drained rfl
  · cases success

/-- At the end the counter is at the last line of the unit. -/
theorem Counted.line_of_exhausted (counted : Counted tree start t parts) (done : t.phase = .exhausted) :
    t.cursor.line.toNat = start.reachOf tree start.queue.length := by
  have all := counted.queued
  rw [counted.completed (state_of_exhausted done), List.append_nil] at all
  have size : t.files.size = start.queue.length := by rw [← all, List.length_map, Array.length_toList]
  have whole := counted.counter
  rwa [linesLeft_of_closed (file_of_exhausted done), Nat.add_zero, size] at whole

/-! ## The law -/

/-- **The lines of a unit that is numbered through.** -/
structure ThroughUnit (counts : List Nat) (t : Tokenizer) : Prop where
  /-- They never decrease along the stream. -/
  sorted : t.tokens.toList.Pairwise fun first second => first.line.toNat ≤ second.line.toNat
  /-- Those of a file are behind the lines of the files before it. -/
  inside : ∀ (i : Nat) (part : List Token), t.tokensOf? i = some part → ∀ token ∈ part,
    (counts.take i).sum < token.line.toNat ∧ token.line.toNat ≤ (counts.take (i + 1)).sum
  /-- Those of different files are different. -/
  apart : ∀ (i j : Nat) (first second : List Token), i ≠ j → t.tokensOf? i = some first →
    t.tokensOf? j = some second → ∀ a ∈ first, ∀ b ∈ second, a.line ≠ b.line

/-- **The lines of files that are numbered on their own.** -/
structure WithinFiles (counts : List Nat) (t : Tokenizer) : Prop where
  /-- They never decrease in a file. -/
  sorted : ∀ (i : Nat) (part : List Token), t.tokensOf? i = some part →
    part.Pairwise fun first second => first.line.toNat ≤ second.line.toNat
  /-- They are among the lines of the file. -/
  inside : ∀ (i : Nat) (part : List Token) (count : Nat), t.tokensOf? i = some part →
    counts[i]? = some count → ∀ token ∈ part, 1 ≤ token.line.toNat ∧ token.line.toNat ≤ count

theorem Tallied.throughUnit (tallied : Tallied tree start t parts)
    (global : start.policy.lineNumbering = .global) : t.ThroughUnit (start.unitCounts tree) := by
  have ordered {i : Nat} {part : List Token} (found : parts[i]? = some part) :
      InOrder ((start.unitCounts tree).take i).sum ((start.unitCounts tree).take (i + 1)).sum part := by
    have inOrder := tallied.ordered found
    rwa [floorOf, reachOf, global, lineReach_global] at inOrder
  -- The lines of a file end before those of a later file begin.
  have earlier {i j : Nat} {first second : List Token} (less : i < j) (found : parts[i]? = some first)
      (other : parts[j]? = some second) {a b : Token} (member : a ∈ first) (member' : b ∈ second) :
      a.line.toNat < b.line.toNat := by
    have below := ((ordered found).inside a member).2
    have above := ((ordered other).inside b member').1
    have between := sum_take_mono (start.unitCounts tree) (show i + 1 ≤ j from less)
    omega
  refine ⟨?_, ?_, ?_⟩
  · rw [tallied.tokens, List.pairwise_flatten]
    constructor
    · intro part member
      obtain ⟨i, found⟩ := List.mem_iff_getElem?.mp member
      exact (ordered found).sorted
    · rw [List.pairwise_iff_getElem]
      intro i j inside inside' less a member b member'
      exact Nat.le_of_lt (earlier less (List.getElem?_eq_getElem inside) (List.getElem?_eq_getElem inside')
        member member')
  · intro i part found
    rw [tallied.tokensOf?_eq] at found
    exact (ordered found).inside
  · intro i j first second different found other a member b member' same
    rw [tallied.tokensOf?_eq] at found other
    rcases Nat.lt_or_gt_of_ne different with less | less
    · have less := earlier less found other member member'
      rw [same] at less
      exact Nat.lt_irrefl _ less
    · have less := earlier less other found member' member
      rw [same] at less
      exact Nat.lt_irrefl _ less

theorem Tallied.withinFiles (tallied : Tallied tree start t parts)
    (perFile : start.policy.lineNumbering = .perFile) : t.WithinFiles (start.unitCounts tree) := by
  refine ⟨?_, ?_⟩
  · intro i part found
    rw [tallied.tokensOf?_eq] at found
    exact (tallied.ordered found).sorted
  · intro i part count found counted token member
    rw [tallied.tokensOf?_eq] at found
    have inside := (tallied.ordered found).inside token member
    have reach : start.reachOf tree (i + 1) = count := by
      rw [reachOf, perFile, lineReach, lineFloor, Nat.zero_add, List.getD_eq_getElem?_getD, counted,
        Option.getD_some]
    rw [reach] at inside
    exact ⟨Nat.lt_of_le_of_lt (Nat.zero_le _) inside.1, inside.2⟩

/-- The files that were opened are the first of the queue. -/
theorem Tallied.path_eq (tallied : Tallied tree start t parts) {i : Nat} {record : Provenance}
    (found : t.files[i]? = some record) : start.queue[i]? = some record.path := by
  obtain ⟨rest, split⟩ := tallied.paths
  have here : (t.files.toList.map Provenance.path)[i]? = some record.path := by
    rw [List.getElem?_map, Array.getElem?_toList, found, Option.map_some]
  have inside := (List.getElem?_eq_some_iff.mp here).1
  rw [← split, List.getElem?_append_left inside, here]

/-- The counter at what a reading comes to, if it is not the end: one more line can be counted, but for a
directory behind as many lines as there are numbers. -/
theorem Counted.toNat_add_one_iff (counted : Counted tree start t parts)
    (few : (start.unitCounts tree).sum < UInt32.size) {file behind : SourceFile}
    {line : Except FileError (Option (List Char))} (phase : t.phase = .lineEmpty file)
    (read : file.readLine tree = (behind, line)) (more : line ≠ .ok none) :
    (t.cursor.line + 1).toNat = t.cursor.line.toNat + 1 ↔
      ¬ (line = .error .isADirectory ∧ start.policy.lineNumbering = .global ∧
        ((start.unitCounts tree).take (t.files.size - 1)).sum + 1 = UInt32.size) := by
  have isOpen := file_of_lineEmpty phase
  by_cases directory : line = .error .isADirectory
  · have handle := SourceFile.readLine_eq_isADirectory_iff.mp ((congrArg Prod.snd read).trans directory)
    have before := counted.unread isOpen handle
    unfold floorOf at before
    rw [Tokenizer.toNat_add_one_iff, before]
    cases start.policy.lineNumbering with
    | global => simp [directory, lineFloor]
    | perFile => simp [lineFloor, UInt32.size]
  · have left : 0 < t.linesLeft tree := by
      rw [linesLeft_of_file isOpen]
      exact SourceFile.linesLeft_pos read more directory
    have room := counted.line_lt few left
    rw [Tokenizer.toNat_add_one_iff]
    simp only [directory, false_and, not_false_eq_true, iff_true]
    omega

/-- **Line numbers are exact.** Let the files of a queue have fewer than 2 to the 32 lines together. Then, in
each state of a run over them, the counter can be increased wherever a line is read, whether the line can be
read or not; only where a directory is to be read, which has no lines, and the unit is numbered through and
has 2 to the 32 less one line before it, the line that the failure is to name has no number. The files that
were opened are the first of the queue. Where the unit is numbered through, lines never decrease along the
stream, those of a file lie between the line counts before it and behind it, and those of different files are
different; where each file is numbered on its own, lines never decrease in a file and are among the lines of
it. A request for the whole stream comes to such a state. And when it has ended without a failure, the
counter is at the last line: that of the unit, or that of the last file. -/
theorem after_lines (fresh : start.Fresh) (tree : FileTree)
    (few : (start.queue.map tree.linesAt).sum < UInt32.size) :
    let counts := start.queue.map tree.linesAt
    let numbering := start.policy.lineNumbering
    (∀ n, let t := start.after tree n
      (∀ file behind line, t.phase = .lineEmpty file → file.readLine tree = (behind, line) → line ≠ .ok none →
        ((t.cursor.line + 1).toNat = t.cursor.line.toNat + 1 ↔
          ¬ (line = .error .isADirectory ∧ numbering = .global ∧
            (counts.take (t.files.size - 1)).sum + 1 = UInt32.size))) ∧
      (∀ (i : Nat) (record : Provenance), t.files[i]? = some record →
        start.queue[i]? = some record.path) ∧
      (numbering = .global → t.ThroughUnit counts) ∧ (numbering = .perFile → t.WithinFiles counts)) ∧
    (∃ n, (start.tokenizeAll tree).1 = start.after tree n) ∧
    ∀ stream, (start.tokenizeAll tree).2 = .ok stream →
      (numbering = .global → (start.tokenizeAll tree).1.cursor.line.toNat = counts.sum) ∧
      (numbering = .perFile → ∀ last, counts.getLast? = some last →
        (start.tokenizeAll tree).1.cursor.line.toNat = last) := by
  intro counts numbering
  refine ⟨fun n => ?_, exists_after_tokenizeAll tree start, fun stream success => ?_⟩
  · obtain ⟨parts, tallied⟩ := fresh.tallied_after few n
    refine ⟨?_, fun i record => tallied.path_eq, tallied.throughUnit, tallied.withinFiles⟩
    intro file behind line phase read more
    rcases fresh.counted_after few n with ⟨parts, counted⟩ | ⟨done, -⟩
    · exact counted.toNat_add_one_iff few phase read more
    · rw [phase] at done
      cases done
  · obtain ⟨parts, counted⟩ := (fresh.counted tree).tokenizeAll fresh.coherent few success
    have line := counted.line_of_exhausted (fresh.coherent.phase_tokenizeAll tree)
    have length : start.queue.length = counts.length := (List.length_map _).symm
    refine ⟨?_, ?_⟩
    · intro global
      rw [line, reachOf, length]
      exact (congrArg (lineReach · counts counts.length) global).trans (lineReach_global_length counts)
    · intro perFile last found
      rw [line, reachOf, length]
      exact (congrArg (lineReach · counts counts.length) perFile).trans (lineReach_perFile_length found)

/-- The law at files that end in every way, with lines that are kept and lines that are not, in both
numberings. -/
theorem after_lines_brokenOff :
    let tree := FileTree.ofTexts brokenOff
    let through := ofQueue { lineNumbering := .global } ["A.jack", "B.jack", "C.jack"]
    let alone := ofQueue { lineNumbering := .perFile } ["A.jack", "B.jack", "C.jack"]
    through.Fresh ∧ alone.Fresh ∧ ["A.jack", "B.jack", "C.jack"].map tree.linesAt = [3, 0, 2] ∧
      (through.after tree 22).ThroughUnit [3, 0, 2] ∧ (alone.after tree 22).WithinFiles [3, 0, 2] ∧
      (through.after tree 22).tokens.toList.map (·.line) = [1, 4, 4, 4, 5] ∧
      (alone.after tree 22).tokens.toList.map (·.line) = [1, 1, 1, 1, 2] ∧
      (through.tokenizeAll tree).1.cursor.line.toNat = 5 ∧
      (alone.tokenizeAll tree).1.cursor.line.toNat = 2 := by
  intro tree through alone
  have counts : ["A.jack", "B.jack", "C.jack"].map tree.linesAt = [3, 0, 2] := by decide +kernel
  have few : (["A.jack", "B.jack", "C.jack"].map tree.linesAt).sum < UInt32.size := by
    rw [counts]
    decide
  have readable : ∀ file ∈ brokenOff, tree.readText file.1 = .ok file.2 :=
    List.forall_mem_cons.mpr ⟨rfl, List.forall_mem_cons.mpr ⟨rfl, List.forall_mem_singleton.mpr rfl⟩⟩
  obtain ⟨_, ranThrough, -⟩ := tokenizeAll_unit { lineNumbering := .global } readable
  obtain ⟨_, ranAlone, -⟩ := tokenizeAll_unit { lineNumbering := .perFile } readable
  obtain ⟨states, -, ends⟩ := after_lines (.queue _ _ : through.Fresh) tree few
  obtain ⟨states', -, ends'⟩ := after_lines (.queue _ _ : alone.Fresh) tree few
  obtain ⟨-, -, global, -⟩ := states 22
  obtain ⟨-, -, -, perFile⟩ := states' 22
  have last := (ends _ (congrArg Prod.snd ranThrough)).1 rfl
  have last' := (ends' _ (congrArg Prod.snd ranAlone)).2 rfl 2 (congrArg List.getLast? counts)
  refine ⟨.queue _ _, .queue _ _, counts, counts ▸ global rfl, counts ▸ perFile rfl, by decide +kernel,
    by decide +kernel, last.trans (congrArg List.sum counts), last'⟩

/-! ## A line without a number -/

/-- A file of so many empty lines, another one, and a directory. -/
def emptyLines (m n : Nat) : FileTree where
  entries := [(["A.jack"], .file 0), (["B.jack"], .file 1), (["D.jack"], .directory)]
  slots := #[Utf8.encode (List.replicate m '\n'), Utf8.encode (List.replicate n '\n')]

theorem linesAt_emptyLines (m n : Nat) :
    (emptyLines m n).linesAt "A.jack" = m ∧ (emptyLines m n).linesAt "B.jack" = n ∧
      (emptyLines m n).linesAt "D.jack" = 0 :=
  ⟨lineCount_replicate m, lineCount_replicate n, rfl⟩

theorem readText_emptyLines (m n : Nat) :
    (emptyLines m n).readText "A.jack" = .ok (List.replicate m '\n') ∧
      (emptyLines m n).readText "B.jack" = .ok (List.replicate n '\n') := by
  constructor
  · exact FileTree.readText_of_decode rfl rfl rfl (Utf8.decode_encode _)
  · exact FileTree.readText_of_decode rfl rfl rfl (Utf8.decode_encode _)

/-- **Behind files of empty lines, a directory** is opened with the counter at the number of these lines. -/
theorem reaches_directory (m n k : Nat) :
    ∃ last, Reaches (emptyLines m n)
        (ofQueue {} (List.replicate k "A.jack" ++ ["B.jack", "D.jack"])) last ∧
      last.phase = .lineEmpty ⟨"D.jack", "D.jack", .directory⟩ ∧
      last.cursor.line = UInt32.ofNat (k * m + n) := by
  let unit := List.replicate k ("A.jack", List.replicate m '\n') ++ [("B.jack", List.replicate n '\n')]
  obtain ⟨first, second⟩ := readText_emptyLines m n
  have readable : ∀ file ∈ unit, (emptyLines m n).readText file.1 = .ok file.2 := by
    intro file member
    rcases List.mem_append.mp member with early | late
    · cases (List.mem_replicate.mp early).2
      exact first
    · cases List.mem_singleton.mp late
      exact second
  have names : unit.map Prod.fst = List.replicate k "A.jack" ++ ["B.jack"] := by simp [unit]
  obtain ⟨t, reached, idle, policy, empty, counter, -⟩ := reaches_ofQueue {} readable
  obtain ⟨there, queued⟩ := reached.before_path idle empty "D.jack"
  have between : (t.queueUp ["D.jack"]).phase = .idle := idle
  obtain ⟨last, -, more, phase, -, -, line, -⟩ := reaches_opened between queued
    (rfl : SourceFile.openAt (emptyLines m n) "D.jack" = .ok ⟨"D.jack", "D.jack", .directory⟩) (.nil _)
  refine ⟨last, ?_, phase, ?_⟩
  · have whole : (ofQueue {} (unit.map Prod.fst)).queueUp ["D.jack"] =
        ofQueue {} (List.replicate k "A.jack" ++ ["B.jack", "D.jack"]) := by
      rw [names, Tokenizer.queueUp, ofQueue, ofQueue, List.append_assoc]
      rfl
    rw [← whole]
    exact there.trans more
  · have lines : last.cursor.line = t.cursor.line := by
      rw [line, show (t.queueUp ["D.jack"]).policy = {} from policy]
      exact UInt32.add_zero _
    have total := lineBase_unitLine_zero {} (unit.map Prod.snd)
    rw [lines, counter]
    refine total.trans (congrArg UInt32.ofNat ?_)
    simp only [lineOffset]
    rw [List.take_length]
    simp [unit, Text.lines_replicate]

/-- **A failure may name a line that has no number.** The files of this queue have 2 to the 32 less one line
together, and each of these lines has its number; but the directory behind them fails on the line after the
last, and the failure names line 0. -/
theorem line_wraps_at_directory :
    let tree := emptyLines 1048576 1048575
    let start := ofQueue { lineNumbering := .global } (List.replicate 4095 "A.jack" ++ ["B.jack", "D.jack"])
    start.Fresh ∧ start.queue.map tree.linesAt = List.replicate 4095 1048576 ++ [1048575, 0] ∧
      (start.queue.map tree.linesAt).sum < UInt32.size ∧
      (∃ n, let t := start.after tree n
        t.phase = .lineEmpty ⟨"D.jack", "D.jack", .directory⟩ ∧
        (t.cursor.line + 1).toNat ≠ t.cursor.line.toNat + 1) ∧
      (start.tokenizeAll tree).2 = .error (.unreadable "D.jack" 0 .isADirectory) := by
  intro tree start
  obtain ⟨first, second, third⟩ := linesAt_emptyLines 1048576 1048575
  have counts : start.queue.map tree.linesAt = List.replicate 4095 1048576 ++ [1048575, 0] := by
    show List.map tree.linesAt (List.replicate 4095 "A.jack" ++ ["B.jack", "D.jack"]) = _
    rw [List.map_append, List.map_replicate, List.map_cons, List.map_cons, List.map_nil, first, second, third]
  obtain ⟨last, reached, phase, line⟩ := reaches_directory 1048576 1048575 4095
  have highest : last.cursor.line + 1 = 0 := by
    rw [line]
    decide
  obtain ⟨n, same⟩ := reached.exists_after
  refine ⟨.queue _ _, counts, ?_, ⟨n, ?_⟩, ?_⟩
  · rw [counts, List.sum_append, List.sum_replicate_nat]
    decide
  · rw [← same]
    refine ⟨phase, ?_⟩
    rw [highest]
    exact Nat.zero_ne_add_one _
  · have fails := step_unreadable phase (rfl : SourceFile.readLine tree ⟨"D.jack", "D.jack", .directory⟩ = _)
    rw [reached.tokenizeAll_of_failed fails, highest]

end Tokenizer

end JackTokens
