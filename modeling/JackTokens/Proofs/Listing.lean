import JackTokens.Proofs.Encoding
import JackTokens.Proofs.Paths
import JackTokens.Proofs.Run
import Mathlib.Data.List.Nodup

/-!
# The sources below a directory

A directory lists its entries in an order of its own. The queue that is made of them has another order, that
of the bytes of the names, and a run sees the queue only.

**What the queue holds** (`Source.mem_select`). A name is taken if it ends in a dot and the extension and if
the joined path is not that of a directory. Names of a directory are distinct, so each is taken once, and in
the order of their bytes each stands strictly before the next (`Source.pairwise_select`).

**What it does not depend on.** Trees that list the same entries in different orders (`FileTree.Relisted`)
find the same behind every path, because a lookup among distinct locations does not ask which comes first
(`FileTree.Relisted.entry?_eq`). They give the same queue, because two sorted lists of the same names are
equal (`Source.select_perm`), and so the same run.

**Directories that are taken for files.** Whether a name is that of a directory is asked by its path, and a
path that is too long has no answer: it is not found to be a directory. So the queue holds the files and
nothing else exactly if every directory with such a name has a joined path that can be looked up
(`Source.collect_canonical`).
-/

namespace JackTokens

/-! ## Entries of a tree -/

/-- Where keys are distinct, a lookup finds each pair. -/
theorem lookup_eq_some_iff_mem {α β : Type} [BEq α] [LawfulBEq α] {pairs : List (α × β)}
    (distinct : (pairs.map Prod.fst).Nodup) {key : α} {value : β} :
    pairs.lookup key = some value ↔ (key, value) ∈ pairs := by
  constructor
  · intro found
    obtain ⟨before, behind, rfl, -⟩ := List.lookup_eq_some_iff.mp found
    exact List.mem_append_right _ List.mem_cons_self
  · intro member
    obtain ⟨before, behind, rfl⟩ := List.append_of_mem member
    refine List.lookup_eq_some_iff.mpr ⟨before, behind, rfl, ?_⟩
    intro pair earlier
    rw [List.map_append, List.map_cons, List.nodup_append] at distinct
    have other := distinct.2.2 pair.1 (List.mem_map_of_mem earlier) key List.mem_cons_self
    simpa using Ne.symm other

namespace FileTree

variable {tree other : FileTree} {path name : String} {location : Location} {entry : Entry}

/-- **A proper tree** has one entry for each location, and its entries have names. -/
structure Proper (tree : FileTree) : Prop where
  distinct : (tree.entries.map Prod.fst).Nodup
  named : ∀ below ∈ tree.entries, ∀ name ∈ below.1, Path.IsName name

/-- **A path lists a location**: it leads to a directory there that may be read. -/
structure Lists (tree : FileTree) (path : String) (location : Location) : Prop where
  located : tree.locate path = .ok location
  entered : tree.enter location = .ok ()

theorem Proper.isName (proper : tree.Proper) (member : (location ++ [name], entry) ∈ tree.entries) :
    Path.IsName name :=
  proper.named _ member name (by simp)

theorem Proper.entry?_eq_some_iff (proper : tree.Proper) :
    tree.entry? (location ++ [name]) = some entry ↔ (location ++ [name], entry) ∈ tree.entries := by
  unfold entry?
  rw [if_neg (by simp)]
  exact lookup_eq_some_iff_mem proper.distinct

theorem Lists.entry?_eq (listed : tree.Lists path location) : tree.entry? location = some .directory := by
  have entered := listed.entered
  unfold enter at entered
  split at entered
  · assumption
  · cases entered
  · cases entered

theorem Lists.nonempty (listed : tree.Lists path location) : path.toList ≠ [] :=
  (checkPath_eq_ok_iff.mp (walk_of_locate listed.located).1).2.2

theorem Lists.isDirectory (listed : tree.Lists path location) : tree.isDirectory path = true := by
  unfold FileTree.isDirectory
  rw [listed.located]
  simp [listed.entry?_eq]

/-- **An entry is found to be a directory** if it is one and its path is not too long. -/
theorem Lists.isDirectory_join (listed : tree.Lists path location) (proper : tree.Proper)
    (member : (location ++ [name], entry) ∈ tree.entries) :
    tree.isDirectory (Path.join path name) = true ↔
      entry = .directory ∧ Utf8.size (Path.join path name).toList ≤ longestPath := by
  have found := proper.entry?_eq_some_iff.mpr member
  unfold FileTree.isDirectory
  rw [locate_join (proper.isName member) listed.located listed.entered found]
  by_cases long : longestPath < Utf8.size (Path.join path name).toList
  · simp [long, Nat.not_le.mpr long]
  · simp [long, found, Nat.not_lt.mp long]

/-- Dots behind the path of a directory lead to the directory, as long as the path is not too long. -/
theorem Lists.dotted (listed : tree.Lists path location) {n : Nat}
    (short : Utf8.size path.toList + 2 * n ≤ longestPath) : tree.Lists (Path.dotted path n) location := by
  obtain ⟨checked, walked⟩ := walk_of_locate listed.located
  obtain ⟨noNul, -, nonempty⟩ := checkPath_eq_ok_iff.mp checked
  have text : (Path.dotted path n).toList = path.toList ++ (List.replicate n ['/', '.']).flatten :=
    String.toList_ofList
  have looked : checkPath (Path.dotted path n) = .ok () := by
    refine checkPath_eq_ok_iff.mpr ⟨?_, ?_, ?_⟩
    · rw [text]
      simp [noNul]
    · rw [Path.size_dotted]
      exact short
    · rw [text]
      simp [nonempty]
  have same : tree.start (Path.dotted path n) = tree.start path := by
    unfold start Path.isAbsolute
    rw [text, List.head?_append_of_ne_nil _ nonempty]
  refine ⟨?_, listed.entered⟩
  unfold locate
  rw [looked, same, Path.names_dotted, walk_append, walked]
  simp only [bind, Except.bind, walk_dots listed.entered, listed.entry?_eq]

/-! ## The names below a location -/

/-- The names below a location, as they are listed. -/
def namesBelow (tree : FileTree) (location : Location) : List String :=
  tree.entries.filterMap fun (below, _) =>
    if below ≠ [] ∧ below.dropLast = location then below.getLast? else none

theorem Lists.list_eq (listed : tree.Lists path location) :
    tree.list path = .ok (tree.namesBelow location) := by
  unfold FileTree.list
  rw [listed.located]
  show (do tree.enter location; pure (tree.namesBelow location)) = _
  rw [listed.entered]
  rfl

/-- The last name of a location below another. -/
theorem lastName_eq_some_iff {below : Location} :
    (if below ≠ [] ∧ below.dropLast = location then below.getLast? else none) = some name ↔
      below = location ++ [name] := by
  constructor
  · intro found
    split at found
    · rename_i inside
      rw [← inside.2, List.dropLast_append_getLast? name found]
    · cases found
  · rintro rfl
    simp

theorem mem_namesBelow :
    name ∈ tree.namesBelow location ↔ ∃ entry, (location ++ [name], entry) ∈ tree.entries := by
  unfold namesBelow
  rw [List.mem_filterMap]
  constructor
  · rintro ⟨⟨below, entry⟩, member, found⟩
    exact ⟨entry, lastName_eq_some_iff.mp found ▸ member⟩
  · rintro ⟨entry, member⟩
    exact ⟨_, member, lastName_eq_some_iff.mpr rfl⟩

theorem Proper.nodup_namesBelow (proper : tree.Proper) : (tree.namesBelow location).Nodup := by
  have whole : tree.namesBelow location = (tree.entries.map Prod.fst).filterMap fun below =>
      if below ≠ [] ∧ below.dropLast = location then below.getLast? else none := by
    rw [List.filterMap_map]
    rfl
  rw [whole]
  refine List.Nodup.filterMap ?_ proper.distinct
  intro first second name inFirst inSecond
  rw [lastName_eq_some_iff.mp inFirst, lastName_eq_some_iff.mp inSecond]

/-! ## Listed in another order -/

/-- **Another order of listing**: the same entries and the same bytes, with the entries rearranged. -/
structure Relisted (tree other : FileTree) : Prop where
  entries : tree.entries.Perm other.entries
  slots : other.slots = tree.slots
  denied : other.denied = tree.denied
  workingDirectory : other.workingDirectory = tree.workingDirectory

namespace Relisted

/-- **A lookup does not ask for the order.** -/
theorem entry?_eq (relisted : tree.Relisted other) (proper : tree.Proper) : other.entry? = tree.entry? := by
  have distinct : (other.entries.map Prod.fst).Nodup :=
    (relisted.entries.map Prod.fst).nodup proper.distinct
  funext location
  unfold entry?
  by_cases root : location = []
  · rw [if_pos root, if_pos root]
  · rw [if_neg root, if_neg root]
    ext entry
    rw [lookup_eq_some_iff_mem distinct, lookup_eq_some_iff_mem proper.distinct, relisted.entries.mem_iff]

theorem isDenied_eq (relisted : tree.Relisted other) : other.isDenied = tree.isDenied := by
  funext location
  unfold isDenied
  rw [relisted.denied]

theorem enter_eq (relisted : tree.Relisted other) (proper : tree.Proper) : other.enter = tree.enter := by
  funext location
  unfold enter
  rw [relisted.entry?_eq proper, relisted.isDenied_eq]

theorem walk_eq (relisted : tree.Relisted other) (proper : tree.Proper) (location : Location)
    (names : List String) : other.walk location names = tree.walk location names := by
  induction names generalizing location with
  | nil => rfl
  | cons name names ih =>
    unfold walk
    simp only [relisted.enter_eq proper, relisted.entry?_eq proper, ih]

theorem locate_eq (relisted : tree.Relisted other) (proper : tree.Proper) : other.locate = tree.locate := by
  funext path
  unfold locate start
  simp only [relisted.workingDirectory, relisted.walk_eq proper, relisted.entry?_eq proper]

theorem isDirectory_eq (relisted : tree.Relisted other) (proper : tree.Proper) :
    other.isDirectory = tree.isDirectory := by
  funext path
  unfold FileTree.isDirectory
  rw [relisted.locate_eq proper, relisted.entry?_eq proper]

theorem openAt_eq (relisted : tree.Relisted other) (proper : tree.Proper) :
    SourceFile.openAt other = SourceFile.openAt tree := by
  funext path
  unfold SourceFile.openAt openFile
  rw [relisted.locate_eq proper, relisted.entry?_eq proper, relisted.isDenied_eq]

theorem readLine_eq (relisted : tree.Relisted other) : SourceFile.readLine other = SourceFile.readLine tree := by
  funext source
  have bytes : other.bytes = tree.bytes := by
    funext slot
    unfold FileTree.bytes
    rw [relisted.slots]
  unfold SourceFile.readLine
  cases source.handle <;> simp only [FileTree.readLine, bytes]

theorem lists (relisted : tree.Relisted other) (proper : tree.Proper) (listed : tree.Lists path location) :
    other.Lists path location where
  located := by rw [relisted.locate_eq proper, listed.located]
  entered := by rw [relisted.enter_eq proper, listed.entered]

theorem namesBelow_perm (relisted : tree.Relisted other) (location : Location) :
    (tree.namesBelow location).Perm (other.namesBelow location) :=
  relisted.entries.filterMap _

/-! A step asks a tree for no more than to open a file and to read a line of it. -/

theorem step_eq (relisted : tree.Relisted other) (proper : tree.Proper) (t : Tokenizer) :
    t.step other = t.step tree := by
  unfold Tokenizer.step Tokenizer.openNext Tokenizer.nextLine
  rw [relisted.openAt_eq proper, relisted.readLine_eq]

theorem drain_eq (relisted : tree.Relisted other) (proper : tree.Proper) (t : Tokenizer) :
    t.drain other = t.drain tree := by
  fun_induction Tokenizer.drain tree t with
  | case1 t next stepped ih =>
    rw [← relisted.step_eq proper] at stepped
    rw [Tokenizer.drain_of_working stepped, ih]
  | case2 t next token stepped ih =>
    rw [← relisted.step_eq proper] at stepped
    rw [Tokenizer.drain_of_yielded stepped, ih]
  | case3 t next stepped =>
    rw [← relisted.step_eq proper] at stepped
    rw [Tokenizer.drain_of_finished stepped]
  | case4 t next e stepped =>
    rw [← relisted.step_eq proper] at stepped
    rw [Tokenizer.drain_of_failed stepped]

/-- **The same run** whatever the order of the entries. -/
theorem tokenizeAll_eq (relisted : tree.Relisted other) (proper : tree.Proper) (t : Tokenizer) :
    t.tokenizeAll other = t.tokenizeAll tree := by
  unfold Tokenizer.tokenizeAll
  rw [relisted.drain_eq proper]

end Relisted

end FileTree

/-! ## The order of the queue -/

namespace Source

variable {tree : FileTree} {path extension name : String} {names : List String}

theorem byteLE_trans (a b c : String) (ab : byteLE a b = true) (bc : byteLE b c = true) :
    byteLE a c = true := by
  simp only [byteLE, decide_eq_true_eq] at ab bc ⊢
  exact List.le_trans ab bc

theorem byteLE_total (a b : String) : (byteLE a b || byteLE b a) = true := by
  simp only [byteLE, Bool.or_eq_true, decide_eq_true_eq]
  exact List.le_total _ _

/-- Different names have different bytes. -/
theorem byteLE_antisymm {a b : String} (ab : byteLE a b = true) (ba : byteLE b a = true) : a = b := by
  simp only [byteLE, decide_eq_true_eq] at ab ba
  have same : Utf8.encode a.toList = Utf8.encode b.toList := List.le_antisymm ab ba
  have text := Utf8.encode_eq_iff.mp same
  rw [Utf8.decode_encode, Option.some.injEq] at text
  exact String.toList_inj.mp text.symm

/-- **Which names are taken.** -/
theorem mem_select :
    name ∈ select tree path extension names ↔
      name ∈ names ∧ ('.' :: extension.toList) <:+ name.toList ∧
        tree.isDirectory (Path.join path name) = false := by
  unfold select hasExtension
  rw [(List.mergeSort_perm _ _).mem_iff, List.mem_filter, Bool.and_eq_true, List.isSuffixOf_iff_suffix,
    Bool.not_eq_true']

/-- **The queue is in the order of the bytes**, each name strictly before the next. -/
theorem pairwise_select (distinct : names.Nodup) :
    (select tree path extension names).Pairwise fun a b =>
      Utf8.encode a.toList < Utf8.encode b.toList := by
  have sorted : (select tree path extension names).Pairwise fun a b => byteLE a b = true :=
    List.pairwise_mergeSort byteLE_trans byteLE_total _
  have once : (select tree path extension names).Nodup :=
    (List.mergeSort_perm _ _).nodup_iff.mpr (distinct.filter _)
  refine (sorted.and once).imp ?_
  rintro a b ⟨le, ne⟩
  rw [← List.not_le]
  intro ge
  exact ne (byteLE_antisymm le (decide_eq_true ge))

/-- **The queue does not depend on the order of the names.** -/
theorem select_perm {others : List String} (perm : names.Perm others) :
    select tree path extension names = select tree path extension others := by
  refine List.Perm.eq_of_pairwise (fun a b _ _ ab ba => byteLE_antisymm ab ba) ?_ ?_ ?_
  · exact List.pairwise_mergeSort byteLE_trans byteLE_total _
  · exact List.pairwise_mergeSort byteLE_trans byteLE_total _
  · exact (List.mergeSort_perm _ _).trans ((perm.filter _).trans (List.mergeSort_perm _ _).symm)

/-! ## The queue of a directory -/

variable {location : Location}

theorem collect_eq_of_lists (listed : tree.Lists path location) (extension : String) :
    collect tree path extension =
      let sources := (select tree path extension (tree.namesBelow location)).map (Path.join path)
      .ok (sources, [if sources.isEmpty then .noSources path extension else .queued path sources.length]) := by
  unfold collect
  rw [if_pos listed.isDirectory, listed.list_eq]

theorem collect_of_lists (listed : tree.Lists path location) (extension : String) :
    ∃ event, collect tree path extension =
      .ok ((select tree path extension (tree.namesBelow location)).map (Path.join path), [event]) :=
  ⟨_, collect_eq_of_lists listed extension⟩

/-- **The same queue** whatever the order of the entries. -/
theorem collect_relisted {other : FileTree} (proper : tree.Proper) (relisted : tree.Relisted other)
    (listed : tree.Lists path location) (extension : String) :
    collect other path extension = collect tree path extension := by
  have same : ∀ names, select other path extension names = select tree path extension names := by
    intro names
    unfold select
    rw [relisted.isDirectory_eq proper]
  unfold collect
  rw [relisted.isDirectory_eq proper, listed.list_eq, (relisted.lists proper listed).list_eq]
  simp only [same, select_perm (relisted.namesBelow_perm location)]

/-- Which names of a directory are queued: those of files, and those whose paths are too long to ask. -/
theorem mem_select_namesBelow (proper : tree.Proper) (listed : tree.Lists path location) :
    name ∈ select tree path extension (tree.namesBelow location) ↔
      ∃ entry, (location ++ [name], entry) ∈ tree.entries ∧
        ('.' :: extension.toList) <:+ name.toList ∧
        (entry ≠ .directory ∨ FileTree.longestPath < Utf8.size (Path.join path name).toList) := by
  rw [mem_select, FileTree.mem_namesBelow]
  constructor
  · rintro ⟨⟨entry, member⟩, suffix, asked⟩
    refine ⟨entry, member, suffix, ?_⟩
    have answer := (not_congr (listed.isDirectory_join proper member)).mp (by simp [asked])
    by_cases directory : entry = .directory
    · exact .inr (Nat.not_le.mp fun short => answer ⟨directory, short⟩)
    · exact .inl directory
  · rintro ⟨entry, member, suffix, apart⟩
    refine ⟨⟨entry, member⟩, suffix, ?_⟩
    rw [Bool.eq_false_iff]
    intro asked
    obtain ⟨directory, short⟩ := (listed.isDirectory_join proper member).mp asked
    rcases apart with file | long
    · exact file directory
    · exact Nat.not_le.mpr long short

/-- **A source below a location**: a file whose name ends in a dot and the extension. -/
def IsSource (tree : FileTree) (location : Location) (extension name : String) : Prop :=
  ('.' :: extension.toList) <:+ name.toList ∧ ∃ slot, (location ++ [name], Entry.file slot) ∈ tree.entries

/-- The queue holds the sources and nothing else exactly if no directory is too far to be asked for. -/
theorem select_isSource_iff (proper : tree.Proper) (listed : tree.Lists path location) :
    (∀ name, name ∈ select tree path extension (tree.namesBelow location) ↔
        IsSource tree location extension name) ↔
      ∀ name, (location ++ [name], Entry.directory) ∈ tree.entries →
        ('.' :: extension.toList) <:+ name.toList →
        Utf8.size (Path.join path name).toList ≤ FileTree.longestPath := by
  simp only [mem_select_namesBelow proper listed]
  constructor
  · intro exactly name member suffix
    refine Nat.not_lt.mp fun long => ?_
    obtain ⟨-, slot, file⟩ := (exactly name).mp ⟨.directory, member, suffix, .inr long⟩
    -- A location has one entry, so it is not that of a directory and of a file.
    have both := proper.entry?_eq_some_iff.mpr member
    rw [proper.entry?_eq_some_iff.mpr file] at both
    cases both
  · intro short name
    constructor
    · rintro ⟨entry, member, suffix, apart⟩
      cases entry with
      | file slot => exact ⟨suffix, slot, member⟩
      | directory =>
        rcases apart with other | long
        · exact absurd rfl other
        · exact absurd (short name member suffix) (Nat.not_le.mpr long)
    · rintro ⟨suffix, slot, member⟩
      exact ⟨.file slot, member, suffix, .inl (by simp)⟩

/-- **Directory order is canonical.** The names in the queue of a directory stand in the strict order of
their bytes, and the queue and the run over it are the same however the directory lists its entries. The
queue holds the sources and nothing else exactly if every directory that is named like a source has a path
that can be looked up; a directory with a longer path is queued, too. Permission is given as a whole here: what
may be listed may be searched, so that every entry can be told from a directory. -/
theorem collect_canonical (proper : tree.Proper) (listed : tree.Lists path location) (policy : Policy) :
    ∃ (names : List String) (event : Event),
      collect tree path policy.extension = .ok (names.map (Path.join path), [event]) ∧
      (names.map (Path.join path)).map Path.fileName? = names.map some ∧
      names.Pairwise (fun a b => Utf8.encode a.toList < Utf8.encode b.toList) ∧
      (∀ name, name ∈ names ↔ ∃ entry, (location ++ [name], entry) ∈ tree.entries ∧
        ('.' :: policy.extension.toList) <:+ name.toList ∧
        (entry ≠ .directory ∨ FileTree.longestPath < Utf8.size (Path.join path name).toList)) ∧
      ((∀ name, name ∈ names ↔ IsSource tree location policy.extension name) ↔
        ∀ name, (location ++ [name], Entry.directory) ∈ tree.entries →
          ('.' :: policy.extension.toList) <:+ name.toList →
          Utf8.size (Path.join path name).toList ≤ FileTree.longestPath) ∧
      ∀ other, tree.Relisted other →
        collect other path policy.extension = collect tree path policy.extension ∧
        ∃ start, Tokenizer.ofPath tree policy path = .ok start ∧
          Tokenizer.ofPath other policy path = .ok start ∧
          start.queue = names.map (Path.join path) ∧
          start.tokenizeAll other = start.tokenizeAll tree := by
  obtain ⟨event, collected⟩ := collect_of_lists listed policy.extension
  refine ⟨select tree path policy.extension (tree.namesBelow location), event, collected, ?_,
    pairwise_select proper.nodup_namesBelow, fun name => mem_select_namesBelow proper listed,
    select_isSource_iff proper listed, ?_⟩
  · rw [List.map_map]
    refine List.map_congr_left fun name member => ?_
    obtain ⟨entry, below, -⟩ := (mem_select_namesBelow proper listed).mp member
    rw [Function.comp_apply, Path.fileName?_join (proper.isName below) listed.nonempty]
  · intro other relisted
    have same := collect_relisted proper relisted listed policy.extension
    have made : Tokenizer.ofPath tree policy path = .ok
        { policy := policy
          queue := (select tree path policy.extension (tree.namesBelow location)).map (Path.join path)
          journal := #[event] } := by
      unfold Tokenizer.ofPath
      rw [collected]
    refine ⟨same, _, made, ?_, rfl, relisted.tokenizeAll_eq proper _⟩
    rw [← made]
    unfold Tokenizer.ofPath
    rw [same]

/-- A directory of two files and of a directory that is named like a file. -/
def shelf : FileTree where
  entries :=
    [(["d"], .directory), (["d", "b.jack"], .file 1), (["d", "x.jack"], .directory),
      (["d", "B.jack"], .file 0)]

/-- The directory by its name, where the queue holds its two files, and by the longest path that leads to it, where
the directory inside has a path that is too long and is queued like a file. -/
theorem collect_canonical_shelf :
    shelf.Proper ∧ shelf.Lists "d" ["d"] ∧ shelf.Lists (Path.dotted "d" 2045) ["d"] ∧
      (∃ (names : List String) (event : Event),
        collect shelf "d" "jack" = .ok (names.map (Path.join "d"), [event]) ∧
        ∀ name, name ∈ names ↔ IsSource shelf ["d"] "jack" name) ∧
      ∃ (names : List String) (event : Event),
        collect shelf (Path.dotted "d" 2045) "jack" =
          .ok (names.map (Path.join (Path.dotted "d" 2045)), [event]) ∧
        "x.jack" ∈ names ∧ ¬ IsSource shelf ["d"] "jack" "x.jack" := by
  have proper : shelf.Proper := ⟨by decide +kernel, by decide +kernel⟩
  have near : shelf.Lists "d" ["d"] := ⟨by decide +kernel, by decide +kernel⟩
  have far : shelf.Lists (Path.dotted "d" 2045) ["d"] := near.dotted (by decide)
  refine ⟨proper, near, far, ?_, ?_⟩
  · obtain ⟨names, event, collected, -, -, -, holds, -⟩ := collect_canonical proper near {}
    refine ⟨names, event, collected, holds.mpr ?_⟩
    intro name member _
    have only : name = "x.jack" := by simpa [shelf] using member
    subst only
    decide +kernel
  · obtain ⟨names, event, collected, -, -, member, -⟩ := collect_canonical proper far {}
    refine ⟨names, event, collected, (member "x.jack").mpr ⟨.directory, ?_, ?_, .inr ?_⟩, ?_⟩
    · decide +kernel
    · decide +kernel
    · have long := Path.size_le_join (show Path.IsName "x.jack" by decide +kernel) far.nonempty
      have sizes : Utf8.size "d".toList + 2 * 2045 + Utf8.size "x.jack".toList = 4097 := by decide +kernel
      rw [Path.size_dotted, sizes] at long
      exact Nat.lt_of_lt_of_le (by decide) long
    · rintro ⟨-, slot, file⟩
      simp [shelf] at file

end Source

end JackTokens
