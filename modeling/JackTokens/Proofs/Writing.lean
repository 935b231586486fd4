import JackTokens.Proofs.Paths

/-!
# Trees that grow

The program changes a tree of files in two ways: it makes directories, and it writes files. Both only add to
the entries (`FileTree.Grows`), so whatever was found before is found after (`Grows.locate_eq`).

**Targets.** What a path is to name need not be there yet. `FileTree.Targets` says that the names before the
last lead to a directory that may be entered, and that the last can be a name in it; then the path leads to
the entry with that name as soon as there is one (`Targets.locate_eq`).

**Directories.** A directory that is asked for is there afterwards (`isDirectory_makeDirectories`), and one
that is there already is left alone (`makeDirectories_of_isDirectory`).

**Files.** A file that has been written holds what was written (`Backed.holds_of_write`) and can be written
again (`Targets.write_of_holds`). This needs a tree in which every file has its bytes, and nothing is denied
that is not there (`FileTree.Backed`); every change keeps it so.
-/

namespace JackTokens

/-! ## Steps that succeed -/

/-- What succeeds in two steps succeeds in each. -/
theorem bind_eq_ok_iff {ε α β : Type} {first : Except ε α} {next : α → Except ε β} {result : β} :
    first >>= next = .ok result ↔ ∃ a, first = .ok a ∧ next a = .ok result := by
  cases first with
  | error cause => simp [bind, Except.bind]
  | ok a => simp [bind, Except.bind]

/-- What succeeds behind a check has passed it. -/
theorem check_bind_eq_ok_iff {ε β : Type} {check : Except ε Unit} {next : Unit → Except ε β} {result : β} :
    check >>= next = .ok result ↔ check = .ok () ∧ next () = .ok result := by
  rw [bind_eq_ok_iff]
  constructor
  · rintro ⟨⟨⟩, passed, succeeded⟩
    exact ⟨passed, succeeded⟩
  · rintro ⟨passed, succeeded⟩
    exact ⟨(), passed, succeeded⟩

namespace FileTree

variable {tree grown : FileTree} {path name : String} {location parent : Location} {entry : Entry}
  {content : List UInt8}

theorem enter_eq_ok_iff :
    tree.enter location = .ok () ↔ tree.entry? location = some .directory ∧ tree.isDenied location = false := by
  unfold enter
  cases tree.entry? location with
  | none => simp
  | some entry =>
    cases entry with
    | file slot => simp
    | directory => cases tree.isDenied location <;> simp

/-- Where a single name leads. -/
theorem walk_singleton_eq_ok_iff :
    tree.walk parent [name] = .ok location ↔
      tree.enter parent = .ok () ∧
        (name = "." ∧ location = parent ∨ name = ".." ∧ location = parent.dropLast ∨
          name ≠ "." ∧ name ≠ ".." ∧ checkName name = .ok () ∧ location = parent ++ [name] ∧
            tree.entry? (parent ++ [name]) ≠ none) := by
  rw [walk, check_bind_eq_ok_iff]
  refine and_congr_right fun _ => ?_
  by_cases stay : name = "."
  · simp [stay, walk, eq_comm]
  by_cases back : name = ".."
  · simp [back, walk, eq_comm]
  rw [if_neg stay, if_neg back, check_bind_eq_ok_iff]
  cases tree.entry? (parent ++ [name]) with
  | none => simp [stay, back]
  | some entry => simp [stay, back, walk, eq_comm]

/-- **When a path leads somewhere.** -/
theorem locate_eq_ok_iff :
    tree.locate path = .ok location ↔
      checkPath path = .ok () ∧ tree.walk (tree.start path) (Path.names path) = .ok location ∧
        ∃ entry, tree.entry? location = some entry ∧ (Path.endsInSlash path = true → entry = .directory) := by
  rw [locate, check_bind_eq_ok_iff, bind_eq_ok_iff]
  refine and_congr_right fun _ => ?_
  constructor
  · rintro ⟨reached, walked, found⟩
    split at found
    · rename_i directory
      cases found
      exact ⟨walked, _, directory, fun _ => rfl⟩
    · rename_i file
      split at found
      · cases found
      · rename_i noSlash
        cases found
        exact ⟨walked, _, file, fun slash => absurd slash noSlash⟩
    · cases found
  · rintro ⟨walked, entry, found, slash⟩
    refine ⟨location, walked, ?_⟩
    rw [found]
    cases entry with
    | directory => rfl
    | file slot =>
      by_cases ends : Path.endsInSlash path = true
      · cases slash ends
      · exact if_neg ends

theorem isDirectory_iff :
    tree.isDirectory path = true ↔
      ∃ location, tree.locate path = .ok location ∧ tree.entry? location = some .directory := by
  unfold isDirectory
  cases tree.locate path with
  | error cause => simp
  | ok reached => simp

/-- The place of a last name is a directory that may be entered, and the names before the last lead there. -/
theorem locateParent_eq_ok_iff :
    tree.locateParent path = .ok (parent, some name) ↔
      checkPath path = .ok () ∧
        (∃ front, Path.names path = front ++ [name] ∧ tree.walk (tree.start path) front = .ok parent) ∧
        tree.enter parent = .ok () := by
  rw [locateParent, check_bind_eq_ok_iff]
  refine and_congr_right fun _ => ?_
  constructor
  · intro found
    split at found
    · cases found
    · rename_i last ends
      obtain ⟨front, names⟩ := List.getLast?_eq_some_iff.mp ends
      rw [names, List.dropLast_concat, bind_eq_ok_iff] at found
      obtain ⟨reached, walked, behind⟩ := found
      obtain ⟨entered, same⟩ := check_bind_eq_ok_iff.mp behind
      cases same
      exact ⟨⟨front, names, walked⟩, entered⟩
  · rintro ⟨⟨front, names, walked⟩, entered⟩
    rw [names, List.getLast?_concat, List.dropLast_concat]
    exact bind_eq_ok_iff.mpr ⟨parent, walked, check_bind_eq_ok_iff.mpr ⟨entered, rfl⟩⟩

/-! ## Targets -/

/-- **A path targets a name below a location**, whether or not there is an entry with that name. -/
structure Targets (tree : FileTree) (path : String) (parent : Location) (name : String) : Prop where
  located : tree.locateParent path = .ok (parent, some name)
  noDot : name ≠ "."
  noDots : name ≠ ".."
  short : checkName name = .ok ()

/-- **A path leads to its target** if there is an entry, and no file where the path asks for a directory. -/
theorem Targets.locate_eq (targets : tree.Targets path parent name)
    (found : tree.entry? (parent ++ [name]) = some entry)
    (slash : Path.endsInSlash path = true → entry = .directory) :
    tree.locate path = .ok (parent ++ [name]) := by
  obtain ⟨checked, ⟨front, names, walked⟩, entered⟩ := locateParent_eq_ok_iff.mp targets.located
  refine locate_eq_ok_iff.mpr ⟨checked, ?_, entry, found, slash⟩
  rw [names, walk_append, walked]
  refine walk_singleton_eq_ok_iff.mpr ⟨entered, .inr (.inr ?_)⟩
  exact ⟨targets.noDot, targets.noDots, targets.short, rfl, by simp [found]⟩

/-- A path without a slash at its end leads to whatever is there. -/
theorem Targets.locate_of_noSlash (targets : tree.Targets path parent name)
    (found : tree.entry? (parent ++ [name]) = some entry) (noSlash : Path.endsInSlash path = false) :
    tree.locate path = .ok (parent ++ [name]) := by
  refine targets.locate_eq found fun slash => ?_
  rw [noSlash] at slash
  cases slash

/-- **What makes a directory.** -/
theorem makeDirectory_eq_ok_iff :
    tree.makeDirectory path = .ok grown ↔
      ∃ parent name, tree.Targets path parent name ∧ tree.entry? (parent ++ [name]) = none ∧
        grown = { tree with entries := tree.entries ++ [(parent ++ [name], .directory)] } := by
  rw [makeDirectory, bind_eq_ok_iff]
  constructor
  · rintro ⟨⟨parent, name?⟩, located, made⟩
    cases name? with
    | none => cases made
    | some name =>
      simp only at made
      split at made
      · cases made
      · rename_i plain
        rw [not_or] at plain
        obtain ⟨short, made⟩ := check_bind_eq_ok_iff.mp made
        split at made
        · cases made
        · rename_i new
          exact ⟨parent, name, ⟨located, plain.1, plain.2, short⟩, new, (Except.ok.inj made).symm⟩
  · rintro ⟨parent, name, targets, new, rfl⟩
    refine ⟨(parent, some name), targets.located, ?_⟩
    simp only [if_neg (not_or.mpr ⟨targets.noDot, targets.noDots⟩)]
    refine check_bind_eq_ok_iff.mpr ⟨targets.short, ?_⟩
    rw [new]
    rfl

/-- **What writes a file**: its bytes are replaced if it is there and not denied, and it is added if there is
nothing. -/
theorem write_eq_ok_iff :
    tree.write path content = .ok grown ↔
      Path.endsInSlash path = false ∧ ∃ parent name, tree.Targets path parent name ∧
        ((∃ slot, tree.entry? (parent ++ [name]) = some (.file slot) ∧ tree.isDenied (parent ++ [name]) = false ∧
            grown = { tree with slots := tree.slots.setIfInBounds slot content }) ∨
          tree.entry? (parent ++ [name]) = none ∧
            grown = { tree with
              entries := tree.entries ++ [(parent ++ [name], .file tree.slots.size)]
              slots := tree.slots.push content }) := by
  rw [write, bind_eq_ok_iff]
  constructor
  · rintro ⟨⟨parent, name?⟩, located, written⟩
    cases name? with
    | none => cases written
    | some name =>
      simp only at written
      split at written
      · cases written
      · rename_i plain
        rw [not_or, not_or] at plain
        obtain ⟨short, written⟩ := check_bind_eq_ok_iff.mp written
        refine ⟨Bool.eq_false_iff.mpr plain.2.2, parent, name, ⟨located, plain.1, plain.2.1, short⟩, ?_⟩
        split at written
        · cases written
        · rename_i slot found
          split at written
          · cases written
          · rename_i allowed
            exact .inl ⟨slot, found, Bool.eq_false_iff.mpr allowed, (Except.ok.inj written).symm⟩
        · rename_i new
          exact .inr ⟨new, (Except.ok.inj written).symm⟩
  · rintro ⟨noSlash, parent, name, targets, written⟩
    refine ⟨(parent, some name), targets.located, ?_⟩
    have plain : ¬ (name = "." ∨ name = ".." ∨ Path.endsInSlash path = true) := by
      simp [targets.noDot, targets.noDots, noSlash]
    simp only [if_neg plain]
    refine check_bind_eq_ok_iff.mpr ⟨targets.short, ?_⟩
    rcases written with ⟨slot, found, allowed, rfl⟩ | ⟨new, rfl⟩
    · simp only [found, allowed]
      rfl
    · rw [new]
      rfl

/-! ## Growing -/

/-- **A tree is backed** if every file has its slot, and only what is there is denied. -/
structure Backed (tree : FileTree) : Prop where
  stored : ∀ location slot, tree.entry? location = some (.file slot) → slot < tree.slots.size
  denied : ∀ location, tree.isDenied location = true → tree.entry? location ≠ none

theorem mem_entries_of_found (found : tree.entry? location = some entry) (below : location ≠ []) :
    (location, entry) ∈ tree.entries := by
  unfold entry? at found
  rw [if_neg below] at found
  obtain ⟨before, behind, whole, -⟩ := List.lookup_eq_some_iff.mp found
  rw [whole]
  exact List.mem_append_right _ List.mem_cons_self

/-- A tree is backed if its entries have slots and its denied locations have entries. -/
theorem backed_of_entries (stored : ∀ below ∈ tree.entries, ∀ slot, below.2 = .file slot → slot < tree.slots.size)
    (denied : ∀ location ∈ tree.denied, tree.entry? location ≠ none) : tree.Backed where
  stored location slot found := by
    by_cases root : location = []
    · subst root
      cases found
    · exact stored _ (mem_entries_of_found found root) slot rfl
  denied location refused := denied location (List.contains_iff_mem.mp refused)

/-- **A tree grows** into another: what is there stays there, and it is still backed. -/
structure Grows (tree grown : FileTree) : Prop where
  entry?_eq : ∀ location entry, tree.entry? location = some entry → grown.entry? location = some entry
  denied : grown.denied = tree.denied
  workingDirectory : grown.workingDirectory = tree.workingDirectory
  backed : tree.Backed → grown.Backed

theorem Grows.refl (tree : FileTree) : tree.Grows tree := ⟨fun _ _ found => found, rfl, rfl, id⟩

theorem Grows.trans {between : FileTree} (first : tree.Grows between) (second : between.Grows grown) :
    tree.Grows grown where
  entry?_eq _ _ found := second.entry?_eq _ _ (first.entry?_eq _ _ found)
  denied := second.denied.trans first.denied
  workingDirectory := second.workingDirectory.trans first.workingDirectory
  backed := second.backed ∘ first.backed

namespace Grows

variable (grows : tree.Grows grown)
include grows

theorem isDenied_eq (location : Location) : grown.isDenied location = tree.isDenied location := by
  unfold isDenied
  rw [grows.denied]

theorem start_eq (path : String) : grown.start path = tree.start path := by
  unfold start
  rw [grows.workingDirectory]

theorem enter_eq (entered : tree.enter location = .ok ()) : grown.enter location = .ok () := by
  rw [enter_eq_ok_iff] at entered ⊢
  exact ⟨grows.entry?_eq _ _ entered.1, (grows.isDenied_eq location).trans entered.2⟩

theorem walk_eq {names : List String} {reached : Location} (walked : tree.walk location names = .ok reached) :
    grown.walk location names = .ok reached := by
  induction names generalizing location with
  | nil => exact walked
  | cons name names ih =>
    rw [← List.singleton_append, walk_append] at walked ⊢
    obtain ⟨between, first, others⟩ := bind_eq_ok_iff.mp walked
    refine bind_eq_ok_iff.mpr ⟨between, ?_, ih others⟩
    rw [walk_singleton_eq_ok_iff] at first ⊢
    refine ⟨grows.enter_eq first.1, first.2.imp_right (Or.imp_right ?_)⟩
    rintro ⟨noDot, noDots, short, same, found⟩
    obtain ⟨entry, found⟩ := Option.ne_none_iff_exists'.mp found
    refine ⟨noDot, noDots, short, same, ?_⟩
    rw [grows.entry?_eq _ _ found]
    exact Option.some_ne_none entry

/-- What is found in a tree is found in one it has grown into. -/
theorem locate_eq (located : tree.locate path = .ok location) : grown.locate path = .ok location := by
  rw [locate_eq_ok_iff] at located ⊢
  obtain ⟨checked, walked, entry, found, slash⟩ := located
  refine ⟨checked, ?_, entry, grows.entry?_eq _ _ found, slash⟩
  rw [grows.start_eq]
  exact grows.walk_eq walked

theorem isDirectory_eq (directory : tree.isDirectory path = true) : grown.isDirectory path = true := by
  rw [isDirectory_iff] at directory ⊢
  obtain ⟨location, located, found⟩ := directory
  exact ⟨location, grows.locate_eq located, grows.entry?_eq _ _ found⟩

theorem targets (targets : tree.Targets path parent name) : grown.Targets path parent name := by
  refine ⟨?_, targets.noDot, targets.noDots, targets.short⟩
  have located := targets.located
  rw [locateParent_eq_ok_iff] at located ⊢
  obtain ⟨checked, ⟨front, names, walked⟩, entered⟩ := located
  refine ⟨checked, ⟨front, names, ?_⟩, grows.enter_eq entered⟩
  rw [grows.start_eq]
  exact grows.walk_eq walked

end Grows

/-- What a new entry adds. -/
theorem entry?_add (tree : FileTree) (slots : Array (List UInt8)) (location : Location) (entry : Entry)
    (place : Location) :
    FileTree.entry? { tree with entries := tree.entries ++ [(location, entry)], slots := slots } place =
      (tree.entry? place).or (if place = location then some entry else none) := by
  unfold entry?
  by_cases root : place = []
  · simp [root]
  · rw [if_neg root, if_neg root, List.lookup_append]
    by_cases same : place = location
    · simp [same]
    · simp [same, List.lookup_cons, beq_eq_false_iff_ne.mpr same]

/-- **A tree grows by an entry**, if there is a slot for it where it is a file. -/
theorem grows_add {slots : Array (List UInt8)} (more : tree.slots.size ≤ slots.size)
    (inside : ∀ slot, entry = .file slot → slot < slots.size) (location : Location) :
    tree.Grows { tree with entries := tree.entries ++ [(location, entry)], slots := slots } := by
  have entries := tree.entry?_add slots location entry
  refine ⟨?_, rfl, rfl, ?_⟩
  · intro place old found
    rw [entries, found]
    rfl
  · rintro ⟨stored, denied⟩
    constructor
    · intro place slot found
      rw [entries, Option.or_eq_some_iff] at found
      rcases found with found | ⟨-, found⟩
      · exact Nat.lt_of_lt_of_le (stored place slot found) more
      · split at found
        · exact inside slot (Option.some.inj found)
        · cases found
    · intro place refused
      rw [entries]
      have there := denied place refused
      simp [there]

theorem grows_makeDirectory (made : tree.makeDirectory path = .ok grown) : tree.Grows grown := by
  obtain ⟨parent, name, -, -, rfl⟩ := makeDirectory_eq_ok_iff.mp made
  exact grows_add (Nat.le_refl _) (fun slot file => by cases file) (parent ++ [name])

/-- A directory that was made is there. -/
theorem isDirectory_makeDirectory (made : tree.makeDirectory path = .ok grown) : grown.isDirectory path = true := by
  have grows := grows_makeDirectory made
  obtain ⟨parent, name, targets, new, rfl⟩ := makeDirectory_eq_ok_iff.mp made
  have found := tree.entry?_add tree.slots (parent ++ [name]) .directory (parent ++ [name])
  rw [new, if_pos rfl] at found
  exact isDirectory_iff.mpr ⟨_, (grows.targets targets).locate_eq found fun _ => rfl, found⟩

/-- **A directory that is there is not made again.** -/
theorem makeDirectory_of_isDirectory (directory : tree.isDirectory path = true) :
    tree.makeDirectory path = .error .alreadyExists := by
  obtain ⟨location, located, found⟩ := isDirectory_iff.mp directory
  obtain ⟨checked, walked⟩ := walk_of_locate located
  unfold makeDirectory
  rcases List.eq_nil_or_concat (Path.names path) with root | ⟨front, name, names⟩
  · have top : tree.locateParent path = .ok ([], none) := by
      unfold locateParent
      rw [checked, root]
      rfl
    rw [top]
    rfl
  · rw [List.concat_eq_append] at names
    rw [names, walk_append] at walked
    obtain ⟨parent, walked, last⟩ := bind_eq_ok_iff.mp walked
    obtain ⟨entered, leads⟩ := walk_singleton_eq_ok_iff.mp last
    rw [locateParent_eq_ok_iff.mpr ⟨checked, ⟨front, names, walked⟩, entered⟩]
    show (if name = "." ∨ name = ".." then _ else _) = _
    split
    · rfl
    · rename_i plain
      rw [not_or] at plain
      rcases leads with ⟨dot, -⟩ | ⟨dots, -⟩ | ⟨-, -, short, -, there⟩
      · exact absurd dot plain.1
      · exact absurd dots plain.2
      · obtain ⟨entry, there⟩ := Option.ne_none_iff_exists'.mp there
        rw [short, there]
        rfl

theorem makeDirectories_of_isDirectory (directory : tree.isDirectory path = true) :
    tree.makeDirectories path = (tree, .ok ()) := by
  unfold makeDirectories
  rw [makeDirectory_of_isDirectory directory]
  simp [directory]

/-- Making directories only adds to a tree, also where it fails halfway. -/
theorem grows_makeDirectories (tree : FileTree) (path : String) : tree.Grows (tree.makeDirectories path).1 := by
  fun_induction makeDirectories tree path with
  | case1 => exact .refl _
  | case2 _ _ _ made => exact grows_makeDirectory made
  | case3 => exact .refl _
  | case4 _ _ _ _ _ _ _ above ih =>
    rw [above] at ih
    exact ih
  | case5 _ _ _ _ _ _ above _ made ih =>
    rw [above] at ih
    exact ih.trans (grows_makeDirectory made)
  | case6 _ _ _ _ _ _ above _ _ ih =>
    rw [above] at ih
    exact ih
  | case7 => exact .refl _

/-- **A directory that was asked for is there.** -/
theorem isDirectory_makeDirectories (made : tree.makeDirectories path = (grown, .ok ())) (nonempty : path ≠ "") :
    grown.isDirectory path = true := by
  -- Where making the last directory is refused, success means that it is there.
  have settled : ∀ (between : FileTree) (cause : FileError),
      (between, if between.isDirectory path = true then Except.ok () else .error cause) = (grown, .ok ()) →
        grown.isDirectory path = true := by
    intro between cause same
    rw [Prod.mk.injEq] at same
    obtain ⟨rfl, accepted⟩ := same
    split at accepted
    · assumption
    · cases accepted
  unfold makeDirectories at made
  split at made
  · rename_i empty
    exact absurd (by simpa using empty) nonempty
  · split at made
    · rename_i fresh
      cases made
      exact isDirectory_makeDirectory fresh
    · split at made
      · cases made
      · split at made
        · cases made
        · split at made
          · rename_i fresh
            cases made
            exact isDirectory_makeDirectory fresh
          · exact settled _ _ made
    · exact settled _ _ made

/-! ## Files -/

/-- **A file holds bytes** at a location, and may be read. -/
structure Holds (tree : FileTree) (location : Location) (content : List UInt8) : Prop where
  allowed : tree.isDenied location = false
  stored : ∃ slot, tree.entry? location = some (.file slot) ∧ tree.bytes slot = content

theorem Holds.readText_eq (holds : tree.Holds location content) (located : tree.locate path = .ok location) :
    tree.readText path =
      match Utf8.decode content with
      | some text => .ok text
      | none => .error .invalidData := by
  obtain ⟨slot, found, rfl⟩ := holds.stored
  unfold readText
  rw [located]
  simp only [bind, Except.bind, holds.allowed, Bool.false_eq_true, if_false, found]
  cases Utf8.decode (tree.bytes slot) <;> rfl

/-- **A file that was written holds what was written**, and nothing that was there is gone. -/
theorem Backed.holds_of_write (backed : tree.Backed) (written : tree.write path content = .ok grown) :
    tree.Grows grown ∧ Path.endsInSlash path = false ∧
      ∃ parent name, tree.Targets path parent name ∧ grown.Holds (parent ++ [name]) content := by
  obtain ⟨noSlash, parent, name, targets, ⟨slot, found, allowed, rfl⟩ | ⟨new, rfl⟩⟩ := write_eq_ok_iff.mp written
  · have inside := backed.stored _ _ found
    refine ⟨⟨fun _ _ found => found, rfl, rfl, ?_⟩, noSlash, parent, name, targets, allowed, slot, found, ?_⟩
    · rintro ⟨stored, denied⟩
      refine ⟨fun location slot found => ?_, denied⟩
      rw [Array.size_setIfInBounds]
      exact stored location slot found
    · simp [bytes, inside]
  · have found := tree.entry?_add (tree.slots.push content) (parent ++ [name]) (.file tree.slots.size)
      (parent ++ [name])
    rw [new, if_pos rfl] at found
    have allowed : tree.isDenied (parent ++ [name]) = false := by
      rw [Bool.eq_false_iff]
      intro refused
      exact backed.denied _ refused new
    refine ⟨grows_add ?_ ?_ (parent ++ [name]), noSlash, parent, name, targets, allowed, _, found, ?_⟩
    · simp
    · rintro slot ⟨rfl⟩
      simp
    · simp [bytes]

/-- A file that is there and may be read can be written again. -/
theorem Targets.write_of_holds (targets : tree.Targets path parent name) (noSlash : Path.endsInSlash path = false)
    {old : List UInt8} (holds : tree.Holds (parent ++ [name]) old) (content : List UInt8) :
    ∃ grown, tree.write path content = .ok grown := by
  obtain ⟨slot, found, -⟩ := holds.stored
  exact ⟨_, write_eq_ok_iff.mpr ⟨noSlash, parent, name, targets, .inl ⟨slot, found, holds.allowed, rfl⟩⟩⟩

end FileTree

end JackTokens
