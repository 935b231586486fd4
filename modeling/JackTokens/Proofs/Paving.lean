import JackTokens.Proofs.Writing

/-!
# Directories on the way of a path

Where the directory of a file is missing, it is made, and so are the directories above it. This module says what else
becomes of the tree: nothing.

**Parents.** The names of a parent are the first names of its path, whatever slashes and dots stand between them, and
both start at the same place (`Path.names_parent?`). So the parents of a path lie on its way.

**Ways.** A location is on the way of a path if some first names of the path lead to it (`FileTree.OnWay`). A tree is
paved for a path (`FileTree.Paves`) if new directories on its way are all that was added: bytes, files and the
directories that were there are the same. Making directories paves the tree, also where it fails halfway
(`FileTree.paves_makeDirectories`).

**Nodes** (`FileTree.node?`) are what a tree shows at a location: a directory, or a file with its bytes. A file may
have several names (`FileTree.SameFile`), and what is written under one of them is read under all. A tree is filled
(`FileTree.Fills`) if a file at a location was written, new directories were made on the way of a path, and no more:
every name stands for what it stood for, and every other file has its bytes. Writing a file fills the tree
(`FileTree.Backed.fills_write`), also if the tree was paved before (`FileTree.Paves.fills`).
-/

namespace JackTokens

/-! ## Parents -/

namespace Path

theorem strip_suffix (path : List Char) : strip path <:+ path := by
  fun_induction strip path with
  | case1 => exact List.suffix_refl _
  | case2 path ih => exact ih.trans (List.suffix_cons _ _)
  | case3 => exact List.nil_suffix
  | case4 shorter ih => exact ih.trans ((List.suffix_cons _ _).trans (List.suffix_cons _ _))
  | case5 => exact List.suffix_refl _
  | case6 => exact List.suffix_refl _

/-- Read backwards from a slash, a path is stripped up to a slash. -/
theorem slash_strip_suffix {path : List Char} (filled : strip path ≠ []) : '/' :: strip path <:+ '/' :: path := by
  fun_induction strip path with
  | case1 => exact absurd rfl filled
  | case2 path ih => exact (ih filled).trans (List.suffix_cons _ _)
  | case3 => exact absurd rfl filled
  | case4 shorter ih => exact (ih filled).trans ((List.suffix_cons _ _).trans (List.suffix_cons _ _))
  | case5 => exact List.suffix_refl _
  | case6 => exact List.suffix_refl _

@[simp] theorem lead_append_drop (path : List Char) : lead path ++ path.drop (lead path).length = path := by
  unfold lead
  split <;> rfl

/-- What a path with a name in it begins with: nothing, the root, or a dot before a slash. -/
theorem lead_cases {path : List Char} (filled : body path ≠ []) :
    (lead path = [] ∧ path.head? ≠ some '/') ∨ (lead path = ['/'] ∧ path.head? = some '/') ∨
      lead path ≠ [] ∧ ∃ behind, path = lead path ++ '/' :: behind := by
  unfold body at filled
  unfold lead at filled ⊢
  split at filled
  · exact .inr (.inl ⟨rfl, rfl⟩)
  · exact absurd rfl filled
  · exact .inr (.inr ⟨List.cons_ne_nil _ _, _, rfl⟩)
  · rename_i relative _ _
    refine .inl ⟨rfl, fun slash => ?_⟩
    obtain ⟨rest, whole⟩ := List.head?_eq_some_iff.mp slash
    exact relative rest whole

/-- What is left before the last name of some names, read backwards, is cut off at a slash. -/
theorem slash_strip_suffix_drop {names : List Char}
    (filled : strip ((names.dropWhile (· != '/')).drop 1) ≠ []) :
    '/' :: strip ((names.dropWhile (· != '/')).drop 1) <:+ names := by
  have within := List.dropWhile_suffix (l := names) (· != '/')
  have stop := List.head?_dropWhile_not (· != '/') names
  cases rest : names.dropWhile (· != '/') with
  | nil =>
    rw [rest] at filled
    exact absurd rfl filled
  | cons c before =>
    rw [rest] at filled within stop
    have slash : c = '/' := by simpa using stop
    rw [slash] at within
    exact (slash_strip_suffix filled).trans within

/-- **A parent is cut off its path at a slash**, unless nothing or only the root is left of it. -/
theorem parentOf?_cases {path parent : List Char} (found : parentOf? path = some parent) :
    (parent = [] ∧ path.head? ≠ some '/') ∨ (parent = ['/'] ∧ path.head? = some '/') ∨
      parent ≠ [] ∧ ∃ behind, path = parent ++ '/' :: behind := by
  unfold parentOf? at found
  split at found
  · split at found
    · rename_i dot
      cases found
      refine .inl ⟨rfl, fun slash => ?_⟩
      obtain ⟨rest, rfl⟩ := List.head?_eq_some_iff.mp slash
      cases dot
    · cases found
  · rename_i filled
    rw [Option.some.injEq] at found
    by_cases nothing : strip (((body path).dropWhile (· != '/')).drop 1) = []
    · rw [nothing, List.reverse_nil, List.append_nil] at found
      rw [← found]
      exact lead_cases filled
    · obtain ⟨more, backwards⟩ := (slash_strip_suffix_drop nothing).trans
        (strip_suffix (path.drop (lead path).length).reverse)
      refine .inr (.inr ⟨?_, more.reverse, ?_⟩)
      · rw [← found]
        exact List.append_ne_nil_of_right_ne_nil _ (mt List.reverse_eq_nil_iff.mp nothing)
      · rw [← found, List.append_assoc]
        conv_lhs => rw [← lead_append_drop path]
        rw [← List.reverse_reverse (path.drop _), ← backwards]
        simp

variable {path parent : String}

/-- The names before a slash, and the names behind it. -/
theorem names_of_slash {front behind : List Char} (whole : path.toList = front ++ '/' :: behind) :
    names path = names (String.ofList front) ++ names (String.ofList behind) := by
  unfold names
  rw [whole, Text.splitAt_append, List.filter_append, List.map_append, String.toList_ofList, String.toList_ofList]

/-- **The names of a parent are the first names of its path**, from the same start. -/
theorem names_parent? (found : parent? path = some parent) :
    names parent <+: names path ∧ isAbsolute parent = isAbsolute path := by
  obtain ⟨text, cut, rfl⟩ := Option.map_eq_some_iff.mp found
  unfold isAbsolute
  rw [String.toList_ofList]
  rcases parentOf?_cases cut with ⟨rfl, relative⟩ | ⟨rfl, absolute⟩ | ⟨nonempty, behind, whole⟩
  · exact ⟨List.nil_prefix, by simp [relative]⟩
  · exact ⟨List.nil_prefix, by simp [absolute]⟩
  · rw [names_of_slash whole, whole, List.head?_append_of_ne_nil _ nonempty]
    exact ⟨List.prefix_append _ _, rfl⟩

variable {directory name : String}

/-- A slash before a text without slashes is the last one. -/
theorem eq_or_slash_of_append_eq {front name parent behind : List Char} (noSlash : '/' ∉ name)
    (same : front ++ '/' :: name = parent ++ '/' :: behind) :
    front = parent ∨ ∃ rest, front = parent ++ '/' :: rest := by
  rcases List.append_eq_append_iff.mp same with ⟨more, longer, rest⟩ | ⟨more, longer, rest⟩
  · cases more with
    | nil => exact .inl (by rw [longer, List.append_nil])
    | cons c more =>
      rw [List.cons_append] at rest
      exact absurd ((List.cons.inj rest).2 ▸ List.mem_append_right _ List.mem_cons_self) noSlash
  · cases more with
    | nil => exact .inl (by rw [longer, List.append_nil])
    | cons c more =>
      rw [List.cons_append] at rest
      exact .inr ⟨more, (List.cons.inj rest).1 ▸ longer⟩

theorem join_empty (named : IsName name) : join "" name = name := by
  have relative : name.toList.head? ≠ some '/' := fun slash => named.noSlash (List.mem_of_mem_head? slash)
  unfold join
  rw [if_neg relative]
  rfl

/-- **The parent of a joined path** is cut off the path of the directory, at a slash or at its end. -/
theorem parent?_join (named : IsName name) (found : parent? (join directory name) = some parent) :
    parent.toList <+: directory.toList ∧ names parent <+: names directory ∧
      isAbsolute parent = isAbsolute directory := by
  have absolute := (names_parent? found).2
  obtain ⟨text, cut, rfl⟩ := Option.map_eq_some_iff.mp found
  rw [String.toList_ofList]
  by_cases empty : directory.toList = []
  · -- The path is the name alone, in which there is no slash.
    obtain rfl := String.toList_eq_nil_iff.mp empty
    rw [join_empty named] at cut
    rcases parentOf?_cases cut with ⟨rfl, -⟩ | ⟨-, slash⟩ | ⟨-, behind, whole⟩
    · exact ⟨List.prefix_rfl, List.prefix_rfl, rfl⟩
    · exact absurd (List.mem_of_mem_head? slash) named.noSlash
    · exact absurd (whole ▸ List.mem_append_right _ List.mem_cons_self) named.noSlash
  · obtain ⟨front, joined, slash⟩ := toList_join named empty
    rw [isAbsolute_join named empty] at absolute
    rcases parentOf?_cases cut with ⟨rfl, -⟩ | ⟨rfl, -⟩ | ⟨-, behind, whole⟩
    · exact ⟨List.nil_prefix, List.nil_prefix, absolute⟩
    · obtain ⟨rest, whole⟩ : ∃ rest, directory.toList = '/' :: rest :=
        List.head?_eq_some_iff.mp (by simpa [isAbsolute] using absolute.symm)
      refine ⟨?_, List.nil_prefix, absolute⟩
      rw [whole]
      exact List.prefix_append ['/'] rest
    · -- What is left of the path is what is left of the directory, which may have a slash more at its end.
      have cutOff : directory.toList = text ∨ ∃ rest, directory.toList = text ++ '/' :: rest := by
        rcases eq_or_slash_of_append_eq named.noSlash (joined.symm.trans whole) with rfl | ⟨rest, rfl⟩
        · exact slash.imp_right fun same => ⟨[], same⟩
        · rcases slash with same | same
          · exact .inr ⟨rest, same⟩
          · exact .inr ⟨rest ++ ['/'], by rw [same, List.append_assoc, List.cons_append]⟩
      rcases cutOff with same | ⟨rest, same⟩
      · rw [← same, String.ofList_toList]
        exact ⟨List.prefix_rfl, List.prefix_rfl, rfl⟩
      · rw [names_of_slash same, same]
        exact ⟨List.prefix_append _ _, List.prefix_append _ _, absolute⟩

end Path

namespace FileTree

variable {tree grown paved between : FileTree} {path longer : String} {location : Location} {content : List UInt8}

/-! ## Ways -/

/-- **A location on the way of a path**: some first names of the path lead to it. -/
def OnWay (tree : FileTree) (path : String) (location : Location) : Prop :=
  ∃ front, front <+: Path.names path ∧ tree.walk (tree.start path) front = .ok location

theorem Grows.onWay (grows : tree.Grows grown) (onWay : tree.OnWay path location) : grown.OnWay path location := by
  obtain ⟨front, first, walked⟩ := onWay
  refine ⟨front, first, ?_⟩
  rw [grows.start_eq]
  exact grows.walk_eq walked

/-- What is on the way of the first names of a path is on its way. -/
theorem OnWay.extend (onWay : tree.OnWay path location) (first : Path.names path <+: Path.names longer)
    (same : Path.isAbsolute path = Path.isAbsolute longer) : tree.OnWay longer location := by
  obtain ⟨front, before, walked⟩ := onWay
  refine ⟨front, before.trans first, ?_⟩
  unfold start at walked ⊢
  rw [← same]
  exact walked

/-- **A tree is paved for a path**: new directories on the way of the path are all that was added. -/
structure Paves (tree paved : FileTree) (path : String) : Prop where
  slots : paved.slots = tree.slots
  denied : paved.denied = tree.denied
  workingDirectory : paved.workingDirectory = tree.workingDirectory
  entry?_cases : ∀ location, paved.entry? location = tree.entry? location ∨
    tree.entry? location = none ∧ paved.entry? location = some .directory ∧ paved.OnWay path location

namespace Paves

theorem refl (tree : FileTree) (path : String) : tree.Paves tree path := ⟨rfl, rfl, rfl, fun _ => .inl rfl⟩

/-- The files of a paved tree are those of the tree. -/
theorem entry?_eq_file_iff (paves : tree.Paves paved path) {slot : Nat} :
    paved.entry? location = some (.file slot) ↔ tree.entry? location = some (.file slot) := by
  rcases paves.entry?_cases location with same | ⟨new, made, -⟩
  · rw [same]
  · simp [new, made]

theorem grows (paves : tree.Paves paved path) : tree.Grows paved where
  entry?_eq location entry found := by
    rcases paves.entry?_cases location with same | ⟨new, -⟩
    · exact same.trans found
    · cases new.symm.trans found
  denied := paves.denied
  workingDirectory := paves.workingDirectory
  backed := by
    rintro ⟨stored, denied⟩
    constructor
    · intro location slot found
      rw [paves.slots]
      exact stored location slot (paves.entry?_eq_file_iff.mp found)
    · intro location refused
      rcases paves.entry?_cases location with same | ⟨-, made, -⟩
      · unfold isDenied at refused
        rw [paves.denied] at refused
        rw [same]
        exact denied location refused
      · rw [made]
        exact Option.some_ne_none _

theorem trans (first : tree.Paves between path) (second : between.Paves paved path) : tree.Paves paved path where
  slots := second.slots.trans first.slots
  denied := second.denied.trans first.denied
  workingDirectory := second.workingDirectory.trans first.workingDirectory
  entry?_cases location := by
    rcases second.entry?_cases location with same | ⟨new, made, onWay⟩
    · rw [same]
      exact (first.entry?_cases location).imp_right fun ⟨new, made, onWay⟩ => ⟨new, made, second.grows.onWay onWay⟩
    · rcases first.entry?_cases location with same | ⟨-, made', -⟩
      · exact .inr ⟨same.symm.trans new, made, onWay⟩
      · cases new.symm.trans made'

theorem extend (paves : tree.Paves paved path) (first : Path.names path <+: Path.names longer)
    (same : Path.isAbsolute path = Path.isAbsolute longer) : tree.Paves paved longer where
  slots := paves.slots
  denied := paves.denied
  workingDirectory := paves.workingDirectory
  entry?_cases location :=
    (paves.entry?_cases location).imp_right fun ⟨new, made, onWay⟩ => ⟨new, made, onWay.extend first same⟩

theorem of_parent {parent : String} (paves : tree.Paves paved parent) (found : Path.parent? path = some parent) :
    tree.Paves paved path :=
  paves.extend (Path.names_parent? found).1 (Path.names_parent? found).2

end Paves

theorem paves_makeDirectory (made : tree.makeDirectory path = .ok paved) : tree.Paves paved path := by
  have grows := grows_makeDirectory made
  obtain ⟨parent, name, targets, new, rfl⟩ := makeDirectory_eq_ok_iff.mp made
  have entries := tree.entry?_add tree.slots (parent ++ [name]) .directory
  refine ⟨rfl, rfl, rfl, fun location => ?_⟩
  by_cases same : location = parent ++ [name]
  · subst same
    have found := entries (parent ++ [name])
    rw [new, if_pos rfl] at found
    have located := (grows.targets targets).locate_eq found fun _ => rfl
    exact .inr ⟨new, found, _, List.prefix_rfl, (walk_of_locate located).2⟩
  · refine .inl ?_
    rw [entries, if_neg same, Option.or_none]

/-- **Making directories paves the tree**, also where it fails halfway: the parents lie on the way. -/
theorem paves_makeDirectories (tree : FileTree) (path : String) : tree.Paves (tree.makeDirectories path).1 path := by
  fun_induction makeDirectories tree path with
  | case1 => exact .refl _ _
  | case2 _ _ _ made => exact paves_makeDirectory made
  | case3 => exact .refl _ _
  | case4 _ _ _ _ found _ _ above ih =>
    rw [above] at ih
    exact ih.of_parent found
  | case5 _ _ _ _ found _ above _ made ih =>
    rw [above] at ih
    exact (ih.of_parent found).trans (paves_makeDirectory made)
  | case6 _ _ _ _ found _ above _ _ ih =>
    rw [above] at ih
    exact ih.of_parent found
  | case7 => exact .refl _ _

/-! ## Nodes -/

/-- What a tree shows at a location. -/
inductive Node where
  | directory
  | file (content : List UInt8)
  deriving DecidableEq, Repr, Inhabited

/-- What an entry of a tree shows. -/
def nodeOf (tree : FileTree) : Entry → Node
  | .directory => .directory
  | .file slot => .file (tree.bytes slot)

/-- What a tree shows at a location. -/
def node? (tree : FileTree) (location : Location) : Option Node := (tree.entry? location).map tree.nodeOf

/-- What was there before a tree was paved, and what is new. -/
theorem Paves.node?_cases (paves : tree.Paves paved path) (location : Location) :
    paved.node? location = tree.node? location ∨
      tree.node? location = none ∧ paved.node? location = some .directory ∧ paved.OnWay path location := by
  have same : paved.nodeOf = tree.nodeOf := by
    funext entry
    cases entry with
    | directory => rfl
    | file slot => rw [nodeOf, nodeOf, bytes, bytes, paves.slots]
  unfold node?
  rcases paves.entry?_cases location with kept | ⟨new, made, onWay⟩
  · rw [kept, same]
    exact .inl rfl
  · rw [new, made]
    exact .inr ⟨rfl, rfl, onWay⟩

/-- Paving neither makes nor changes a file. -/
theorem Paves.node?_eq_file_iff (paves : tree.Paves paved path) :
    paved.node? location = some (.file content) ↔ tree.node? location = some (.file content) := by
  rcases paves.node?_cases location with same | ⟨new, made, -⟩
  · rw [same]
  · simp [new, made]

/-- **Two names of one file**: the bytes that both locations show are the same, and stay the same. -/
def SameFile (tree : FileTree) (first second : Location) : Prop :=
  ∃ slot, tree.entry? first = some (.file slot) ∧ tree.entry? second = some (.file slot)

theorem Paves.sameFile_iff (paves : tree.Paves paved path) {first second : Location} :
    paved.SameFile first second ↔ tree.SameFile first second := by
  unfold SameFile
  simp only [paves.entry?_eq_file_iff]

/-- **A tree is filled**: the file at a location has the content now, under each of its names. What was there stands
for what it stood for, all other files have the bytes they had, and besides the file itself only directories on the
way of the path are new. -/
structure Fills (tree filled : FileTree) (path : String) (location : Location) (content : List UInt8) : Prop
    extends tree.Grows filled where
  noDirectory : tree.entry? location ≠ some .directory
  written : ∀ place, place = location ∨ tree.SameFile location place → filled.node? place = some (.file content)
  kept : ∀ place, tree.node? place ≠ none → place ≠ location → ¬ tree.SameFile location place →
    filled.node? place = tree.node? place
  new : ∀ place, tree.node? place = none → place ≠ location → filled.node? place = none ∨
    filled.node? place = some .directory ∧ filled.OnWay path place

@[simp] theorem node?_eq_none_iff : tree.node? location = none ↔ tree.entry? location = none := Option.map_eq_none_iff

/-- The nodes after the bytes of a file were replaced. -/
theorem node?_replace {slot : Nat} (inside : slot < tree.slots.size) (content : List UInt8) (place : Location) :
    node? { tree with slots := tree.slots.setIfInBounds slot content } place =
      if tree.entry? place = some (.file slot) then some (.file content) else tree.node? place := by
  show Option.map _ (tree.entry? place) = _
  split
  · rename_i found
    rw [found]
    simp [nodeOf, bytes, inside]
  · rename_i elsewhere
    refine Option.map_congr fun entry there => ?_
    cases entry with
    | directory => rfl
    | file other =>
      have away : slot ≠ other := fun shared => elsewhere (shared ▸ there)
      simp [nodeOf, bytes, Array.getElem?_setIfInBounds_ne away]

/-- The nodes after a file was added. -/
theorem Backed.node?_add (backed : tree.Backed) (new : tree.entry? location = none) (content : List UInt8)
    (place : Location) :
    node? { tree with
        entries := tree.entries ++ [(location, .file tree.slots.size)], slots := tree.slots.push content } place =
      if place = location then some (.file content) else tree.node? place := by
  unfold node?
  rw [entry?_add]
  by_cases same : place = location
  · rw [if_pos same, if_pos same, same, new]
    simp [nodeOf, bytes]
  · rw [if_neg same, if_neg same, Option.or_none]
    refine Option.map_congr fun entry there => ?_
    cases entry with
    | directory => rfl
    | file slot =>
      have old := backed.stored place slot there
      simp [nodeOf, bytes, Array.getElem?_push, Nat.ne_of_lt old]

/-- **Writing a file fills the tree**, without any new directory. -/
theorem Backed.fills_write (backed : tree.Backed) (written : tree.write path content = .ok grown) (way : String) :
    ∃ location, grown.locate path = .ok location ∧ tree.Fills grown way location content := by
  obtain ⟨grows, -⟩ := backed.holds_of_write written
  obtain ⟨noSlash, parent, name, targets, cases⟩ := write_eq_ok_iff.mp written
  have located : ∀ slot, grown.entry? (parent ++ [name]) = some (.file slot) →
      grown.locate path = .ok (parent ++ [name]) := by
    intro slot found
    exact (grows.targets targets).locate_of_noSlash found noSlash
  rcases cases with ⟨slot, found, -, rfl⟩ | ⟨new, rfl⟩
  · have nodes := node?_replace (backed.stored _ _ found) content
    have shared : ∀ place, tree.SameFile (parent ++ [name]) place ↔ tree.entry? place = some (.file slot) := by
      intro place
      simp [SameFile, found]
    refine ⟨_, located slot found, grows, by simp [found], fun place names => ?_, fun place _ _ other => ?_,
      fun place none _ => .inl ?_⟩
    · rw [nodes, if_pos]
      rcases names with rfl | same
      · exact found
      · exact (shared place).mp same
    · rw [nodes, if_neg (mt (shared place).mpr other)]
    · rw [nodes, if_neg, none]
      rw [node?_eq_none_iff.mp none]
      exact Option.some_ne_none _ ∘ Eq.symm
  · have nodes := backed.node?_add new content
    refine ⟨_, located tree.slots.size ?_, grows, by simp [new], fun place names => ?_, fun place _ away _ => ?_,
      fun place none away => .inl ?_⟩
    · rw [entry?_add, new, if_pos rfl]
      rfl
    · rw [nodes, if_pos]
      -- A file that is new has no other name.
      rcases names with rfl | ⟨slot, found, -⟩
      · rfl
      · cases new.symm.trans found
    · rw [nodes, if_neg away]
    · rw [nodes, if_neg away, none]

/-- What was paved and then filled was filled. -/
theorem Paves.fills {filled : FileTree} (paves : tree.Paves paved path)
    (fills : paved.Fills filled path location content) : tree.Fills filled path location content := by
  have same : ∀ place, tree.node? place ≠ none → paved.node? place = tree.node? place := by
    intro place there
    rcases paves.node?_cases place with same | ⟨new, -⟩
    · exact same
    · exact absurd new there
  refine ⟨paves.grows.trans fills.toGrows, fun directory => ?_, fun place names => ?_, fun place there away other => ?_,
    fun place none away => ?_⟩
  · exact fills.noDirectory (paves.grows.entry?_eq _ _ directory)
  · exact fills.written place (names.imp_right paves.sameFile_iff.mpr)
  · rw [fills.kept place (same place there ▸ there) away (mt paves.sameFile_iff.mp other), same place there]
  · rcases paves.node?_cases place with kept | ⟨-, made, onWay⟩
    · exact fills.new place (kept.trans none) away
    -- A directory that paving made is still there, since the file is another location.
    · refine .inr ⟨?_, fills.toGrows.onWay onWay⟩
      rw [fills.kept place (by simp [made]) away, made]
      rintro ⟨slot, -, file⟩
      rw [node?, file] at made
      cases made

end FileTree

end JackTokens
