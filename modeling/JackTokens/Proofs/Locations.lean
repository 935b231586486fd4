import JackTokens.Proofs.Listing
import JackTokens.Proofs.Writing
import Mathlib.Data.List.Induction

/-!
# Paths from the root

A location is a list of names, and its path is a text: a slash, and the names with slashes between them. This
module says that the two belong together, and when a program can follow such a path.

**Texts.** The path of an entry is the path of its directory joined with its name (`Path.ofLocation_concat`);
so its names are the location (`Path.names_ofLocation`), and its parent is the path of the directory
(`Path.parent?_ofLocation_concat`).

**Lookups.** From the root every directory on the way is entered, and none may be denied (`FileTree.Open`). In
a tree whose entries stand in directories this is all that can be in the way, but for the length of the path
(`FileTree.Nested.targets_ofLocation`, `FileTree.Targets.open_of_ofLocation`).
-/

namespace JackTokens

/-! ## The path of a location -/

/-- The path that leads from the root to a location. -/
def Path.ofLocation (location : Location) : String := "/" ++ String.intercalate "/" location

namespace Path

variable {location : Location} {name : String}

theorem ofLocation_ne_nil (location : Location) : (ofLocation location).toList ≠ [] := by
  simp [ofLocation]

theorem toList_ofLocation_concat (nonempty : location ≠ []) (name : String) :
    (ofLocation (location ++ [name])).toList = (ofLocation location).toList ++ '/' :: name.toList := by
  simp [ofLocation, String.intercalate_append_of_ne_nil nonempty]

/-- The path of a location is the root, or it ends in a name. -/
theorem ofLocation_cases (named : ∀ name ∈ location, IsName name) :
    location = [] ∨
      location ≠ [] ∧
        ∃ before last, IsName last ∧ (ofLocation location).toList = '/' :: (before ++ last.toList) := by
  rcases List.eq_nil_or_concat location with empty | ⟨front, last, whole⟩
  · exact .inl empty
  · rw [List.concat_eq_append] at whole
    subst whole
    refine .inr ⟨by simp, ?_⟩
    have isName := named last (by simp)
    by_cases top : front = []
    · subst top
      exact ⟨[], last, isName, by simp [ofLocation]⟩
    · refine ⟨(String.intercalate "/" front).toList ++ ['/'], last, isName, ?_⟩
      rw [toList_ofLocation_concat top]
      simp [ofLocation]

/-- A name is put behind the path of a location. -/
theorem ofLocation_concat (named : ∀ name ∈ location, IsName name) (isName : IsName name) :
    ofLocation (location ++ [name]) = join (ofLocation location) name := by
  have relative : name.toList.head? ≠ some '/' := fun slash => isName.noSlash (List.mem_of_mem_head? slash)
  have filled : ¬ (ofLocation location).isEmpty = true := by simp [ofLocation]
  unfold join
  rw [if_neg relative, if_neg filled]
  rcases ofLocation_cases named with rfl | ⟨nonempty, before, last, isLast, text⟩
  · rfl
  · have noSlash : (ofLocation location).toList.getLast? ≠ some '/' := by
      rw [text, ← List.cons_append, List.getLast?_append_of_ne_nil _ isLast.nonempty]
      exact fun slash => isLast.noSlash (List.mem_of_getLast? slash)
    rw [if_neg noSlash, ← String.toList_inj, toList_ofLocation_concat nonempty]
    simp

/-- The names of the path of a location. -/
theorem names_ofLocation (named : ∀ name ∈ location, IsName name) : names (ofLocation location) = location := by
  induction location using List.reverseRecOn with
  | nil => rfl
  | append_singleton location name ih =>
    rw [List.forall_mem_append, List.forall_mem_singleton] at named
    rw [ofLocation_concat named.1 named.2, names_join named.2 (ofLocation_ne_nil location), ih named.1]

@[simp] theorem isAbsolute_ofLocation (location : Location) : isAbsolute (ofLocation location) = true := by
  simp [isAbsolute, ofLocation]

theorem nul_not_mem_ofLocation (named : ∀ name ∈ location, IsName name) :
    '\x00' ∉ (ofLocation location).toList := by
  induction location using List.reverseRecOn with
  | nil => decide
  | append_singleton location name ih =>
    rw [List.forall_mem_append, List.forall_mem_singleton] at named
    obtain ⟨front, joined, slash⟩ := toList_join named.2 (ofLocation_ne_nil location)
    have within : front ⊆ (ofLocation location).toList := by
      rcases slash with same | same
      · rw [same]
        exact fun c member => member
      · rw [same]
        exact List.subset_append_left front ['/']
    rw [ofLocation_concat named.1 named.2, joined, List.mem_append, List.mem_cons, not_or, not_or]
    exact ⟨fun member => ih named.1 (within member), by decide, named.2.noNul⟩

/-- The path of a location is looked up unless it is too long. -/
theorem checkPath_ofLocation (named : ∀ name ∈ location, IsName name) :
    FileTree.checkPath (ofLocation location) = .ok () ↔
      Utf8.size (ofLocation location).toList ≤ FileTree.longestPath := by
  rw [FileTree.checkPath_eq_ok_iff]
  constructor
  · exact fun ⟨_, short, _⟩ => short
  · exact fun short => ⟨nul_not_mem_ofLocation named, short, ofLocation_ne_nil location⟩

/-- The parent of a path from the root, with what stands before its last name read backwards. -/
theorem parentOf?_of_name (isName : IsName name) {rest : List Char} (stop : Text.StopsAt (· != '/') rest) :
    parentOf? ('/' :: (rest.reverse ++ name.toList)) = some ('/' :: (strip (rest.drop 1)).reverse) := by
  have noSlash : ∀ c ∈ name.toList.reverse, (c != '/') = true :=
    Text.bne_of_not_mem fun slash => isName.noSlash (List.mem_reverse.mp slash)
  have names : body ('/' :: (rest.reverse ++ name.toList)) = name.toList.reverse ++ rest := by
    show strip (rest.reverse ++ name.toList).reverse = _
    rw [List.reverse_append, List.reverse_reverse, strip_reverse_name isName]
  unfold parentOf?
  rw [names]
  split
  · rename_i empty
    exact absurd (List.append_eq_nil_iff.mp empty).1 (List.reverse_ne_nil_iff.mpr isName.nonempty)
  · rw [Text.dropWhile_append_stop noSlash stop]
    rfl

/-- The parent of a name below a location is the path of the location. -/
theorem parent?_ofLocation_concat (named : ∀ name ∈ location, IsName name) (isName : IsName name) :
    parent? (ofLocation (location ++ [name])) = some (ofLocation location) := by
  rw [parent?, Option.map_eq_some_iff]
  refine ⟨(ofLocation location).toList, ?_, String.ofList_toList⟩
  rcases ofLocation_cases named with rfl | ⟨nonempty, before, last, isLast, text⟩
  · have joined : (ofLocation ([] ++ [name])).toList = '/' :: name.toList := by simp [ofLocation]
    rw [joined]
    exact parentOf?_of_name isName (.nil _)
  · have joined : (ofLocation (location ++ [name])).toList =
        '/' :: (('/' :: (last.toList.reverse ++ before.reverse)).reverse ++ name.toList) := by
      rw [toList_ofLocation_concat nonempty, text]
      simp
    rw [joined, parentOf?_of_name isName (.cons rfl _), List.drop_one, List.tail_cons,
      strip_reverse_name isLast, text]
    simp

end Path

/-! ## Following names from the root -/

namespace FileTree

variable {tree : FileTree} {location parent : Location} {name last : String} {entry : Entry}

/-- The locations of a proper tree are made of names. -/
theorem Proper.isName_of_mem (proper : tree.Proper) (found : tree.entry? location = some entry) :
    ∀ name ∈ location, Path.IsName name := by
  by_cases root : location = []
  · simp [root]
  · exact proper.named _ (mem_entries_of_found found root)

/-- **A nested tree** is a proper one in which every entry stands in a directory. -/
structure Nested (tree : FileTree) : Prop extends Proper tree where
  above : ∀ below ∈ tree.entries, tree.entry? below.1.dropLast = some .directory

theorem Nested.entry?_eq (nested : tree.Nested) (found : tree.entry? (location ++ [name]) = some entry) :
    tree.entry? location = some .directory := by
  have above := nested.above _ (mem_entries_of_found found (by simp))
  rw [List.dropLast_concat] at above
  exact above

/-- A location is **open** if neither it nor any directory above it is denied. -/
def Open (tree : FileTree) (location : Location) : Prop :=
  ∀ above, above <+: location → tree.isDenied above = false

/-- In a nested tree, names lead to an open entry from the root. -/
theorem Nested.walk_eq (nested : tree.Nested) (found : tree.entry? location = some entry)
    (clear : tree.Open location) : tree.walk [] location = .ok location := by
  induction location using List.reverseRecOn generalizing entry with
  | nil => rfl
  | append_singleton location name ih =>
    have directory := nested.entry?_eq found
    have clearAbove : tree.Open location := fun above within => clear above (within.trans (List.prefix_append _ _))
    have entered : tree.enter location = .ok () :=
      enter_eq_ok_iff.mpr ⟨directory, clearAbove location (List.prefix_refl _)⟩
    rw [walk_append, ih directory clearAbove]
    exact walk_name (nested.isName_of_mem found name (by simp)) entered found

/-- Names that lead from the root to a directory that may be entered lead through open directories only. -/
theorem open_of_walk (named : ∀ name ∈ location, Path.IsName name) {reached : Location}
    (walked : tree.walk [] location = .ok reached) (entered : tree.enter reached = .ok ()) :
    reached = location ∧ tree.Open location := by
  have allowed := (enter_eq_ok_iff.mp entered).2
  induction location using List.reverseRecOn generalizing reached with
  | nil =>
    cases walked
    refine ⟨rfl, fun above within => ?_⟩
    rw [List.prefix_nil.mp within]
    exact allowed
  | append_singleton location name ih =>
    rw [List.forall_mem_append, List.forall_mem_singleton] at named
    rw [walk_append] at walked
    obtain ⟨between, walked, last⟩ := bind_eq_ok_iff.mp walked
    obtain ⟨passed, leads⟩ := walk_singleton_eq_ok_iff.mp last
    obtain ⟨rfl, clear⟩ := ih named.1 walked passed (enter_eq_ok_iff.mp passed).2
    rcases leads with ⟨dot, -⟩ | ⟨dots, -⟩ | ⟨-, -, -, rfl, -⟩
    · exact absurd dot named.2.noDot
    · exact absurd dots named.2.noDots
    · refine ⟨rfl, fun above within => ?_⟩
      rcases List.prefix_concat_iff.mp within with same | within
      · rw [same]
        exact allowed
      · exact clear above within

/-- The path of an entry leads to it, if it is open and its path is not too long. -/
theorem Nested.locate_ofLocation (nested : tree.Nested) (directory : tree.entry? location = some .directory)
    (clear : tree.Open location) (short : Utf8.size (Path.ofLocation location).toList ≤ longestPath) :
    tree.locate (Path.ofLocation location) = .ok location := by
  have named := nested.isName_of_mem directory
  refine locate_eq_ok_iff.mpr ⟨(Path.checkPath_ofLocation named).mpr short, ?_, .directory, directory, fun _ => rfl⟩
  rw [start, if_pos (Path.isAbsolute_ofLocation _), Path.names_ofLocation named]
  exact nested.walk_eq directory clear

/-- **The path of a name below an open directory targets it**, unless it is too long. -/
theorem Nested.targets_ofLocation (nested : tree.Nested) (isName : Path.IsName name)
    (directory : tree.entry? location = some .directory) (clear : tree.Open location)
    (short : Utf8.size (Path.ofLocation (location ++ [name])).toList ≤ longestPath) :
    tree.Targets (Path.ofLocation (location ++ [name])) location name := by
  have named : ∀ below ∈ location ++ [name], Path.IsName below :=
    List.forall_mem_append.mpr ⟨nested.isName_of_mem directory, List.forall_mem_singleton.mpr isName⟩
  have entered := enter_eq_ok_iff.mpr ⟨directory, clear location (List.prefix_refl _)⟩
  refine ⟨?_, isName.noDot, isName.noDots, if_neg (Nat.not_lt.mpr isName.short)⟩
  refine locateParent_eq_ok_iff.mpr ⟨(Path.checkPath_ofLocation named).mpr short, ⟨location, ?_, ?_⟩, entered⟩
  · exact Path.names_ofLocation named
  · rw [start, if_pos (Path.isAbsolute_ofLocation _)]
    exact nested.walk_eq directory clear

/-- Where the path of a name below a location targets anything, it targets that name, and the location is
open. -/
theorem Targets.open_of_ofLocation (named : ∀ name ∈ location, Path.IsName name) (isName : Path.IsName name)
    (targets : tree.Targets (Path.ofLocation (location ++ [name])) parent last) :
    parent = location ∧ last = name ∧ tree.Open location ∧
      Utf8.size (Path.ofLocation (location ++ [name])).toList ≤ longestPath := by
  have all : ∀ below ∈ location ++ [name], Path.IsName below :=
    List.forall_mem_append.mpr ⟨named, List.forall_mem_singleton.mpr isName⟩
  obtain ⟨checked, ⟨front, names, walked⟩, entered⟩ := locateParent_eq_ok_iff.mp targets.located
  rw [Path.names_ofLocation all] at names
  obtain ⟨rfl, same⟩ := List.append_inj' names rfl
  rw [start, if_pos (Path.isAbsolute_ofLocation _)] at walked
  obtain ⟨rfl, clear⟩ := open_of_walk named walked entered
  exact ⟨rfl, (List.singleton_inj.mp same).symm, clear, (Path.checkPath_ofLocation all).mp checked⟩

end FileTree

end JackTokens
