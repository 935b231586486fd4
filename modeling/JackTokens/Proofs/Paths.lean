import JackTokens.FileTree.Basic
import JackTokens.Proofs.Front
import Mathlib.Data.List.Basic

/-!
# Names below a directory

A path is a text, and what it leads to is found by its names. This module says what becomes of both when a
name is put behind the path of a directory.

**Texts.** The joined path is the path of the directory, a slash if it has none at its end, and the name
(`Path.toList_join`). So its names are those of the directory and the new one (`Path.names_join`), and the new
one is its last (`Path.fileName?_join`). All of this needs a name that is one (`Path.IsName`): a slash in it
would make two of it, and `.` and `..` are no names but ways to go.

**Lookups.** Names are followed one by one (`FileTree.walk_append`), so a joined path leads to the entry below
the directory that the path leads to (`FileTree.locate_join`). The text counts here, too: however few names a
path has, it is refused if it is too long, and then nothing is found behind it. A path gets as long as one
likes by dots at its end, which lead nowhere (`FileTree.walk_dots`).
-/

namespace JackTokens

/-! ## The text of a joined path -/

namespace Path

/-- **A name**, as entries of a directory have it. -/
structure IsName (name : String) : Prop where
  nonempty : name.toList ≠ []
  noSlash : '/' ∉ name.toList
  noNul : '\x00' ∉ name.toList
  noDot : name ≠ "."
  noDots : name ≠ ".."
  short : Utf8.size name.toList ≤ FileTree.longestName

instance (name : String) : Decidable (IsName name) :=
  decidable_of_iff (name.toList ≠ [] ∧ '/' ∉ name.toList ∧ '\x00' ∉ name.toList ∧ name ≠ "." ∧ name ≠ ".." ∧
      Utf8.size name.toList ≤ FileTree.longestName)
    ⟨fun ⟨a, b, c, d, e, f⟩ => ⟨a, b, c, d, e, f⟩, fun ⟨a, b, c, d, e, f⟩ => ⟨a, b, c, d, e, f⟩⟩

variable {directory name : String}

/-- **A joined path** is the path of the directory, with a slash at its end, and the name. -/
theorem toList_join (named : IsName name) (nonempty : directory.toList ≠ []) :
    ∃ front, (join directory name).toList = front ++ '/' :: name.toList ∧
      (directory.toList = front ∨ directory.toList = front ++ ['/']) := by
  have relative : name.toList.head? ≠ some '/' := fun slash => named.noSlash (List.mem_of_mem_head? slash)
  have filled : directory.isEmpty = false := by
    rw [Bool.eq_false_iff]
    intro empty
    exact nonempty (by simpa using empty)
  unfold join
  rw [if_neg relative, if_neg (by simp [filled])]
  by_cases slash : directory.toList.getLast? = some '/'
  · obtain ⟨front, whole⟩ := List.getLast?_eq_some_iff.mp slash
    refine ⟨front, ?_, .inr whole⟩
    rw [if_pos slash, String.toList_append, whole, List.append_assoc, List.singleton_append]
  · refine ⟨directory.toList, ?_, .inl rfl⟩
    rw [if_neg slash, String.toList_append, String.toList_append, List.append_assoc]
    rfl

theorem size_le_join (named : IsName name) (nonempty : directory.toList ≠ []) :
    Utf8.size directory.toList + Utf8.size name.toList ≤ Utf8.size (join directory name).toList := by
  obtain ⟨front, joined, slash⟩ := toList_join named nonempty
  rw [joined, Utf8.size_append, Utf8.size_cons]
  rcases slash with same | same
  · rw [same]
    omega
  · rw [same, Utf8.size_append, Utf8.size_cons, Utf8.size_nil]
    omega

/-- The names of a joined path. -/
theorem names_join (named : IsName name) (nonempty : directory.toList ≠ []) :
    names (join directory name) = names directory ++ [name] := by
  obtain ⟨front, joined, slash⟩ := toList_join named nonempty
  have last : ((Text.splitAt '/' name.toList).filter (· != [])).map String.ofList = [name] := by
    rw [Text.splitAt_of_not_mem named.noSlash, List.filter_cons_of_pos (by simp [named.nonempty]),
      List.filter_nil, List.map_singleton, String.ofList_toList]
  have before : names directory = ((Text.splitAt '/' front).filter (· != [])).map String.ofList := by
    rcases slash with same | same
    · rw [names, same]
    · rw [names, same, Text.splitAt_append, List.filter_append]
      simp [Text.splitAt]
  rw [names, joined, Text.splitAt_append, List.filter_append, List.map_append, last, before]

theorem isAbsolute_join (named : IsName name) (nonempty : directory.toList ≠ []) :
    isAbsolute (join directory name) = isAbsolute directory := by
  obtain ⟨front, joined, slash⟩ := toList_join named nonempty
  unfold isAbsolute
  rw [joined]
  rcases slash with same | same
  · rw [same] at nonempty
    rw [same, List.head?_append_of_ne_nil _ nonempty]
  · rw [same]
    cases front <;> rfl

theorem endsInSlash_join (named : IsName name) (nonempty : directory.toList ≠ []) :
    endsInSlash (join directory name) = false := by
  obtain ⟨front, joined, -⟩ := toList_join named nonempty
  unfold endsInSlash
  rw [joined, List.append_cons, List.getLast?_append_of_ne_nil _ named.nonempty, beq_eq_false_iff_ne]
  intro slash
  exact named.noSlash (List.mem_of_getLast? slash)

/-- Nothing is stripped off a path that ends in a name. -/
theorem strip_reverse_name (named : IsName name) (rest : List Char) :
    strip (name.toList.reverse ++ rest) = name.toList.reverse ++ rest := by
  have noSlash : '/' ∉ name.toList.reverse := fun slash => named.noSlash (List.mem_reverse.mp slash)
  have noDot : name.toList.reverse ≠ ['.'] := by
    intro dot
    have single : name.toList = ['.'] := by simpa using congrArg List.reverse dot
    exact named.noDot (String.toList_inj.mp (by simpa using single))
  obtain ⟨c, before, backwards⟩ := List.exists_cons_of_ne_nil (List.reverse_ne_nil_iff.mpr named.nonempty)
  rw [backwards] at noSlash noDot ⊢
  rw [List.mem_cons, not_or] at noSlash
  unfold strip
  split
  · rename_i empty
    cases empty
  · rename_i whole
    exact absurd (List.cons.inj whole).1.symm noSlash.1
  · rename_i path whole
    obtain ⟨rfl, rfl⟩ := List.cons.inj whole
    -- A dot at the end is part of a longer name, whose next letter is no slash.
    obtain ⟨d, longer, rfl⟩ := List.exists_cons_of_ne_nil (fun short => noDot (short ▸ rfl))
    have letter : d ≠ '/' := fun slash => noSlash.2 (slash ▸ List.mem_cons_self)
    split
    · rename_i none
      cases none
    · rename_i slash
      exact absurd (List.cons.inj slash).1 letter
    · rfl
  · rfl

theorem lead_length_le_one (path : List Char) : (lead path).length ≤ 1 := by
  unfold lead
  split <;> simp

/-- Read backwards, a joined path begins with the name, which ends at a slash or where nothing is left. -/
theorem body_join (named : IsName name) (nonempty : directory.toList ≠ []) :
    ∃ rest, body (join directory name).toList = name.toList.reverse ++ rest ∧
      Text.StopsAt (· != '/') rest := by
  obtain ⟨front, joined, -⟩ := toList_join named nonempty
  have short := lead_length_le_one (join directory name).toList
  unfold body
  generalize (lead (join directory name).toList).length = led at short
  -- The lead is taken off what stands before the name.
  have behind : (join directory name).toList.drop led = (front ++ ['/']).drop led ++ name.toList := by
    rw [joined, ← List.drop_append_of_le_length (by simp; omega), List.append_assoc,
      List.singleton_append]
  refine ⟨((front ++ ['/']).drop led).reverse, ?_, ?_⟩
  · rw [behind, List.reverse_append, strip_reverse_name named]
  · rw [List.reverse_drop, List.reverse_append, List.reverse_singleton, List.singleton_append]
    cases (front ++ ['/']).length - led with
    | zero => exact .nil _
    | succ n => exact .cons rfl _

/-- **The last name of a joined path** is the name that was joined. -/
theorem fileName?_join (named : IsName name) (nonempty : directory.toList ≠ []) :
    fileName? (join directory name) = some name := by
  obtain ⟨rest, backwards, stop⟩ := body_join named nonempty
  have within : ∀ c ∈ name.toList.reverse, (c != '/') = true :=
    Text.bne_of_not_mem fun slash => named.noSlash (List.mem_reverse.mp slash)
  have real : ¬ (name.toList = [] ∨ name.toList = ['.', '.']) := by
    rintro (empty | dots)
    · exact named.nonempty empty
    · exact named.noDots (String.toList_inj.mp (by simpa using dots))
  unfold fileName?
  rw [backwards, Text.takeWhile_append_stop within stop, List.reverse_reverse]
  rw [if_neg real, String.ofList_toList]

/-! ## Dots behind a path -/

/-- A path with dots behind it. -/
def dotted (path : String) (n : Nat) : String :=
  String.ofList (path.toList ++ (List.replicate n ['/', '.']).flatten)

@[simp] theorem names_dotted (path : String) (n : Nat) :
    names (dotted path n) = names path ++ List.replicate n "." := by
  have dots : ∀ front : List Char,
      ((Text.splitAt '/' (front ++ (List.replicate n ['/', '.']).flatten)).filter (· != [])).map String.ofList =
        ((Text.splitAt '/' front).filter (· != [])).map String.ofList ++ List.replicate n "." := by
    induction n with
    | zero => simp
    | succ n ih =>
      intro front
      have next : front ++ (List.replicate (n + 1) ['/', '.']).flatten =
          (front ++ '/' :: ['.']) ++ (List.replicate n ['/', '.']).flatten := by
        simp [List.replicate_succ]
      rw [next, ih, Text.splitAt_append, List.replicate_succ]
      simp [Text.splitAt]
  unfold names dotted
  rw [String.toList_ofList, dots]

@[simp] theorem size_dotted (path : String) (n : Nat) :
    Utf8.size (dotted path n).toList = Utf8.size path.toList + 2 * n := by
  have dots : Utf8.size (List.replicate n ['/', '.']).flatten = 2 * n := by
    induction n with
    | zero => rfl
    | succ n ih =>
      rw [List.replicate_succ, List.flatten_cons, Utf8.size_append, ih,
        show Utf8.size ['/', '.'] = 2 from rfl]
      omega
  unfold dotted
  rw [String.toList_ofList, Utf8.size_append, dots]

end Path

/-! ## Where a joined path leads -/

namespace FileTree

variable {tree : FileTree}

/-- **Names are followed one by one.** -/
theorem walk_append (location : Location) (first second : List String) :
    tree.walk location (first ++ second) =
      (tree.walk location first).bind fun reached => tree.walk reached second := by
  induction first generalizing location with
  | nil => rfl
  | cons name first ih =>
    rw [List.cons_append, walk, walk]
    cases tree.enter location with
    | error cause => rfl
    | ok _ =>
      by_cases stay : name = "."
      · simp only [if_pos stay]
        exact ih location
      by_cases back : name = ".."
      · simp only [if_neg stay, if_pos back]
        exact ih location.dropLast
      simp only [if_neg stay, if_neg back]
      cases checkName name with
      | error cause => rfl
      | ok _ =>
        cases tree.entry? (location ++ [name]) with
        | none => rfl
        | some entry => exact ih (location ++ [name])

/-- Which texts are looked up at all. -/
theorem checkPath_eq_ok_iff {path : String} :
    checkPath path = .ok () ↔
      '\x00' ∉ path.toList ∧ Utf8.size path.toList ≤ longestPath ∧ path.toList ≠ [] := by
  unfold checkPath
  by_cases nul : '\x00' ∈ path.toList
  · simp [nul]
  by_cases long : longestPath < Utf8.size path.toList
  · simp [nul, long, Nat.not_le.mpr long]
  by_cases empty : path = ""
  · simp [empty]
  · simp [nul, long, empty, Nat.not_lt.mp long]

/-- A path that leads somewhere is looked up, and its names lead there. -/
theorem walk_of_locate {path : String} {location : Location} (located : tree.locate path = .ok location) :
    checkPath path = .ok () ∧ tree.walk (tree.start path) (Path.names path) = .ok location := by
  unfold locate at located
  cases checked : checkPath path with
  | error cause =>
    rw [checked] at located
    cases located
  | ok _ =>
    rw [checked] at located
    cases walked : tree.walk (tree.start path) (Path.names path) with
    | error cause =>
      rw [walked] at located
      cases located
    | ok reached =>
      rw [walked] at located
      have same : reached = location := by
        simp only [bind, Except.bind] at located
        split at located
        · exact Except.ok.inj located
        · split at located
          · cases located
          · exact Except.ok.inj located
        · cases located
      exact ⟨rfl, congrArg Except.ok same⟩

variable {path name : String} {location : Location} {entry : Entry}

/-- A name leads from a directory to the entry that has it. -/
theorem walk_name (named : Path.IsName name) (entered : tree.enter location = .ok ())
    (found : tree.entry? (location ++ [name]) = some entry) :
    tree.walk location [name] = .ok (location ++ [name]) := by
  have short : checkName name = .ok () := if_neg (Nat.not_lt.mpr named.short)
  simp only [walk, if_neg named.noDot, if_neg named.noDots, found]
  rw [entered, short]
  rfl

/-- The text of a joined path is looked up unless it is too long. -/
theorem checkPath_join (named : Path.IsName name) (checked : checkPath path = .ok ()) :
    checkPath (Path.join path name) =
      if longestPath < Utf8.size (Path.join path name).toList then .error .nameTooLong else .ok () := by
  obtain ⟨noNul, -, nonempty⟩ := checkPath_eq_ok_iff.mp checked
  obtain ⟨front, joined, slash⟩ := Path.toList_join named nonempty
  have frontNoNul : '\x00' ∉ front := by
    rcases slash with same | same <;> rw [same] at noNul
    · exact noNul
    · exact fun member => noNul (List.mem_append_left _ member)
  have joinedNoNul : '\x00' ∉ (Path.join path name).toList := by
    rw [joined]
    simpa using ⟨frontNoNul, named.noNul⟩
  have filled : ¬ (Path.join path name).isEmpty = true := by
    intro empty
    have blank : (Path.join path name).toList = [] := by simpa using empty
    rw [joined] at blank
    simp at blank
  unfold checkPath
  rw [if_neg (by simpa using joinedNoNul), if_neg filled]

/-- Dots lead nowhere from a directory. -/
theorem walk_dots (entered : tree.enter location = .ok ()) (n : Nat) :
    tree.walk location (List.replicate n ".") = .ok location := by
  induction n with
  | zero => rfl
  | succ n ih =>
    rw [List.replicate_succ, walk, entered]
    exact ih

theorem start_join (named : Path.IsName name) (nonempty : path.toList ≠ []) :
    tree.start (Path.join path name) = tree.start path := by
  unfold start
  rw [Path.isAbsolute_join named nonempty]

/-- **A joined path leads below the directory**, unless it is too long to be looked up. -/
theorem locate_join (named : Path.IsName name) (located : tree.locate path = .ok location)
    (entered : tree.enter location = .ok ()) (found : tree.entry? (location ++ [name]) = some entry) :
    tree.locate (Path.join path name) =
      if longestPath < Utf8.size (Path.join path name).toList then .error .nameTooLong
      else .ok (location ++ [name]) := by
  obtain ⟨checked, walked⟩ := walk_of_locate located
  have nonempty := (checkPath_eq_ok_iff.mp checked).2.2
  have reached : tree.walk (tree.start path) (Path.names path ++ [name]) = .ok (location ++ [name]) := by
    rw [walk_append, walked]
    exact walk_name named entered found
  unfold locate
  rw [checkPath_join named checked, start_join named nonempty, Path.names_join named nonempty, reached]
  by_cases long : longestPath < Utf8.size (Path.join path name).toList
  · rw [if_pos long, if_pos long]
    rfl
  · rw [if_neg long, if_neg long]
    simp only [bind, Except.bind, found, Path.endsInSlash_join named nonempty]
    cases entry <;> rfl

end FileTree

end JackTokens
