import JackTokens.Text.Split

/-!
# Paths

A path is a text of names with slashes between them. Reading it by its names, empty names and the
name `.` count for nothing, except that a path may begin with a `.` of its own; so a slash, or a slash
and a dot, at the end of a path changes neither its last name nor its parent.

Three operations are needed: a name below a directory (`join`), the last name (`fileName?`) and what
is left without it (`parent?`). A parent is always shorter than its path, which is what a walk towards
the root rests on.
-/

namespace JackTokens.Path

/-- A name below a directory. An absolute path stands for itself, and the empty directory adds
nothing. -/
def join (directory name : String) : String :=
  if name.toList.head? = some '/' then name
  else if directory.isEmpty then name
  else if directory.toList.getLast? = some '/' then directory ++ name
  else directory ++ "/" ++ name

/-- What a path begins with, apart from its names: the root, or a `.` of its own. -/
def lead : List Char → List Char
  | '/' :: _ => ['/']
  | ['.'] => ['.']
  | '.' :: '/' :: _ => ['.']
  | _ => []

/-- A path read backwards, without the empty names and the names `.` at its end. -/
def strip : List Char → List Char
  | [] => []
  | '/' :: path => strip path
  | '.' :: path =>
    match path with
    | [] => []
    | '/' :: shorter => strip shorter
    | _ => '.' :: path
  | path => path

/-- The names of a path behind its lead, read backwards. -/
def body (path : List Char) : List Char := strip (path.drop (lead path).length).reverse

/-- A path without its last name. The root and the empty path have no parent. -/
def parentOf? (path : List Char) : Option (List Char) :=
  match body path with
  | [] => if lead path = ['.'] then some [] else none
  | names => some (lead path ++ (strip ((names.dropWhile (· != '/')).drop 1)).reverse)

/-- A path without its last name. -/
def parent? (path : String) : Option String := (parentOf? path.toList).map String.ofList

/-- The last name of a path. There is none where the path ends at the root, at a leading `.` or at
`..`. -/
def fileName? (path : String) : Option String :=
  let name := ((body path.toList).takeWhile (· != '/')).reverse
  if name = [] ∨ name = ['.', '.'] then none else some (String.ofList name)

/-- The name under which a path is shown: its last name, or else the whole path. -/
def displayName (path : String) : String := (fileName? path).getD path

/-- The names of a path, the empty ones left out. -/
def names (path : String) : List String :=
  ((Text.splitAt '/' path.toList).filter (· != [])).map String.ofList

/-- Does a path start at the root? -/
def isAbsolute (path : String) : Bool := path.toList.head? == some '/'

/-- Does a path ask for a directory, by a slash at its end? -/
def endsInSlash (path : String) : Bool := path.toList.getLast? == some '/'

/-! ## A parent is shorter -/

theorem length_strip_le (path : List Char) : (strip path).length ≤ path.length := by
  fun_induction strip path <;> simp_all <;> omega

theorem length_lead_le (path : List Char) : (lead path).length ≤ path.length := by
  unfold lead
  split <;> simp

/-- A parent is shorter than its path. -/
theorem length_parentOf?_lt {path parent : List Char} (found : parentOf? path = some parent) :
    parent.length < path.length := by
  have hlead := length_lead_le path
  unfold parentOf? at found
  split at found
  · split at found
    · rename_i leading
      rw [Option.some.injEq] at found
      rw [leading, List.length_singleton] at hlead
      rw [← found, List.length_nil]
      omega
    · exact absurd found (by simp)
  · rename_i nonempty
    rw [Option.some.injEq] at found
    have hbody : (body path).length ≤ path.length - (lead path).length := by
      have := length_strip_le (path.drop (lead path).length).reverse
      simpa [body] using this
    have hpos : 0 < (body path).length := List.length_pos_iff.mpr nonempty
    have hstrip := length_strip_le (((body path).dropWhile (· != '/')).drop 1)
    have hdrop := (List.dropWhile_suffix (l := body path) (· != '/')).length_le
    have hshort : (((body path).dropWhile (· != '/')).drop 1).length < (body path).length := by
      rw [List.length_drop]
      omega
    rw [← found, List.length_append, List.length_reverse]
    omega

/-- A parent is shorter than its path. -/
theorem length_parent?_lt {path parent : String} (found : parent? path = some parent) :
    parent.toList.length < path.toList.length := by
  simp only [parent?, Option.map_eq_some_iff] at found
  obtain ⟨shorter, hshorter, rfl⟩ := found
  simpa using length_parentOf?_lt hshorter

end JackTokens.Path
