/-!
# Cutting a text

Two ways to cut: at every occurrence of one character (`splitAt`, for paths and for dumped lines),
and at the first occurrence of a marker of two characters (`cutAt?`, for the end of a block
comment).
-/

namespace JackTokens.Text

/-- The parts of a text between the occurrences of a separator: one more part than there are
separators, and each part free of them. -/
def splitAt (separator : Char) : List Char → List (List Char)
  | [] => [[]]
  | c :: text =>
    if c = separator then [] :: splitAt separator text
    else
      match splitAt separator text with
      | [] => [[c]]
      | part :: parts => (c :: part) :: parts

/-! ### Parts of a text -/

theorem splitAt_ne_nil (separator : Char) (text : List Char) : splitAt separator text ≠ [] := by
  fun_cases splitAt separator text <;> simp

/-- Cut at a separator, a text falls into the parts before it and the parts behind it. -/
theorem splitAt_append (separator : Char) (first second : List Char) :
    splitAt separator (first ++ separator :: second) =
      splitAt separator first ++ splitAt separator second := by
  induction first with
  | nil => simp [splitAt]
  | cons c first ih =>
    rw [List.cons_append, splitAt, splitAt, ih]
    split
    · rfl
    · obtain ⟨part, parts, cut⟩ := List.exists_cons_of_ne_nil (splitAt_ne_nil separator first)
      rw [cut]
      rfl

theorem splitAt_of_not_mem {separator : Char} {part : List Char} (single : separator ∉ part) :
    splitAt separator part = [part] := by
  induction part with
  | nil => rfl
  | cons c part ih =>
    rw [List.mem_cons, not_or] at single
    rw [splitAt, if_neg (Ne.symm single.1), ih single.2]

/-- A text in which a separator stands behind each of some parts, and nothing else, is cut into the parts;
nothing is left behind the last. -/
theorem splitAt_flatten {separator : Char} {parts : List (List Char)}
    (single : ∀ part ∈ parts, separator ∉ part) :
    splitAt separator (parts.map (· ++ [separator])).flatten = parts ++ [[]] := by
  induction parts with
  | nil => rfl
  | cons part parts ih =>
    rw [List.map_cons, List.flatten_cons, List.append_assoc, List.singleton_append, splitAt_append,
      splitAt_of_not_mem (single part List.mem_cons_self),
      ih fun other member => single other (List.mem_cons_of_mem _ member)]
    rfl

/-! ### Markers -/

/-- Searches for the marker `a`, `b` behind what has been passed already, the latest first. -/
def cutAtAfter? (a b : Char) (passed : List Char) : List Char → Option (List Char × List Char)
  | [] => none
  | c :: text =>
    match text with
    | [] => none
    | d :: rest =>
      if c = a ∧ d = b then some (passed.reverse, rest)
      else cutAtAfter? a b (c :: passed) text

/-- What stands before and what stands behind the first occurrence of the marker `a`, `b`. -/
def cutAt? (a b : Char) (text : List Char) : Option (List Char × List Char) :=
  cutAtAfter? a b [] text

end JackTokens.Text
