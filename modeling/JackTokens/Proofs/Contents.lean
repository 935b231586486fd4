import JackTokens.LineCursor
import JackTokens.Proofs.Front

/-!
# The contents of a line

What a line amounts to is a list: the lexemes found one after the other, with the blanks between them
passed over (`contents`). The list is what is left when positions, lengths and the cursor are forgotten,
and everything a run does with a line follows from it: which tokens it yields, and whether it leaves a
block comment open.

**The induction** (`lexemeInduction`). A text is blank, or it is blanks, a lexeme, and a text behind them.
Proofs about lines go by this induction and by cases on `Front`; the two equations of `contents`
(`contents_of_blank`, `contents_append`) say what happens in each case.

**Blanks around a line do not matter** (`contents_trim`). A cursor trims what it loads, before and behind
the end of a comment; the list is the same without any trimming, so the theory speaks of raw lines only.

A line may begin inside a block comment. `codeOf` is the part of it that is not comment, and there is none
where the whole line is.
-/

namespace JackTokens

/-! ## Blank texts -/

namespace Text

/-- **A blank text**: blanks and nothing else. -/
def Blank (text : List Char) : Prop := ∀ c ∈ text, isBlank c = true

theorem Blank.nil : Blank [] := by
  intro c member
  cases member

theorem Blank.newline : Blank ['\n'] := by
  intro c member
  cases List.mem_singleton.mp member
  rfl

theorem Blank.space : Blank [' '] := by
  intro c member
  cases List.mem_singleton.mp member
  rfl

theorem Blank.append {first second : List Char} (before : Blank first) (after : Blank second) :
    Blank (first ++ second) := by
  intro c member
  rcases List.mem_append.mp member with early | late
  · exact before c early
  · exact after c late

/-- Where a class stops, it still stops with blanks behind, if it has none itself. -/
theorem StopsAt.append_blank {p : Char → Bool} {rest trail : List Char} (stop : StopsAt p rest)
    (apart : ∀ c, isBlank c = true → p c = false) (blank : Blank trail) : StopsAt p (rest ++ trail) := by
  apply stop.append
  intro c front
  exact apart c (blank c (List.mem_of_mem_head? front))

/-- A text without the second character of a marker completes none. -/
theorem not_infix_append {a b : Char} {text trail : List Char} (unmarked : ¬ [a, b] <:+: text)
    (without : b ∉ trail) : ¬ [a, b] <:+: text ++ trail := by
  induction text with
  | nil => exact fun marked => without (marked.subset (by simp))
  | cons c text ih =>
    cases text with
    | nil =>
      cases trail with
      | nil => exact unmarked
      | cons d trail =>
        rw [List.singleton_append, marker_infix_cons_cons]
        rintro (⟨-, rfl⟩ | marked)
        · exact without List.mem_cons_self
        · exact without (marked.subset (by simp))
    | cons d text =>
      rw [marker_infix_cons_cons, not_or] at unmarked
      rw [List.cons_append, List.cons_append, marker_infix_cons_cons]
      rintro (front | marked)
      · exact unmarked.1 front
      · exact ih unmarked.2 marked

theorem Blank.not_mem {text : List Char} (blank : Blank text) {c : Char} (visible : isBlank c = false) :
    c ∉ text := by
  intro member
  rw [blank c member] at visible
  cases visible

/-- A text is blank at its front, and what is left is empty or starts with another character. -/
theorem blank_cases (text : List Char) :
    Blank text ∨ ∃ run c rest, Blank run ∧ isBlank c = false ∧ text = run ++ c :: rest := by
  have whole := (List.takeWhile_append_dropWhile : text.takeWhile isBlank ++ text.dropWhile isBlank = text)
  have blank : Blank (text.takeWhile isBlank) := fun c member =>
    List.all_eq_true.mp List.all_takeWhile c member
  cases behind : text.dropWhile isBlank with
  | nil =>
    rw [behind, List.append_nil] at whole
    exact .inl (whole ▸ blank)
  | cons c rest =>
    rw [behind] at whole
    have stop := StopsAt.dropWhile isBlank text
    rw [behind] at stop
    exact .inr ⟨_, c, rest, blank, stop c rfl, whole.symm⟩

theorem trimStart_append {run rest : List Char} (blank : Blank run) (stop : StopsAt isBlank rest) :
    trimStart (run ++ rest) = rest := dropWhile_append_stop blank stop

theorem trimStart_of_blank {run : List Char} (blank : Blank run) : trimStart run = [] := by
  have trimmed := trimStart_append blank (.nil isBlank)
  rwa [List.append_nil] at trimmed

theorem exists_trimStart (text : List Char) : ∃ lead, Blank lead ∧ text = lead ++ trimStart text := by
  refine ⟨text.takeWhile isBlank, fun c member => ?_, List.takeWhile_append_dropWhile.symm⟩
  exact List.all_eq_true.mp List.all_takeWhile c member

theorem exists_trimEnd (text : List Char) : ∃ trail, Blank trail ∧ text = trimEnd text ++ trail := by
  obtain ⟨lead, blank, split⟩ := exists_trimStart text.reverse
  refine ⟨lead.reverse, fun c member => blank c (List.mem_reverse.mp member), ?_⟩
  rw [trimEnd, ← List.reverse_append]
  exact List.reverse_eq_iff.mp split

theorem exists_trim (text : List Char) :
    ∃ lead trail, Blank lead ∧ Blank trail ∧ text = lead ++ (trim text ++ trail) := by
  obtain ⟨lead, before, first⟩ := exists_trimStart text
  obtain ⟨trail, after, second⟩ := exists_trimEnd (trimStart text)
  exact ⟨lead, trail, before, after, by rw [trim, ← second, ← first]⟩

end Text

/-! ## One lexeme after the other -/

/-- What is left behind some bytes has a piece of that size in front of it. -/
theorem Utf8.eq_append_of_dropBytes? {n : Nat} {text rest : List Char}
    (dropped : dropBytes? n text = some rest) : ∃ piece, text = piece ++ rest ∧ size piece = n := by
  fun_induction dropBytes? n text with
  | case1 text =>
    cases dropped
    exact ⟨[], rfl, rfl⟩
  | case2 => cases dropped
  | case3 n c text fits ih =>
    obtain ⟨piece, rfl, counted⟩ := ih dropped
    refine ⟨c :: piece, rfl, ?_⟩
    rw [size_cons]
    omega
  | case4 => cases dropped

@[simp] theorem Utf8.dropBytes?_append (piece rest : List Char) :
    dropBytes? (size piece) (piece ++ rest) = some rest := by
  induction piece with
  | nil => simp
  | cons c piece ih =>
    have some := c.utf8Size_pos
    obtain ⟨n, grown⟩ : ∃ n, c.utf8Size + size piece = n + 1 := ⟨c.utf8Size + size piece - 1, by omega⟩
    have left : n + 1 - c.utf8Size = size piece := by omega
    rw [size_cons, List.cons_append, grown, dropBytes?, if_pos (by omega), left, ih]

theorem length_behind_lexeme {rule : IdentifierRule} {text : List Char} {lexeme : Lexeme}
    (found : classify rule (Text.trimStart text) = some lexeme) :
    ((Utf8.dropBytes? lexeme.length (Text.trimStart text)).getD []).length < text.length := by
  have positive := classify_length_pos found
  obtain ⟨lead, -, split⟩ := Text.exists_trimStart text
  have whole := congrArg List.length split
  rw [List.length_append] at whole
  cases dropped : Utf8.dropBytes? lexeme.length (Text.trimStart text) with
  | none =>
    cases trimmed : Text.trimStart text with
    | nil =>
      rw [trimmed] at found
      cases rule <;> cases found
    | cons c rest =>
      rw [trimmed] at whole
      simp only [Option.getD_none, List.length_nil, List.length_cons] at *
      omega
  | some rest =>
    obtain ⟨piece, cut, counted⟩ := Utf8.eq_append_of_dropBytes? dropped
    have nonempty : piece ≠ [] := by
      rintro rfl
      rw [Utf8.size_nil] at counted
      omega
    have shorter := List.length_pos_iff.mpr nonempty
    rw [cut, List.length_append] at whole
    simp only [Option.getD_some]
    omega

/-- **The contents of a line**: the lexemes from its front to its end, and the blanks passed over. -/
def contents (rule : IdentifierRule) (text : List Char) : List Content :=
  match _ : classify rule (Text.trimStart text) with
  | none => []
  | some lexeme =>
    lexeme.content ::
      contents rule ((Utf8.dropBytes? lexeme.length (Text.trimStart text)).getD [])
termination_by text.length
decreasing_by exact length_behind_lexeme (by assumption)

theorem contents_of_blank (rule : IdentifierRule) {text : List Char} (blank : Text.Blank text) :
    contents rule text = [] := by
  have none : classify rule [] = none := by cases rule <;> rfl
  rw [contents]
  split
  · rfl
  · rename_i lexeme found
    rw [Text.trimStart_of_blank blank, none] at found
    cases found

/-- Behind blanks and a lexeme, the contents are those of the text behind. -/
theorem contents_append {rule : IdentifierRule} {run piece rest : List Char} {content : Content}
    (blank : Text.Blank run) (front : Front rule content piece rest) :
    contents rule (run ++ (piece ++ rest)) = content :: contents rule rest := by
  have trimmed : Text.trimStart (run ++ (piece ++ rest)) = piece ++ rest := by
    obtain ⟨c, tail, rfl, visible⟩ := front.head
    exact Text.trimStart_append blank (.cons visible (tail ++ rest))
  rw [contents]
  split
  · rename_i found
    rw [trimmed, classify_front front] at found
    cases found
  · rename_i lexeme found
    rw [trimmed, classify_front front] at found
    cases found
    rw [trimmed, Utf8.dropBytes?_append]
    rfl

/-- **Induction over lexemes.** A property of blank texts, and of blanks and a lexeme in front of a text
that has it, holds of every text. -/
theorem lexemeInduction (rule : IdentifierRule) {motive : List Char → Prop}
    (blank : ∀ run, Text.Blank run → motive run)
    (lexeme : ∀ run content piece rest, Text.Blank run → Front rule content piece rest → motive rest →
      motive (run ++ (piece ++ rest)))
    (text : List Char) : motive text := by
  rcases Text.blank_cases text with none | ⟨run, c, behind, before, visible, split⟩
  · exact blank text none
  · obtain ⟨content, piece, rest, cut, front⟩ := exists_front rule visible behind
    have shorter : rest.length < text.length := by
      obtain ⟨d, tail, rfl, -⟩ := front.head
      rw [split, cut]
      simp
      omega
    rw [split, cut]
    exact lexeme run content piece rest before front (lexemeInduction rule blank lexeme rest)
termination_by text.length

/-! ## Blanks around a line -/

/-- With blanks behind the text a lexeme stays what it is: it stops where it stopped, or it is a comment
that reaches to the end of the text and takes the blanks as well. -/
theorem Front.append_blank {rule : IdentifierRule} {content : Content} {piece rest trail : List Char}
    (front : Front rule content piece rest) (blank : Text.Blank trail) :
    Front rule content piece (rest ++ trail) ∨ rest = [] ∧ Front rule content (piece ++ trail) [] := by
  cases front with
  | word first inside stop =>
    exact .inl (.word first inside
      (stop.append_blank (fun c => rule.continues_eq_false_of_isBlank) blank))
  | string _ closed => exact .inl (.string (rest ++ trail) closed)
  | integer digit inside stop =>
    exact .inl (.integer digit inside
      (stop.append_blank (fun c => Text.isDigit_eq_false_of_isBlank) blank))
  | lineComment body => exact .inr ⟨rfl, .lineComment (body ++ trail)⟩
  | blockComment _ first => exact .inl (.blockComment (rest ++ trail) first)
  | openBlockComment unclosed =>
    exact .inr ⟨rfl, .openBlockComment (Text.not_infix_append unclosed (blank.not_mem rfl))⟩
  | @symbol c _ lone =>
    refine .inl (.symbol ⟨lone.visible, lone.noWord, lone.noDigit, fun quote => ?_, fun slash => ?_⟩)
    · rw [List.mem_append, not_or]
      exact ⟨lone.noString quote, blank.not_mem rfl⟩
    · cases rest with
      | cons d rest => exact lone.noComment slash
      | nil =>
        intro d member
        have behind := blank d (List.mem_of_mem_head? member)
        constructor <;> rintro rfl <;> cases behind

/-- Blanks behind a line do not matter. -/
theorem contents_append_blank (rule : IdentifierRule) {trail : List Char} (blank : Text.Blank trail)
    (text : List Char) : contents rule (text ++ trail) = contents rule text := by
  induction text using lexemeInduction rule with
  | blank run none => rw [contents_of_blank rule (none.append blank), contents_of_blank rule none]
  | lexeme run content piece rest before front ih =>
    rw [contents_append before front, List.append_assoc, List.append_assoc]
    rcases front.append_blank blank with longer | ⟨rfl, longer⟩
    · rw [contents_append before longer, ih]
    · rw [List.nil_append, ← List.append_nil (piece ++ trail), contents_append before longer]

theorem contents_blank_append (rule : IdentifierRule) {lead : List Char} (blank : Text.Blank lead)
    (text : List Char) : contents rule (lead ++ text) = contents rule text := by
  induction text using lexemeInduction rule with
  | blank run none => rw [contents_of_blank rule (blank.append none), contents_of_blank rule none]
  | lexeme run content piece rest before front ih =>
    rw [contents_append before front, ← List.append_assoc, contents_append (blank.append before) front]

/-- **Trimming does not matter.** -/
@[simp] theorem contents_trim (rule : IdentifierRule) (raw : List Char) :
    contents rule (Text.trim raw) = contents rule raw := by
  obtain ⟨lead, trail, before, after, split⟩ := Text.exists_trim raw
  symm
  calc contents rule raw
      = contents rule (lead ++ (Text.trim raw ++ trail)) := congrArg (contents rule) split
    _ = contents rule (Text.trim raw ++ trail) := contents_blank_append rule before _
    _ = contents rule (Text.trim raw) := contents_append_blank rule after _

@[simp] theorem contents_trimStart (rule : IdentifierRule) (raw : List Char) :
    contents rule (Text.trimStart raw) = contents rule raw := by
  obtain ⟨lead, before, split⟩ := Text.exists_trimStart raw
  exact (contents_blank_append rule before _).symm.trans (congrArg (contents rule) split.symm)

/-! ## Lines and open comments -/

theorem Text.not_infix_blank_append {a b : Char} (visible : isBlank a = false) {lead text : List Char}
    (blank : Blank lead) (unmarked : ¬ [a, b] <:+: text) : ¬ [a, b] <:+: lead ++ text := by
  induction lead with
  | nil => exact unmarked
  | cons c lead ih =>
    have later := ih fun d member => blank d (List.mem_cons_of_mem c member)
    rw [List.cons_append, List.infix_cons_iff, List.cons_prefix_cons]
    rintro (⟨rfl, -⟩ | marked)
    · exact blank.not_mem visible List.mem_cons_self
    · exact later marked

/-- **Trimming does not hide the end of a comment**: it is found in the trimmed line if it is found at
all, and what stands behind it loses blanks only. -/
theorem cutAt?_trim (raw : List Char) :
    Text.cutAt? '*' '/' (Text.trim raw) = none ∧ Text.cutAt? '*' '/' raw = none ∨
      ∃ before rest trail, Text.cutAt? '*' '/' (Text.trim raw) = some (before, rest) ∧
        Text.Blank trail ∧ ∃ inside, Text.cutAt? '*' '/' raw = some (inside, rest ++ trail) := by
  obtain ⟨lead, trail, before, after, split⟩ := Text.exists_trim raw
  rcases Text.marker_cases '*' '/' (Text.trim raw) with unmarked | ⟨inside, rest, cut, first⟩
  · refine .inl ⟨Text.cutAt?_of_unmarked unmarked, ?_⟩
    rw [split]
    refine Text.cutAt?_of_unmarked (Text.not_infix_blank_append rfl before ?_)
    exact Text.not_infix_append unmarked (after.not_mem rfl)
  · refine .inr ⟨inside, rest, trail, ?_, after, lead ++ inside, ?_⟩
    · rw [cut]
      exact Text.cutAt?_append first rest
    · have earliest : ¬ ['*', '/'] <:+: (lead ++ inside) ++ ['*'] := by
        rw [List.append_assoc]
        exact Text.not_infix_blank_append rfl before first
      have whole : raw = (lead ++ inside) ++ '*' :: '/' :: (rest ++ trail) := by
        rw [split, cut]
        simp
      rw [whole]
      exact Text.cutAt?_append earliest (rest ++ trail)

/-- The part of a line that is not comment: all of it, or what stands behind the end of the open comment.
There is none where the comment does not end. -/
def codeOf (inComment : Bool) (raw : List Char) : Option (List Char) :=
  if inComment then (Text.cutAt? '*' '/' raw).map Prod.snd else some raw

theorem codeOf_suffix {inComment : Bool} {raw code : List Char} (found : codeOf inComment raw = some code) :
    code <:+ raw := by
  cases inComment with
  | false =>
    cases found
    exact List.suffix_refl raw
  | true =>
    rw [codeOf, if_pos rfl] at found
    rcases Text.marker_cases '*' '/' raw with unmarked | ⟨inside, rest, rfl, first⟩
    · rw [Text.cutAt?_of_unmarked unmarked] at found
      cases found
    · rw [Text.cutAt?_append first] at found
      cases found
      exact ⟨inside ++ ['*', '/'], by simp⟩

/-- **What a line amounts to**, given whether it begins inside a block comment. -/
def lineContents (rule : IdentifierRule) (inComment : Bool) (raw : List Char) : List Content :=
  match codeOf inComment raw with
  | some code => contents rule code
  | none => []

/-- Does a line leave a block comment open? -/
def leavesOpen (rule : IdentifierRule) (inComment : Bool) (raw : List Char) : Bool :=
  match codeOf inComment raw with
  | some code => (contents rule code).contains (.discard .openBlockComment)
  | none => true

/-- The token a lexeme yields, if it yields one. -/
def Content.kind? : Content → Option Kind
  | .token kind => some kind
  | .discard _ => none

/-- Tokens yield themselves. -/
@[simp] theorem filterMap_kind?_token (kinds : List Kind) :
    (kinds.map Content.token).filterMap Content.kind? = kinds := by
  rw [List.filterMap_map]
  exact List.filterMap_some

theorem filterMap_kind?_cons (content : Content) (found : List Content) :
    (content :: found).filterMap Content.kind? =
      content.kind?.toList ++ found.filterMap Content.kind? := by
  cases content <;> rfl

/-- **The tokens of a line**, in order. -/
def lineKinds (rule : IdentifierRule) (inComment : Bool) (raw : List Char) : List Kind :=
  (lineContents rule inComment raw).filterMap Content.kind?

/-- **The tokens of some lines**, line by line. -/
def kindsByLine (rule : IdentifierRule) : Bool → List (List Char) → List (List Kind)
  | _, [] => []
  | inComment, raw :: lines =>
    lineKinds rule inComment raw :: kindsByLine rule (leavesOpen rule inComment raw) lines

@[simp] theorem length_kindsByLine (rule : IdentifierRule) (inComment : Bool) (lines : List (List Char)) :
    (kindsByLine rule inComment lines).length = lines.length := by
  induction lines generalizing inComment with
  | nil => rfl
  | cons raw lines ih => rw [kindsByLine, List.length_cons, List.length_cons, ih]

/-- Behind some lines the next ones begin inside a comment if those have left one open. -/
theorem kindsByLine_append (rule : IdentifierRule) (inComment : Bool) (first second : List (List Char)) :
    kindsByLine rule inComment (first ++ second) =
      kindsByLine rule inComment first ++
        kindsByLine rule (first.foldl (leavesOpen rule) inComment) second := by
  induction first generalizing inComment with
  | nil => rfl
  | cons raw first ih =>
    rw [List.cons_append, kindsByLine, ih, kindsByLine, List.cons_append, List.foldl_cons]

theorem codeOf_append_blank {trail : List Char} (blank : Text.Blank trail) (inComment : Bool)
    (raw : List Char) : codeOf inComment (raw ++ trail) = (codeOf inComment raw).map (· ++ trail) := by
  cases inComment with
  | false => rfl
  | true =>
    rw [codeOf, codeOf, if_pos rfl, if_pos rfl]
    rcases Text.marker_cases '*' '/' raw with unmarked | ⟨inside, rest, rfl, first⟩
    · have longer := Text.not_infix_append unmarked (blank.not_mem rfl)
      rw [Text.cutAt?_of_unmarked unmarked, Text.cutAt?_of_unmarked longer]
      rfl
    · rw [List.append_assoc, List.cons_append, List.cons_append, Text.cutAt?_append first,
        Text.cutAt?_append first]
      rfl

theorem lineKinds_append_blank (rule : IdentifierRule) {trail : List Char} (blank : Text.Blank trail)
    (inComment : Bool) (raw : List Char) :
    lineKinds rule inComment (raw ++ trail) = lineKinds rule inComment raw := by
  rw [lineKinds, lineKinds, lineContents, lineContents, codeOf_append_blank blank]
  cases codeOf inComment raw with
  | none => rfl
  | some code => simp only [Option.map_some, contents_append_blank rule blank]

theorem leavesOpen_append_blank (rule : IdentifierRule) {trail : List Char} (blank : Text.Blank trail)
    (inComment : Bool) (raw : List Char) :
    leavesOpen rule inComment (raw ++ trail) = leavesOpen rule inComment raw := by
  rw [leavesOpen, leavesOpen, codeOf_append_blank blank]
  cases codeOf inComment raw with
  | none => rfl
  | some code => simp only [Option.map_some, contents_append_blank rule blank]

end JackTokens
