import JackTokens.Proofs.WrittenStrings
import JackTokens.Settings.Basic
import Mathlib.Data.List.Nodup

/-!
# Settings are read as they were written

A settings file is a plain document: lines with a name and a value each, first those of no section and then,
below an empty line and a header, those of each section. This module proves that every plain document is read
as what it was written from (`Toml.parse?_plain`), and then that settings are (`Settings.parse?_render`).

**Texts.** A line is read up to its end and leaves what follows as it is (`Reader.pairLine_text`). What stands
between a line and the next, or the header of the next section, is a gap, and reading always stands behind
one; so the lines and the sections are chains that meet behind gaps (`Reader.exists_chain_lines`,
`Reader.exists_chain_groups`).

**Tables.** A line adds its value, and a section its table, as long as the name is new
(`Entries.assignAll_pairs`, `Section.foldlM_place`). The names of a settings file are distinct, so nothing is
refused.

What is read differs from what was written in one point: an extension is read without its leading dots.
-/

namespace JackTokens

open Text (StopsAt)

namespace Toml

/-! ## Plain documents -/

/-- **A line of a document**: a name, how its value is spelled, and the value. -/
structure Line where
  name : String
  spelled : List Char
  value : Value

namespace Line

/-- The text of a line. -/
def text (line : Line) : List Char := Settings.line line.name line.spelled

/-- What a line says. -/
def pair (line : Line) : Pair := ⟨⟨[], line.name⟩, line.value⟩

/-- What a line adds to its table. -/
def entry (line : Line) : String × Value := (line.name, line.value)

end Line

/-- A name that needs no quotes. -/
structure IsBareName (name : String) : Prop where
  nonempty : name.toList ≠ []
  bare : ∀ c ∈ name.toList, Reader.isBare c = true

instance (name : String) : Decidable (IsBareName name) :=
  decidable_of_iff (name.toList ≠ [] ∧ name.toList.all Reader.isBare = true)
    ⟨fun ⟨nonempty, bare⟩ => ⟨nonempty, List.all_eq_true.mp bare⟩,
      fun ⟨nonempty, bare⟩ => ⟨nonempty, List.all_eq_true.mpr bare⟩⟩

/-- **A value is spelled by a text** if the text is read as the value wherever the line ends behind it. -/
structure Spells (spelled : List Char) (value : Value) : Prop where
  opens : StopsAt Reader.isBlank spelled
  read : ∀ rest, Reader.value Reader.nestingLimit (spelled ++ '\n' :: rest) = some (value, '\n' :: rest)

/-- A line that can be read. -/
structure Line.IsLegible (line : Line) : Prop where
  named : IsBareName line.name
  spells : Spells line.spelled line.value

/-- **A section of a document**: its name and its lines. -/
structure Group where
  name : String
  lines : List Line

namespace Group

/-- The text of a section: an empty line, the header, and the lines. -/
def text (group : Group) : List Char :=
  '\n' :: '[' :: (group.name.toList ++ (']' :: '\n' :: (group.lines.map Line.text).flatten))

/-- What a section says. -/
def part (group : Group) : Section := ⟨false, ⟨[], group.name⟩, group.lines.map Line.pair⟩

/-- What a section adds to the document. -/
def entry (group : Group) : String × Value := (group.name, .table .header (group.lines.map Line.entry))

/-- A section that can be read, and whose lines have distinct names. -/
structure IsLegible (group : Group) : Prop where
  named : IsBareName group.name
  legible : ∀ line ∈ group.lines, line.IsLegible
  distinct : (group.lines.map Line.name).Nodup

end Group

/-! ## Reading the text -/

namespace Reader

/-- A character that may stand in a gap. -/
def isGap (c : Char) : Bool := isBlank c || c == '\n' || c == '\r' || c == '#'

theorem isBare_of_isGap {c : Char} (inside : isGap c = true) : isBare c = false := by
  simp only [isGap, isBlank, Bool.or_eq_true, beq_iff_eq] at inside
  rcases inside with ((((rfl | rfl) | rfl) | rfl) | rfl) <;> rfl

/-- A name begins with nothing but a character of names. -/
theorem stopsAt_of_isBareName {name : String} (named : IsBareName name) {p : Char → Bool}
    (apart : ∀ c, p c = true → isBare c = false) (rest : List Char) : StopsAt p (name.toList ++ rest) := by
  obtain ⟨c, tail, spelled⟩ := List.exists_cons_of_ne_nil named.nonempty
  have front := named.bare c (spelled ▸ List.mem_cons_self)
  rw [spelled]
  refine .cons ?_ _
  rw [Bool.eq_false_iff]
  intro inside
  rw [apart c inside] at front
  cases front

theorem exactly_of_isBareName {name : String} (named : IsBareName name) {c : Char} (apart : isBare c = false)
    (rest : List Char) : exactly c (name.toList ++ rest) = none := by
  refine exactly_of_stop (stopsAt_of_isBareName named ?_ rest)
  intro d same
  rw [beq_iff_eq] at same
  rw [same]
  exact apart

theorem keyPart_of_isBareName {name : String} (named : IsBareName name) {rest behind : List Char}
    (stop : StopsAt isBare rest) (skipped : blanks rest = some ((), behind)) :
    keyPart (name.toList ++ rest) = some (name, behind) := by
  have part : run isBare (name.toList ++ rest) = some (name.toList, rest) := run_append named.bare stop
  have noBlank : StopsAt isBlank (name.toList ++ rest) :=
    stopsAt_of_isBareName named (fun c blank => isBare_of_isGap (by simp [isGap, blank])) rest
  refine (bind_of_some (blanks_of_stop noBlank)).trans ?_
  refine (bind_of_some (?_ : _ = some (name.toList, rest))).trans ?_
  · refine (orElse_of_none (bind_of_none (exactly_of_isBareName named rfl rest))).trans ?_
    refine (orElse_of_none (bind_of_none (exactly_of_isBareName named rfl rest))).trans ?_
    refine (bind_of_some part).trans ?_
    simp [named.nonempty]
    rfl
  · refine (bind_of_some skipped).trans ?_
    rw [String.ofList_toList]
    rfl

/-- **A name is read as a key.** Blanks may stand behind it, but no dot. -/
theorem key_of_isBareName {name : String} (named : IsBareName name) {rest behind : List Char}
    (stop : StopsAt isBare rest) (skipped : blanks rest = some ((), behind)) (noDot : StopsAt (· == '.') behind) :
    key (name.toList ++ rest) = some (⟨[], name⟩, behind) := by
  have parts : keyParts (name.toList ++ rest) = some ([name], behind) := by
    refine (bind_of_some (keyPart_of_isBareName named stop skipped)).trans ?_
    refine (bind_of_some (many_of_chain (.stop (bind_of_none (exactly_of_stop noDot))))).trans ?_
    rfl
  exact bind_of_some parts

/-- **A line is read up to its end.** -/
theorem pairLine_text {line : Line} (legible : line.IsLegible) (rest : List Char) :
    pairLine (line.text ++ rest) = some (line.pair, rest) := by
  have whole : line.text ++ rest = line.name.toList ++ ' ' :: '=' :: ' ' :: (line.spelled ++ '\n' :: rest) := by
    simp [Line.text, Settings.line]
  have opens : StopsAt isBlank (line.spelled ++ '\n' :: rest) := legible.spells.opens.append (.cons rfl rest)
  have skipped : blanks (' ' :: (line.spelled ++ '\n' :: rest)) = some ((), line.spelled ++ '\n' :: rest) := by
    have one : run isBlank ([' '] ++ (line.spelled ++ '\n' :: rest)) = some ([' '], line.spelled ++ '\n' :: rest) :=
      run_append (by simp [isBlank]) opens
    exact bind_of_some one
  rw [whole]
  refine (bind_of_some (?_ : _ = some (line.pair, '\n' :: rest))).trans rfl
  refine (bind_of_some (key_of_isBareName legible.named (.cons rfl _) rfl (.cons rfl _))).trans ?_
  refine (bind_of_some (a := ()) rfl).trans ?_
  refine (bind_of_some skipped).trans ?_
  refine (bind_of_some (legible.spells.read rest)).trans ?_
  rfl

/-- **A gap is skipped.** -/
structure Skips (text behind : List Char) : Prop where
  read : gap text = some ((), behind)
  length_le : behind.length ≤ text.length

theorem skips_of_stop {text : List Char} (stop : StopsAt isGap text) : Skips text text := by
  have noBlank : StopsAt isBlank text := stop.mono fun c inside => by simp [isGap, inside]
  have noBreak : StopsAt (fun c => c == '\n' || c == '\r') text := by
    refine stop.mono fun c inside => ?_
    simp only [isGap, Bool.or_assoc, Bool.or_eq_true] at inside ⊢
    tauto
  have noComment : StopsAt (· == '#') text := stop.mono fun c inside => by simp [isGap, inside]
  have refused : ((do let _ ← char isBlank) <|> newline <|> (comment *> lineEnd) : Reader Unit) text = none := by
    refine (orElse_of_none (bind_of_none (char_of_stop noBlank))).trans ?_
    refine (orElse_of_none (newline_of_stop noBreak)).trans ?_
    exact bind_of_none (bind_of_none (exactly_of_stop noComment))
  exact ⟨bind_of_some (many_of_chain (.stop refused)), Nat.le_refl _⟩

theorem stopsAt_text {line : Line} (legible : line.IsLegible) {p : Char → Bool}
    (apart : ∀ c, p c = true → isBare c = false) (rest : List Char) : StopsAt p (line.text ++ rest) := by
  rw [Line.text, Settings.line, List.append_assoc, List.append_assoc, List.append_assoc]
  exact stopsAt_of_isBareName legible.named apart _

/-- **Lines are read one after the other.** They begin behind a gap, and behind them there is the next. -/
theorem exists_chain_lines {lines : List Line} (legible : ∀ line ∈ lines, line.IsLegible) {rest behind : List Char}
    (skips : Skips rest behind) (refused : pairLine behind = none) :
    ∃ start, Skips ((lines.map Line.text).flatten ++ rest) start ∧
      Chain (pairLine <* gap) start (lines.map Line.pair) behind := by
  induction lines with
  | nil => exact ⟨behind, skips, .stop (bind_of_none refused)⟩
  | cons line lines ih =>
    rw [List.forall_mem_cons] at legible
    obtain ⟨start, skips, chain⟩ := ih legible.2
    have read := pairLine_text legible.1 ((lines.map Line.text).flatten ++ rest)
    have stop := stopsAt_text legible.1 (fun _ => isBare_of_isGap) ((lines.map Line.text).flatten ++ rest)
    have shorter : start.length < (line.text ++ ((lines.map Line.text).flatten ++ rest)).length := by
      have within := skips.length_le
      have nonempty : line.text.length ≠ 0 := by simp [Line.text, Settings.line]
      rw [List.length_append]
      omega
    rw [List.map_cons, List.flatten_cons, List.append_assoc]
    -- The gap behind a line is read with it, so the next line, or what follows the last, starts behind a gap.
    refine ⟨_, skips_of_stop stop, .next ?_ shorter chain⟩
    refine (bind_of_some read).trans ?_
    refine (bind_of_some skips.read).trans ?_
    rfl

theorem header_of_isBareName {name : String} (named : IsBareName name) (rest : List Char) :
    header ('[' :: (name.toList ++ ']' :: '\n' :: rest)) = some ((false, ⟨[], name⟩), rest) := by
  have single : word "[[" ('[' :: (name.toList ++ ']' :: '\n' :: rest)) = none := by
    obtain ⟨c, tail, spelled⟩ := List.exists_cons_of_ne_nil named.nonempty
    have other : '[' ≠ c := by
      rintro rfl
      cases named.bare '[' (spelled ▸ List.mem_cons_self)
    rw [spelled]
    simp [word, List.isPrefixOf, other]
  -- What follows the header on its line is only the line end.
  refine (bind_of_some (?_ : _ = some ((false, ⟨[], name⟩), '\n' :: rest))).trans rfl
  refine (orElse_of_none (bind_of_none single)).trans ?_
  refine (bind_of_some (a := ()) rfl).trans ?_
  refine (bind_of_some (key_of_isBareName named (.cons rfl _) rfl (.cons rfl _))).trans ?_
  rfl

/-- **Sections are read one after the other**, to the end of the text. -/
theorem exists_chain_groups {groups : List Group} (legible : ∀ group ∈ groups, group.IsLegible) :
    ∃ start, Skips (groups.map Group.text).flatten start ∧ pairLine start = none ∧
      Chain headed start (groups.map Group.part) [] := by
  induction groups with
  | nil => exact ⟨[], ⟨rfl, Nat.le_refl _⟩, rfl, .stop rfl⟩
  | cons group groups ih =>
    rw [List.forall_mem_cons] at legible
    obtain ⟨next, skips, refused, chain⟩ := ih legible.2
    obtain ⟨start, lines, pairs⟩ := exists_chain_lines legible.1.legible skips refused
    have whole : group.text ++ (groups.map Group.text).flatten = '\n' :: '[' :: (group.name.toList ++
        ']' :: '\n' :: ((group.lines.map Line.text).flatten ++ (groups.map Group.text).flatten)) := by
      simp [Group.text]
    rw [List.map_cons, List.flatten_cons, whole]
    refine ⟨_, ⟨rfl, by simp⟩, rfl, .next ?_ ?_ chain⟩
    · refine (bind_of_some (header_of_isBareName legible.1.named _)).trans ?_
      refine (bind_of_some lines.read).trans ?_
      refine (bind_of_some (many_of_chain pairs)).trans ?_
      rfl
    · have within := skips.length_le
      simp only [List.length_cons, List.length_append]
      omega

/-- **A plain document is read.** -/
theorem document_plain {lines : List Line} {groups : List Group} (legible : ∀ line ∈ lines, line.IsLegible)
    (grouped : ∀ group ∈ groups, group.IsLegible) :
    document ((lines.map Line.text).flatten ++ (groups.map Group.text).flatten) =
      some ((lines.map Line.pair, groups.map Group.part), []) := by
  obtain ⟨next, skips, refused, sections⟩ := exists_chain_groups grouped
  obtain ⟨start, skips, pairs⟩ := exists_chain_lines legible skips refused
  have unmarked : StopsAt (· == '\ufeff') ((lines.map Line.text).flatten ++ (groups.map Group.text).flatten) := by
    cases lines with
    | nil =>
      cases groups with
      | nil => exact .nil _
      | cons group groups => exact .cons rfl _
    | cons line lines =>
      rw [List.map_cons, List.flatten_cons, List.append_assoc]
      refine stopsAt_text (legible line List.mem_cons_self) ?_ _
      intro c mark
      rw [beq_iff_eq] at mark
      subst mark
      rfl
  refine (bind_of_some (orElse_of_none (map_of_none (exactly_of_stop unmarked)))).trans ?_
  refine (bind_of_some skips.read).trans ?_
  refine (bind_of_some (many_of_chain pairs)).trans ?_
  refine (bind_of_some (many_of_chain sections)).trans ?_
  rfl

end Reader

/-! ## Placing lines and sections -/

/-- A new key comes behind the others. -/
theorem Entries.amend_of_not_mem {key : String} {change : Option Value → Option Value} {entries : Entries}
    (new : key ∉ entries.map Prod.fst) :
    entries.amend key change = (change none).map fun value => entries ++ [(key, value)] := by
  induction entries with
  | nil => rfl
  | cons entry entries ih =>
    rw [List.map_cons, List.mem_cons, not_or] at new
    unfold amend
    rw [if_neg (by simpa using Ne.symm new.1), ih new.2, Option.map_map]
    rfl

/-- **Lines add their values**, if their names are new. -/
theorem Entries.assignAll_pairs {entries : Entries} {lines : List Line}
    (distinct : (entries.map Prod.fst ++ lines.map Line.name).Nodup) :
    assignAll .header entries (lines.map Line.pair) = some (entries ++ lines.map Line.entry) := by
  induction lines generalizing entries with
  | nil => simp [assignAll]
  | cons line lines ih =>
    have new : line.name ∉ entries.map Prod.fst := by
      intro old
      exact (List.nodup_cons.mp (List.nodup_middle.mp distinct)).1 (List.mem_append_left _ old)
    have added : assign .header entries line.pair = some (entries ++ [line.entry]) := amend_of_not_mem new
    have others : assignAll .header (entries ++ [line.entry]) (lines.map Line.pair) =
        some (entries ++ [line.entry] ++ lines.map Line.entry) := by
      refine ih ?_
      simpa [Line.entry] using distinct
    unfold assignAll at others ⊢
    rw [List.map_cons, List.foldlM_cons, added]
    refine others.trans ?_
    simp

/-- **Sections add their tables**, if their names are new. -/
theorem Section.foldlM_place {entries : Entries} {groups : List Group} (legible : ∀ group ∈ groups, group.IsLegible)
    (distinct : (entries.map Prod.fst ++ groups.map Group.name).Nodup) :
    (groups.map Group.part).foldlM Section.place entries = some (entries ++ groups.map Group.entry) := by
  induction groups generalizing entries with
  | nil => simp
  | cons group groups ih =>
    rw [List.forall_mem_cons] at legible
    have new : group.name ∉ entries.map Prod.fst := by
      intro old
      exact (List.nodup_cons.mp (List.nodup_middle.mp distinct)).1 (List.mem_append_left _ old)
    have table : Entries.assignAll .header [] (group.lines.map Line.pair) = some (group.lines.map Line.entry) := by
      refine Entries.assignAll_pairs ?_
      simpa using legible.1.distinct
    have added : Section.place entries group.part = some (entries ++ [group.entry]) := by
      refine (Entries.amend_of_not_mem new).trans ?_
      show ((Entries.assignAll .header [] (group.lines.map Line.pair)).map _).map _ = _
      rw [table]
      rfl
    have others : (groups.map Group.part).foldlM Section.place (entries ++ [group.entry]) =
        some (entries ++ [group.entry] ++ groups.map Group.entry) := by
      refine ih legible.2 ?_
      simpa [Group.entry] using distinct
    rw [List.map_cons, List.foldlM_cons, added]
    refine others.trans ?_
    simp

/-- **A plain document is read as what it was written from**, if no name comes twice. -/
theorem parse?_plain {lines : List Line} {groups : List Group} (legible : ∀ line ∈ lines, line.IsLegible)
    (grouped : ∀ group ∈ groups, group.IsLegible)
    (distinct : (lines.map Line.name ++ groups.map Group.name).Nodup) :
    parse? ((lines.map Line.text).flatten ++ (groups.map Group.text).flatten) =
      some (lines.map Line.entry ++ groups.map Group.entry) := by
  have names : (lines.map Line.entry).map Prod.fst = lines.map Line.name := by
    simp [Line.entry, Function.comp_def]
  have front : Entries.assignAll .header [] (lines.map Line.pair) = some (lines.map Line.entry) :=
    Entries.assignAll_pairs (List.nodup_append.mp distinct).1
  unfold parse?
  rw [Reader.document_plain legible grouped]
  show (do let entries ← Entries.assignAll .header [] (lines.map Line.pair)
           (groups.map Group.part).foldlM Section.place entries) = _
  rw [front]
  refine Section.foldlM_place grouped ?_
  rw [names]
  exact distinct

/-! ## Values -/

/-- A line with a string. -/
def Line.ofString (name text : String) : Line := ⟨name, written text.toList, .string text⟩

/-- A line with a truth value. -/
def Line.ofTruth (name : String) (value : Bool) : Line := ⟨name, Settings.truth value, .boolean value⟩

theorem spells_written (text : String) : Spells (written text.toList) (.string text) where
  opens := by
    unfold written
    cases Written.form text.toList <;> exact .cons rfl _
  read rest := by
    have read := Reader.string_written text.toList (.cons (c := '\n') rfl rest)
    rw [String.ofList_toList] at read
    exact Reader.orElse_of_some (Reader.orElse_of_some (Reader.map_of_some read))

theorem spells_truth (value : Bool) : Spells (Settings.truth value) (.boolean value) := by
  cases value with
  | false => exact ⟨.cons rfl _, fun rest => Reader.orElse_of_some rfl⟩
  | true => exact ⟨.cons rfl _, fun rest => Reader.orElse_of_some rfl⟩

theorem Line.isLegible_ofString {name : String} (named : IsBareName name) (text : String) :
    (ofString name text).IsLegible :=
  ⟨named, spells_written text⟩

theorem Line.isLegible_ofTruth {name : String} (named : IsBareName name) (value : Bool) :
    (ofTruth name value).IsLegible :=
  ⟨named, spells_truth value⟩

end Toml

/-! ## Settings -/

namespace Settings

open Toml (Line Group)

/-- The lines of settings that are in no section. -/
def frontLines (settings : Settings) : List Line := [.ofTruth "verbose" settings.verbose]

/-- The sections of settings. -/
def groups (settings : Settings) : List Group :=
  [⟨"tokenizer",
      [.ofString "extension" settings.tokenizer.extension,
        .ofString "line_numbering" settings.tokenizer.lineNumbering.name,
        .ofString "identifiers" settings.tokenizer.identifiers.name]⟩,
    ⟨"output", [.ofString "format" settings.output.format.name, .ofTruth "by_file" settings.output.byFile]⟩]

theorem render_eq (settings : Settings) :
    settings.render =
      (settings.frontLines.map Line.text).flatten ++ (settings.groups.map Group.text).flatten := by
  simp [render, frontLines, groups, Line.text, Line.ofString, Line.ofTruth, Group.text]

theorem isLegible_frontLines (settings : Settings) : ∀ line ∈ settings.frontLines, line.IsLegible := by
  rw [frontLines, List.forall_mem_singleton]
  exact Line.isLegible_ofTruth (by decide) _

theorem isLegible_groups (settings : Settings) : ∀ group ∈ settings.groups, group.IsLegible := by
  rw [groups, List.forall_mem_cons, List.forall_mem_singleton]
  constructor
  · have named : Toml.IsBareName "tokenizer" := by decide
    have distinct : ["extension", "line_numbering", "identifiers"].Nodup := by decide
    refine ⟨named, ?_, distinct⟩
    rw [List.forall_mem_cons, List.forall_mem_cons, List.forall_mem_singleton]
    exact ⟨Line.isLegible_ofString (by decide) _, Line.isLegible_ofString (by decide) _,
      Line.isLegible_ofString (by decide) _⟩
  · have named : Toml.IsBareName "output" := by decide
    have distinct : ["format", "by_file"].Nodup := by decide
    refine ⟨named, ?_, distinct⟩
    rw [List.forall_mem_cons, List.forall_mem_singleton]
    exact ⟨Line.isLegible_ofString (by decide) _, Line.isLegible_ofTruth (by decide) _⟩

/-- Settings without the dots before their extension. -/
def undotted (settings : Settings) : Settings :=
  { settings with tokenizer := settings.tokenizer.withExtension settings.tokenizer.extension }

theorem ofEntries?_entries (settings : Settings) :
    ofEntries? (settings.frontLines.map Line.entry ++ settings.groups.map Group.entry) =
      some settings.undotted := by
  obtain ⟨verbose, ⟨extension, numbering, identifiers⟩, ⟨format, byFile⟩⟩ := settings
  cases numbering <;> cases identifiers <;> cases format <;> rfl

/-- **Settings are read as they were written**, but for the dots before the extension. -/
@[simp] theorem parse?_render (settings : Settings) : parse? settings.render = some settings.undotted := by
  have distinct : (settings.frontLines.map Line.name ++ settings.groups.map Group.name).Nodup := by
    show ["verbose", "tokenizer", "output"].Nodup
    decide
  unfold parse?
  rw [render_eq, Toml.parse?_plain settings.isLegible_frontLines settings.isLegible_groups distinct]
  exact ofEntries?_entries settings

end Settings

end JackTokens
