import JackTokens.Proofs.Run

/-!
# Writing a stream down again

A stream of tokens forgets blanks and comments. What is left can be written down in a canonical way: on
each line the spellings of the tokens of that line, with one space between them. Reading the result gives
the stream back, token by token and line by line.

**The law** (`tokenizeAll_rendering`) holds of streams that a run has yielded, not of all streams. A space
keeps words, numbers and slashes apart, but it does not keep two quotation marks from making a string of
what is between them. That a line of a stream never has such a pair is the invariant behind the law
(`Renderable`): a quotation mark is a symbol only where no other follows it on the line, and every later
token of the line is spelled with characters that follow it.

A rendering may end with or without a newline and may have empty lines behind the last token
(`IsRendering`). `render` is one, with a newline behind each line and no line too many.
-/

namespace JackTokens

open Tokenizer (numbered placed textStream textTokens)

/-! ## What survives on a line -/

theorem Front.unpaired {rule : IdentifierRule} {piece rest : List Char}
    (front : Front rule (.token (.symbol '"')) piece rest) : '"' ∉ rest := by
  generalize same : Content.token (.symbol '"') = content at front
  cases front with
  | word _ _ _ =>
    unfold wordKind at same
    split at same <;> cases same
  | string _ _ => cases same
  | integer _ _ _ => cases same
  | lineComment _ => cases same
  | blockComment _ _ => cases same
  | openBlockComment _ => cases same
  | symbol lone =>
    cases same
    exact lone.noString rfl

/-- **The tokens of a line can be written down** with spaces between them: each is a lexeme by itself, and
behind a quotation mark there is no other. -/
inductive Renderable (rule : IdentifierRule) : List Kind → Prop
  | nil : Renderable rule []
  | cons {kind : Kind} {kinds : List Kind} : Front rule (.token kind) kind.spelling [] →
      (kind = .symbol '"' → ∀ later ∈ kinds, '"' ∉ later.spelling) → Renderable rule kinds →
      Renderable rule (kind :: kinds)

/-- Tokens are spelled with characters of the text they were found in. -/
theorem mem_of_mem_spelling (rule : IdentifierRule) (text : List Char) :
    ∀ kind ∈ (contents rule text).filterMap Content.kind?, ∀ c ∈ kind.spelling, c ∈ text := by
  induction text using lexemeInduction rule with
  | blank run none =>
    rw [contents_of_blank rule none]
    exact List.forall_mem_nil _
  | lexeme run content piece rest before front ih =>
    intro kind member c spelled
    rw [contents_append before front, filterMap_kind?_cons] at member
    rw [List.mem_append, List.mem_append]
    rcases List.mem_append.mp member with here | later
    · cases content with
      | token found =>
        cases List.mem_singleton.mp here
        rw [front.eq_spelling rfl]
        exact .inr (.inl spelled)
      | discard _ => cases here
    · exact .inr (.inr (ih kind later c spelled))

/-- **What has been found in a text can be written down.** -/
theorem renderable_contents (rule : IdentifierRule) (text : List Char) :
    Renderable rule ((contents rule text).filterMap Content.kind?) := by
  induction text using lexemeInduction rule with
  | blank run none =>
    rw [contents_of_blank rule none]
    exact .nil
  | lexeme run content piece rest before front ih =>
    rw [contents_append before front, filterMap_kind?_cons]
    cases content with
    | discard _ => exact ih
    | token kind =>
      have spelling := front.eq_spelling rfl
      refine .cons (spelling ▸ front.alone) (fun quote later member paired => ?_) ih
      subst quote
      -- What is spelled later on the line is made of characters of `rest`.
      exact front.unpaired (mem_of_mem_spelling rule rest later member _ paired)

/-! ## One line -/

/-- **A line of a rendering**: spellings, with one space between them. -/
def renderLine (kinds : List Kind) : List Char := [' '].intercalate (kinds.map Kind.spelling)

@[simp] theorem renderLine_singleton (kind : Kind) : renderLine [kind] = kind.spelling := by
  simp [renderLine]

theorem renderLine_cons_cons (kind next : Kind) (kinds : List Kind) :
    renderLine (kind :: next :: kinds) = kind.spelling ++ ' ' :: renderLine (next :: kinds) := by
  simp [renderLine, List.intercalate]

theorem mem_renderLine {kinds : List Kind} {c : Char} (member : c ∈ renderLine kinds) :
    c = ' ' ∨ ∃ kind ∈ kinds, c ∈ kind.spelling := by
  match kinds with
  | [] => cases member
  | [kind] =>
    rw [renderLine_singleton] at member
    exact .inr ⟨kind, List.mem_cons_self, member⟩
  | kind :: next :: kinds =>
    rw [renderLine_cons_cons, List.mem_append, List.mem_cons] at member
    rcases member with here | space | later
    · exact .inr ⟨kind, List.mem_cons_self, here⟩
    · exact .inl space
    · rcases mem_renderLine later with space | ⟨other, among, spelled⟩
      · exact .inl space
      · exact .inr ⟨other, List.mem_cons_of_mem kind among, spelled⟩

/-- **Reading a line of a rendering** gives its tokens back, and nothing else. -/
theorem contents_renderLine {rule : IdentifierRule} {kinds : List Kind} (sound : Renderable rule kinds) :
    contents rule (renderLine kinds) = kinds.map .token := by
  induction sound with
  | nil => exact contents_of_blank rule .nil
  | @cons kind kinds front unpaired _ ih =>
    cases kinds with
    | nil =>
      have alone := contents_append .nil front
      rwa [List.nil_append, List.append_nil, contents_of_blank rule .nil, ← renderLine_singleton] at alone
    | cons next kinds =>
      have apart : kind = .symbol '"' → '"' ∉ renderLine (next :: kinds) := by
        intro quote member
        rcases mem_renderLine member with space | ⟨later, among, spelled⟩
        · cases space
        · exact unpaired quote later among spelled
      have read := contents_append .nil (front.before_blank (w := ' ') rfl apart)
      rw [List.nil_append, ← List.singleton_append, contents_blank_append rule Text.Blank.space, ih] at read
      rw [renderLine_cons_cons]
      exact read

/-- **The tokens of a line of a rendering** are those it was made of, and no comment is left open. -/
theorem lineKinds_renderLine {rule : IdentifierRule} {kinds : List Kind} (sound : Renderable rule kinds) :
    lineKinds rule false (renderLine kinds) = kinds ∧ leavesOpen rule false (renderLine kinds) = false := by
  have read := contents_renderLine sound
  constructor
  · rw [lineKinds, lineContents, codeOf, if_neg Bool.false_ne_true]
    simp only [read, filterMap_kind?_token]
  · rw [leavesOpen, codeOf, if_neg Bool.false_ne_true]
    simp only [read]
    simp

/-! ## All lines -/

/-- The tokens of a stream that are on a line. -/
def kindsOn (stream : List (Kind × Nat)) (line : Nat) : List Kind :=
  (stream.filter fun token => token.2 == line).map Prod.fst

/-- A physical line that holds a text: the text, with or without a newline behind it. -/
def Text.LineHolds (line body : List Char) : Prop := line = body ∨ line = body ++ ['\n']

/-- **A text is a rendering of a stream**: each physical line holds the rendering of the tokens on it, and
there are enough lines for all tokens. -/
structure IsRendering (stream : List (Kind × Nat)) (text : List Char) : Prop where
  line : ∀ {k : Nat} {line : List Char}, (Text.lines text)[k]? = some line →
    Text.LineHolds line (renderLine (kindsOn stream (k + 1)))
  enough : ∀ token ∈ stream, token.2 ≤ (Text.lines text).length

/-- A rendering with a newline behind each line, up to the last line that has a token. -/
def render (stream : List (Kind × Nat)) : List Char :=
  let last := (stream.map Prod.snd).max?.getD 0
  (List.range last).flatMap fun k => renderLine (kindsOn stream (k + 1)) ++ ['\n']

theorem Text.LineHolds.exists_trail {line body : List Char} (holds : LineHolds line body) :
    ∃ trail, Blank trail ∧ line = body ++ trail := by
  rcases holds with rfl | rfl
  · exact ⟨[], .nil, (List.append_nil _).symm⟩
  · exact ⟨['\n'], .newline, rfl⟩

theorem Text.exists_lineHolds {text line : List Char} (member : line ∈ lines text) :
    ∃ body, '\n' ∉ body ∧ LineHolds line body := by
  induction text using linesInduction with
  | nil => cases member
  | last body oneLine nonempty =>
    rw [lines_of_not_mem oneLine nonempty, List.mem_singleton] at member
    exact ⟨body, oneLine, .inl member⟩
  | line body rest oneLine ih =>
    rw [lines_append_newline oneLine, List.mem_cons] at member
    rcases member with rfl | later
    · exact ⟨body, oneLine, .inr rfl⟩
    · exact ih later

/-- **The tokens of rendered lines**, line by line. -/
theorem kindsByLine_rendering {rule : IdentifierRule} {lines : List (List Char)} {kindsAt : Nat → List Kind}
    (sound : ∀ k, Renderable rule (kindsAt k))
    (rendered : ∀ (k : Nat) (line : List Char), lines[k]? = some line →
      Text.LineHolds line (renderLine (kindsAt k))) {k : Nat} (inside : k < lines.length) :
    (kindsByLine rule false lines)[k]? = some (kindsAt k) := by
  induction lines generalizing kindsAt k with
  | nil => cases inside
  | cons first lines ih =>
    obtain ⟨trail, blank, rfl⟩ := (rendered 0 first rfl).exists_trail
    obtain ⟨kinds, closed⟩ := lineKinds_renderLine (sound 0)
    rw [kindsByLine, lineKinds_append_blank rule blank, leavesOpen_append_blank rule blank, kinds, closed]
    cases k with
    | zero => rfl
    | succ k =>
      exact ih (fun k => sound (k + 1)) (fun k => rendered (k + 1)) (Nat.lt_of_succ_lt_succ inside)

/-- **What the lines of a text yield can be written down**, and without a newline. -/
theorem renderable_kindsByLine {rule : IdentifierRule} {inComment : Bool} {lines : List (List Char)}
    (physical : ∀ line ∈ lines, ∃ body, '\n' ∉ body ∧ Text.LineHolds line body) :
    ∀ kinds ∈ kindsByLine rule inComment lines, Renderable rule kinds ∧ '\n' ∉ renderLine kinds := by
  induction lines generalizing inComment with
  | nil => exact List.forall_mem_nil _
  | cons line lines ih =>
    rw [List.forall_mem_cons] at physical
    refine List.forall_mem_cons.mpr ⟨?_, ih physical.2⟩
    obtain ⟨body, oneLine, holds⟩ := physical.1
    obtain ⟨trail, blank, rfl⟩ := holds.exists_trail
    rw [lineKinds_append_blank rule blank, lineKinds, lineContents]
    cases found : codeOf inComment body with
    | none => exact ⟨.nil, List.not_mem_nil⟩
    | some code =>
      refine ⟨renderable_contents rule code, fun newline => ?_⟩
      rcases mem_renderLine newline with space | ⟨kind, member, spelled⟩
      · cases space
      · exact oneLine ((codeOf_suffix found).subset (mem_of_mem_spelling rule code kind member _ spelled))

/-! ## Streams that were put down line by line -/

@[simp] theorem kindsOn_append (first second : List (Kind × Nat)) (line : Nat) :
    kindsOn (first ++ second) line = kindsOn first line ++ kindsOn second line := by
  rw [kindsOn, List.filter_append, List.map_append, ← kindsOn, ← kindsOn]

theorem kindsOn_eq_nil {stream : List (Kind × Nat)} {line : Nat}
    (none : ∀ token ∈ stream, token.2 ≠ line) : kindsOn stream line = [] := by
  rw [kindsOn, List.map_eq_nil_iff, List.filter_eq_nil_iff]
  intro token member
  rw [beq_iff_eq]
  exact none token member

@[simp] theorem kindsOn_map (kinds : List Kind) (line : Nat) :
    kindsOn (kinds.map fun kind => (kind, line)) line = kinds := by
  have all : ∀ token ∈ kinds.map fun kind => (kind, line), (token.2 == line) = true := by
    intro token member
    obtain ⟨kind, -, rfl⟩ := List.mem_map.mp member
    exact beq_self_eq_true line
  rw [kindsOn, List.filter_eq_self.mpr all, List.map_map]
  exact List.map_id kinds

theorem lt_of_mem_placed {line : Nat} {kinds : List (List Kind)} {token : Kind × Nat}
    (member : token ∈ placed line kinds) : line < token.2 := by
  induction kinds generalizing line with
  | nil => cases member
  | cons first rest ih =>
    rcases List.mem_append.mp member with here | later
    · obtain ⟨kind, -, rfl⟩ := List.mem_map.mp here
      exact Nat.lt_succ_self line
    · exact Nat.lt_of_succ_lt (ih later)

/-- **What stands on a line** of a stream that was put down line by line. -/
theorem kindsOn_placed (line : Nat) (kinds : List (List Kind)) (k : Nat) :
    kindsOn (placed line kinds) (line + k + 1) = (kinds[k]?).getD [] := by
  induction kinds generalizing line k with
  | nil => rfl
  | cons first rest ih =>
    rw [placed, kindsOn_append]
    cases k with
    | zero =>
      have later : ∀ token ∈ placed (line + 1) rest, token.2 ≠ line + 1 := fun token member =>
        Nat.ne_of_gt (lt_of_mem_placed member)
      rw [Nat.add_zero, kindsOn_map, kindsOn_eq_nil later, List.append_nil]
      rfl
    | succ k =>
      have moved : line + (k + 1) + 1 = line + 1 + k + 1 := by omega
      have earlier : ∀ token ∈ first.map fun kind => (kind, line + 1), token.2 ≠ line + 1 + k + 1 := by
        intro token member
        obtain ⟨kind, -, rfl⟩ := List.mem_map.mp member
        exact Nat.ne_of_lt (by omega)
      rw [moved, kindsOn_eq_nil earlier, List.nil_append, ih]
      rfl

theorem numbered_of_empty {line : UInt32} {kinds : List (List Kind)}
    (empty : ∀ k : Nat, (kinds[k]?).getD [] = []) : numbered line kinds = [] := by
  induction kinds generalizing line with
  | nil => rfl
  | cons first kinds ih =>
    have here : first = [] := empty 0
    rw [numbered, here, ih fun k => empty (k + 1)]
    rfl

/-- So it does not matter how many of them follow the last token. -/
theorem numbered_congr {line : UInt32} {kinds others : List (List Kind)}
    (same : ∀ k : Nat, (kinds[k]?).getD [] = (others[k]?).getD []) :
    numbered line kinds = numbered line others := by
  induction kinds generalizing line others with
  | nil => rw [numbered_of_empty fun k => (same k).symm, numbered]
  | cons first kinds ih =>
    cases others with
    | nil => rw [numbered_of_empty same, numbered]
    | cons other others =>
      have here : first = other := same 0
      rw [numbered, numbered, here, ih fun k => same (k + 1)]

/-! ## The law -/

theorem lines_flatMap {bodies : List Nat} {bodyAt : Nat → List Char} (oneLine : ∀ k, '\n' ∉ bodyAt k) :
    Text.lines (bodies.flatMap fun k => bodyAt k ++ ['\n']) = bodies.map fun k => bodyAt k ++ ['\n'] := by
  induction bodies with
  | nil => rfl
  | cons k bodies ih =>
    rw [List.flatMap_cons, List.append_assoc, List.singleton_append,
      Text.lines_append_newline (oneLine k), ih, List.map_cons]

/-- **There is a rendering**, if no token is spelled with a newline. -/
theorem isRendering_render {stream : List (Kind × Nat)}
    (oneLine : ∀ k, '\n' ∉ renderLine (kindsOn stream (k + 1))) : IsRendering stream (render stream) where
  line := by
    intro k line found
    rw [render, lines_flatMap oneLine, List.getElem?_map, Option.map_eq_some_iff] at found
    obtain ⟨j, inside, rfl⟩ := found
    obtain ⟨_, rfl⟩ := List.getElem?_eq_some_iff.mp inside
    rw [List.getElem_range]
    exact .inr rfl
  enough := by
    intro token member
    rw [render, lines_flatMap oneLine, List.length_map, List.length_range]
    exact List.le_max?_getD_of_mem (List.mem_map_of_mem member)

theorem kindsOn_textStream (rule : IdentifierRule) (text : List Char) (k : Nat) :
    kindsOn (textStream rule text) (k + 1) = ((kindsByLine rule false (Text.lines text))[k]?).getD [] := by
  have standing := kindsOn_placed 0 (kindsByLine rule false (Text.lines text)) k
  rwa [Nat.zero_add] at standing

theorem renderable_textStream (rule : IdentifierRule) (text : List Char) (k : Nat) :
    Renderable rule (kindsOn (textStream rule text) (k + 1)) ∧
      '\n' ∉ renderLine (kindsOn (textStream rule text) (k + 1)) := by
  have physical : ∀ line ∈ Text.lines text, ∃ body, '\n' ∉ body ∧ Text.LineHolds line body :=
    fun line => Text.exists_lineHolds
  rw [kindsOn_textStream]
  cases found : (kindsByLine rule false (Text.lines text))[k]? with
  | none => exact ⟨.nil, List.not_mem_nil⟩
  | some kinds => exact renderable_kindsByLine physical kinds (List.mem_of_getElem? found)

/-- **Reading a rendering** of what a text yields gives the same tokens on the same lines. -/
theorem textTokens_rendering {rule : IdentifierRule} {text again : List Char}
    (rendering : IsRendering (textStream rule text) again) :
    textTokens rule 0 again = textTokens rule 0 text := by
  refine numbered_congr fun k => ?_
  rw [← kindsOn_textStream rule text k]
  by_cases inside : k < (Text.lines again).length
  · rw [kindsByLine_rendering (fun k => (renderable_textStream rule text k).1)
      (fun k line => rendering.line) inside]
    rfl
  · -- Behind the last line of the rendering there is no token left.
    have beyond : (kindsByLine rule false (Text.lines again))[k]? = none := by
      rw [List.getElem?_eq_none_iff, length_kindsByLine]
      omega
    rw [beyond, kindsOn_eq_nil]
    · rfl
    · intro token member
      have inRange := rendering.enough token member
      omega

/-- **Reading a rendering gives the stream back.** What a run has yielded, over a file with fewer lines than
the counter can count, has a rendering; and a run over any rendering of it, in any place and under any
policies with the same identifiers, yields the same tokens on the same lines. -/
theorem tokenizeAll_rendering (policy : Policy) {tree : FileTree} {path : String} {text : List Char}
    (readable : tree.readText path = .ok text) (few : (Text.lines text).length < UInt32.size) :
    ∃ final, (Tokenizer.ofQueue policy [path]).tokenizeAll tree = (final, .ok final.tokens) ∧
      let stream := final.tokens.toList.map Token.located
      IsRendering stream (render stream) ∧
      ∀ (policy' : Policy) (tree' : FileTree) (path' : String) (again : List Char),
        policy'.identifiers = policy.identifiers → IsRendering stream again →
        tree'.readText path' = .ok again →
        ∃ final', (Tokenizer.ofQueue policy' [path']).tokenizeAll tree' = (final', .ok final'.tokens) ∧
          final'.tokens = final.tokens := by
  obtain ⟨final, ran, tokens⟩ := Tokenizer.tokenizeAll_single policy readable
  have located : final.tokens.toList.map Token.located =
      textStream policy.identifiers text := by
    rw [tokens, Tokenizer.located_textTokens_zero _ few]
  refine ⟨final, ran, ?_⟩
  intro stream
  rw [show stream = _ from located]
  refine ⟨isRendering_render fun k => (renderable_textStream policy.identifiers text k).2, ?_⟩
  intro policy' tree' path' again same rendering readable'
  obtain ⟨final', ran', tokens'⟩ := Tokenizer.tokenizeAll_single policy' readable'
  refine ⟨final', ran', Array.toList_inj.mp ?_⟩
  rw [tokens', tokens, same, textTokens_rendering rendering]

/-- A text without blanks where a rendering has spaces, with a string that looks like a comment, an empty
line, a comment with a quotation mark in it, and a quotation mark without a partner. -/
def denseText : List Char := "7x\"//\"/ *\n\n/*\"*//\"y".toList

/-- The same tokens as a rendering has them. -/
def spacedText : List Char := "7 x \"//\" / *\n\n/ \" y\n".toList

/-- The law at a text that is dense. -/
theorem tokenizeAll_rendering_denseText :
    let tree := FileTree.ofTexts [("A.jack", denseText), ("B.jack", spacedText)]
    tree.readText "A.jack" = .ok denseText ∧ (Text.lines denseText).length < UInt32.size ∧
      tree.readText "B.jack" = .ok spacedText ∧
      ∃ final final', (Tokenizer.ofQueue {} ["A.jack"]).tokenizeAll tree = (final, .ok final.tokens) ∧
        render (final.tokens.toList.map Token.located) = spacedText ∧
        (Tokenizer.ofQueue {} ["B.jack"]).tokenizeAll tree = (final', .ok final'.tokens) ∧
        final'.tokens = final.tokens := by
  intro tree
  have readable : tree.readText "A.jack" = .ok denseText := rfl
  have few : (Text.lines denseText).length < UInt32.size := by decide
  have readable' : tree.readText "B.jack" = .ok spacedText := rfl
  obtain ⟨final, ran, rendering, again⟩ := tokenizeAll_rendering {} readable few
  obtain ⟨same, alike, tokens⟩ := Tokenizer.tokenizeAll_single {} readable
  cases (Prod.mk.inj (ran.symm.trans alike)).1
  have written : render (final.tokens.toList.map Token.located) = spacedText := by
    rw [tokens]
    decide +kernel
  rw [written] at rendering
  obtain ⟨final', ran', equal⟩ := again {} tree "B.jack" spacedText rfl rendering readable'
  exact ⟨readable, few, readable', final, final', ran, written, ran', equal⟩

end JackTokens
