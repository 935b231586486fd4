import JackTokens.Proofs.Boundaries
import JackTokens.Proofs.Uncommented
import Mathlib.Data.List.Induction

/-!
# What a cursor can fail of

A tokenizer advances its cursor by lengths of lexemes, in an order of its own. This module takes the order and the
lengths away: any operation may follow any other, and a number of bytes is any word of 64 bits.

**Faults.** `LineCursor.attempt` does what an operation does, with every check that a machine makes on the way: the
counter has a number for the line, the position is not behind the end of the line when it is subtracted from its
size, a sum is a word, and a text is cut between two characters. Blanks are passed here without a look at the size of
the line. Where no check fails, this is the operation of the cursor (`perform?_of_attempt`).

**One operation** keeps the position in the line (`Sound.attempt`), and the only check that can then fail is the last
one, when blanks are skipped (`Sound.attempt_eq_error_iff`).

**Where a position inside a character comes from** (`exists_advance`). Loading, clearing and beginning a file go to the
start of a line, skipping blanks ends between two characters, and what reaches beyond the end of the line is stopped
there. So it comes from an advance to exactly that position.

**The law** (`attemptAll_fault`) puts this together for all sequences of operations.
-/

namespace JackTokens

/-! ## Numbers of bytes that end inside a character -/

namespace Utf8

variable {text rest : List Char} {n : Nat}

/-- **A number of bytes ends inside a character** of a text. -/
def InsideCharacter (text : List Char) (n : Nat) : Prop :=
  ∃ passed c rest, text = passed ++ c :: rest ∧ size passed < n ∧ n < size passed + c.utf8Size

theorem InsideCharacter.lt_size (inside : InsideCharacter text n) : n < size text := by
  obtain ⟨passed, c, rest, rfl, -, before⟩ := inside
  rw [size_append, size_cons]
  omega

/-- **Where a text has nothing behind some bytes**: inside its characters, and beyond its end. -/
theorem dropBytes?_eq_none_iff : dropBytes? n text = none ↔ size text < n ∨ InsideCharacter text n := by
  constructor
  · intro missing
    fun_induction dropBytes? n text with
    | case1 text => cases missing
    | case2 n => exact .inl (Nat.succ_pos n)
    | case3 n c text fits ih =>
      rcases ih missing with beyond | ⟨passed, d, rest, rfl, behind, before⟩
      · refine .inl ?_
        rw [size_cons]
        omega
      · refine .inr ⟨c :: passed, d, rest, rfl, ?_, ?_⟩
        · rw [size_cons]
          omega
        · rw [size_cons]
          omega
    | case4 n c text short => exact .inr ⟨[], c, text, rfl, Nat.succ_pos n, by rw [size_nil]; omega⟩
  · intro apart
    cases dropped : dropBytes? n text with
    | none => rfl
    | some rest =>
      -- A piece of that size would have to end where the character begins, or behind it.
      obtain ⟨piece, whole, counted⟩ := eq_append_of_dropBytes? dropped
      rcases apart with beyond | ⟨passed, c, behind, split, after, before⟩
      · rw [whole, size_append] at beyond
        omega
      · rw [whole] at split
        rcases List.append_eq_append_iff.mp split with ⟨more, rfl, -⟩ | ⟨more, rfl, same⟩
        · rw [size_append] at after
          omega
        · cases more with
          | nil =>
            rw [List.append_nil] at counted
            omega
          | cons d more =>
            rw [List.cons_append, List.cons.injEq] at same
            rw [size_append, size_cons, ← same.1] at counted
            omega

theorem size_le_of_infix (part : rest <:+: text) : size rest ≤ size text := by
  obtain ⟨front, back, rfl⟩ := part
  rw [size_append, size_append]
  omega

end Utf8

/-! ## Lines that are kept -/

namespace Text

variable {text : List Char}

/-- **A text that is worth scanning**: something visible stands at both its ends, and it is no line comment. -/
structure Scannable (text : List Char) : Prop where
  nonempty : text ≠ []
  front : ∀ c ∈ text.head?, isBlank c = false
  back : ∀ c ∈ text.getLast?, isBlank c = false
  code : ¬ ['/', '/'] <+: text

theorem trimStart_suffix (text : List Char) : trimStart text <:+ text := List.dropWhile_suffix isBlank

theorem trim_infix (text : List Char) : trim text <:+: text := by
  obtain ⟨lead, trail, -, -, whole⟩ := exists_trim text
  exact ⟨lead, trail, by rw [List.append_assoc, ← whole]⟩

theorem head?_trim (text : List Char) : ∀ c ∈ (trim text).head?, isBlank c = false := by
  intro c front
  obtain ⟨trail, -, whole⟩ := exists_trimEnd (trimStart text)
  have first : (trimEnd (trimStart text)).head? = some c := front
  refine StopsAt.dropWhile isBlank text c ?_
  show (trimStart text).head? = some c
  rw [whole, List.head?_append, first]
  rfl

theorem getLast?_trim (text : List Char) : ∀ c ∈ (trim text).getLast?, isBlank c = false := by
  intro c back
  rw [trim, trimEnd, List.getLast?_reverse] at back
  exact StopsAt.dropWhile isBlank _ c back

/-- What stands behind the end of a comment is the end of the text. -/
theorem suffix_of_cutAt? {inside rest : List Char} (found : cutAt? '*' '/' text = some (inside, rest)) :
    rest <:+ text := by
  obtain ⟨piece, whole, -⟩ := Utf8.eq_append_of_dropBytes? (dropBytes?_cutAt? found)
  exact ⟨piece, whole.symm⟩

end Text

namespace LineCursor

variable {cursor next : LineCursor} {raw text : List Char}

/-- **What is kept of a text** that has been trimmed. -/
theorem keep_scannable (cursor : LineCursor) (front : ∀ c ∈ text.head?, Text.isBlank c = false)
    (back : ∀ c ∈ text.getLast?, Text.isBlank c = false) :
    (Text.Scannable text ∧ cursor.keep text = (start text cursor.line cursor.inBlockComment, true)) ∨
      cursor.keep text = (cursor, false) := by
  unfold keep
  split
  · exact .inr rfl
  · exact .inr rfl
  · rename_i nonempty uncommented
    refine .inl ⟨⟨nonempty, front, back, ?_⟩, rfl⟩
    rintro ⟨body, rfl⟩
    exact uncommented body rfl

/-- **What a load comes to**: a part of the line that is worth scanning, or nothing. -/
theorem load_scannable (cursor : LineCursor) (raw : List Char) :
    (∃ text, Text.Scannable text ∧ text <:+: raw ∧
      cursor.load raw = (start text (cursor.line + 1) false, true)) ∨
      ∃ inComment, cursor.load raw = (start [] (cursor.line + 1) inComment, false) := by
  cases inComment : cursor.inBlockComment with
  | false =>
    have loaded : cursor.load raw = (start [] (cursor.line + 1) false).keep (Text.trim raw) := by
      simp only [load, clear, inComment]
      rfl
    rcases keep_scannable (start [] (cursor.line + 1) false) (Text.head?_trim raw) (Text.getLast?_trim raw) with
      ⟨scannable, kept⟩ | unkept
    · exact .inl ⟨_, scannable, Text.trim_infix raw, loaded.trans kept⟩
    · exact .inr ⟨false, loaded.trans unkept⟩
  | true =>
    cases found : Text.cutAt? '*' '/' (Text.trim raw) with
    | none =>
      refine .inr ⟨true, ?_⟩
      simp only [load, clear, inComment, if_true, found]
      rfl
    | some cut =>
      obtain ⟨inside, rest⟩ := cut
      have loaded : cursor.load raw = (start [] (cursor.line + 1) false).keep (Text.trimStart rest) := by
        simp only [load, clear, inComment, if_true, found]
        rfl
      have suffix := (Text.trimStart_suffix rest).trans (Text.suffix_of_cutAt? found)
      have back : ∀ c ∈ (Text.trimStart rest).getLast?, Text.isBlank c = false := by
        intro c back
        refine Text.getLast?_trim raw c ?_
        obtain ⟨before, whole⟩ := suffix
        rw [← whole, List.getLast?_append, Option.mem_def.mp back]
        rfl
      rcases keep_scannable (start [] (cursor.line + 1) false) (Text.StopsAt.dropWhile _ rest) back with
        ⟨scannable, kept⟩ | unkept
      · exact .inl ⟨_, scannable, suffix.isInfix.trans (Text.trim_infix raw), loaded.trans kept⟩
      · exact .inr ⟨false, loaded.trans unkept⟩

/-! ## Operations and faults -/

/-- **What can be done with a cursor.** -/
inductive Operation where
  | load (raw : List Char)
  | beginFile (numbering : LineNumbering)
  | advance (count : UInt64)
  | skipBlank
  | enterBlockComment
  | clear
  deriving DecidableEq, Repr

/-- **What an operation can fail of.** -/
inductive Fault where
  /-- There is no number for another line. -/
  | counterSpent
  /-- The position is behind the end of the line. -/
  | underflow
  /-- A position is no word. -/
  | overflow
  /-- A text is cut inside a character, or behind its end. -/
  | noBoundary
  deriving DecidableEq, Repr

/-- How many numbers there are for positions. -/
def words : Nat := UInt64.size

/-- How many numbers there are for lines. -/
def lineNumbers : Nat := UInt32.size

/-- Is a line cut inside a character behind the end of a comment? -/
def cutsCharacter (cursor : LineCursor) (raw : List Char) : Bool :=
  match cursor.inBlockComment, Text.cutAt? '*' '/' (Text.trim raw) with
  | true, some (inside, _) => (Utf8.dropBytes? (Utf8.size inside + 2) (Text.trim raw)).isNone
  | _, _ => false

/-- At a position of the same line. -/
def moveTo (cursor : LineCursor) (position : Nat) : LineCursor :=
  { cursor with
    position := position
    remaining? := Utf8.dropBytes? position cursor.text
    remaining_eq := rfl }

/-- **An operation with all its checks**: the cursor behind it, and what it tells, or what it fails of. -/
def attempt (cursor : LineCursor) : Operation → Except Fault (LineCursor × Option Bool)
  | .load raw =>
    if lineNumbers ≤ cursor.line.toNat + 1 then .error .counterSpent
    else if cursor.cutsCharacter raw then .error .noBoundary
    else .ok ((cursor.load raw).1, some (cursor.load raw).2)
  | .beginFile numbering => .ok ((cursor.beginFile numbering).1, some (cursor.beginFile numbering).2)
  | .advance count =>
    if cursor.size < cursor.position then .error .underflow
    else if words ≤ cursor.position + min count.toNat (cursor.size - cursor.position) then .error .overflow
    else .ok (cursor.advance count.toNat, none)
  | .skipBlank =>
    match Utf8.dropBytes? cursor.position cursor.text with
    | none => .error .noBoundary
    | some rest =>
      let position := cursor.position + Utf8.size (rest.takeWhile Text.isBlank)
      if words ≤ position then .error .overflow else .ok (cursor.moveTo position, none)
  | .enterBlockComment => .ok (cursor.enterBlockComment, none)
  | .clear => .ok (cursor.clear, none)

/-- The same operation as the cursor has it. -/
def perform? (cursor : LineCursor) : Operation → Option (LineCursor × Option Bool)
  | .load raw => some ((cursor.load raw).1, some (cursor.load raw).2)
  | .beginFile numbering => some ((cursor.beginFile numbering).1, some (cursor.beginFile numbering).2)
  | .advance count => some (cursor.advance count.toNat, none)
  | .skipBlank => cursor.skipBlank?.map fun next => (next, none)
  | .enterBlockComment => some (cursor.enterBlockComment, none)
  | .clear => some (cursor.clear, none)

/-- **Operations one after the other**, up to the first that fails. -/
def attemptAll (cursor : LineCursor) : List Operation → Except Fault LineCursor
  | [] => .ok cursor
  | op :: ops =>
    match cursor.attempt op with
    | .error fault => .error fault
    | .ok (next, _) => next.attemptAll ops

/-- How many lines are loaded. -/
def loads (ops : List Operation) : Nat := ops.countP fun
  | .load _ => true
  | _ => false

variable {ops : List Operation} {op : Operation} {fault : Fault} {answer : Option Bool}

@[simp] theorem loads_append (first second : List Operation) : loads (first ++ second) = loads first + loads second :=
  List.countP_append

/-- **Operations are attempted one by one.** -/
theorem attemptAll_append (cursor : LineCursor) (first second : List Operation) :
    cursor.attemptAll (first ++ second) =
      (cursor.attemptAll first).bind fun reached => reached.attemptAll second := by
  induction first generalizing cursor with
  | nil => rfl
  | cons op first ih =>
    rw [List.cons_append, attemptAll, attemptAll]
    cases cursor.attempt op with
    | error fault => rfl
    | ok behind => exact ih behind.1

theorem attemptAll_concat_eq_ok_iff :
    cursor.attemptAll (ops ++ [op]) = .ok next ↔
      ∃ before answer, cursor.attemptAll ops = .ok before ∧ before.attempt op = .ok (next, answer) := by
  rw [attemptAll_append]
  cases cursor.attemptAll ops with
  | error fault => simp [Except.bind]
  | ok before =>
    cases attempted : before.attempt op with
    | error fault => simp [Except.bind, attemptAll, attempted]
    | ok behind => simp [Except.bind, attemptAll, attempted, Prod.ext_iff]

/-- **Operations fail at the first that fails.** -/
theorem attemptAll_eq_error_iff :
    cursor.attemptAll ops = .error fault ↔
      ∃ before op after reached, ops = before ++ op :: after ∧ cursor.attemptAll before = .ok reached ∧
        reached.attempt op = .error fault := by
  constructor
  · intro failed
    induction ops generalizing cursor with
    | nil => cases failed
    | cons op ops ih =>
      rw [attemptAll] at failed
      cases attempted : cursor.attempt op with
      | error cause =>
        rw [attempted] at failed
        cases failed
        exact ⟨[], op, ops, cursor, rfl, rfl, attempted⟩
      | ok behind =>
        rw [attempted] at failed
        obtain ⟨before, last, after, reached, rfl, earlier, failing⟩ := ih failed
        refine ⟨op :: before, last, after, reached, rfl, ?_, failing⟩
        rw [attemptAll, attempted]
        exact earlier
  · rintro ⟨before, op, after, reached, rfl, earlier, failing⟩
    rw [attemptAll_append, earlier]
    show reached.attemptAll (op :: after) = _
    rw [attemptAll, failing]

/-! ## One operation -/

/-- Passing bytes of the line goes to the position behind them. -/
theorem advance_eq_moveTo {count : Nat} (inside : count ≤ cursor.bytesLeft) :
    cursor.advance count = cursor.moveTo (cursor.position + count) := by
  have passed : min count cursor.bytesLeft = count := Nat.min_eq_left inside
  simp only [advance, moveTo, passed, behind?_eq]

/-- **Blanks are passed without a look at the size of the line.** -/
theorem skipBlank?_eq_moveTo {rest : List Char} (remaining : cursor.remaining? = some rest) :
    cursor.skipBlank? = some (cursor.moveTo (cursor.position + Utf8.size (rest.takeWhile Text.isBlank))) := by
  have counted := size_of_remaining? remaining
  have part := Utf8.size_le_of_infix (List.takeWhile_prefix (l := rest) Text.isBlank).isInfix
  rw [skipBlank?, remaining, Option.map_some, advance_eq_moveTo]
  simp only [bytesLeft]
  omega

/-- A cursor is inside a character where nothing remains to be read. -/
theorem remaining?_eq_none_iff (within : cursor.position ≤ cursor.size) :
    cursor.remaining? = none ↔ Utf8.InsideCharacter cursor.text cursor.position := by
  rw [cursor.size_eq] at within
  rw [cursor.remaining_eq, Utf8.dropBytes?_eq_none_iff]
  constructor
  · rintro (beyond | inside)
    · omega
    · exact inside
  · exact .inr

theorem cutsCharacter_eq_false (cursor : LineCursor) (raw : List Char) : cursor.cutsCharacter raw = false := by
  unfold cutsCharacter
  split
  · rename_i inside rest _ found
    rw [Text.dropBytes?_cutAt? found]
    rfl
  · rfl

/-- **An operation whose checks all pass** is that of the cursor. -/
theorem perform?_of_attempt (attempted : cursor.attempt op = .ok (next, answer)) :
    cursor.perform? op = some (next, answer) := by
  cases op with
  | load raw =>
    rw [LineCursor.attempt] at attempted
    split at attempted
    · cases attempted
    · split at attempted
      · cases attempted
      · cases attempted
        rfl
  | beginFile numbering =>
    cases attempted
    rfl
  | advance count =>
    rw [LineCursor.attempt] at attempted
    split at attempted
    · cases attempted
    · split at attempted
      · cases attempted
      · cases attempted
        rfl
  | skipBlank =>
    rw [LineCursor.attempt] at attempted
    split at attempted
    · cases attempted
    · rename_i rest dropped
      dsimp only at attempted
      split at attempted
      · cases attempted
      · cases attempted
        rw [perform?, skipBlank?_eq_moveTo (cursor.remaining_eq.trans dropped)]
        rfl
  | enterBlockComment =>
    cases attempted
    rfl
  | clear =>
    cases attempted
    rfl

/-- **A sound cursor** behind some operations: its position is in its line, its line was loaded, and its counter has
counted no more than the lines. -/
structure Sound (ops : List Operation) (cursor : LineCursor) : Prop where
  within : cursor.position ≤ cursor.size
  loaded : cursor.text = [] ∨ ∃ raw, .load raw ∈ ops ∧ cursor.text <:+: raw
  counted : cursor.line.toNat ≤ loads ops

theorem sound_fresh : fresh.Sound [] := ⟨Nat.le_refl 0, .inl rfl, Nat.le_refl 0⟩

/-- At the start of a line a cursor is sound. -/
theorem sound_start {line : UInt32} {inComment : Bool}
    (loaded : text = [] ∨ ∃ raw, .load raw ∈ ops ∧ text <:+: raw) (counted : line.toNat ≤ loads ops) :
    (start text line inComment).Sound ops := ⟨Nat.zero_le _, loaded, counted⟩

/-- The line of a sound cursor is held in words, if the lines that were loaded are. -/
theorem Sound.size_lt (sound : cursor.Sound ops) (held : ∀ raw, .load raw ∈ ops → Utf8.size raw < words) :
    cursor.size < words := by
  rw [cursor.size_eq]
  rcases sound.loaded with empty | ⟨raw, member, part⟩
  · rw [empty]
    decide
  · exact Nat.lt_of_le_of_lt (Utf8.size_le_of_infix part) (held raw member)

/-- **The line counter, the position and the sum are never the fault of an operation** on a sound cursor: it fails
only where blanks are skipped from inside a character. -/
theorem Sound.attempt_eq_error_iff (sound : cursor.Sound ops) (short : cursor.size < words)
    (few : loads (ops ++ [op]) < lineNumbers) :
    cursor.attempt op = .error fault ↔
      op = .skipBlank ∧ fault = .noBoundary ∧ Utf8.InsideCharacter cursor.text cursor.position := by
  rw [← remaining?_eq_none_iff sound.within]
  have within := sound.within
  cases op with
  | load raw =>
    have counter : ¬ lineNumbers ≤ cursor.line.toNat + 1 := by
      have counted := sound.counted
      rw [loads_append] at few
      have one : loads [.load raw] = 1 := rfl
      omega
    simp [attempt, counter, cutsCharacter_eq_false]
  | beginFile numbering => simp [attempt]
  | advance count =>
    have inside : ¬ cursor.size < cursor.position := by omega
    have word : ¬ words ≤ cursor.position + min count.toNat (cursor.size - cursor.position) := by omega
    simp [attempt, inside, word]
  | skipBlank =>
    rw [attempt, ← cursor.remaining_eq]
    cases remaining : cursor.remaining? with
    | none => simp [eq_comm]
    | some rest =>
      have counted := size_of_remaining? remaining
      have part := Utf8.size_le_of_infix (List.takeWhile_prefix (l := rest) Text.isBlank).isInfix
      have word : ¬ words ≤ cursor.position + Utf8.size (rest.takeWhile Text.isBlank) := by omega
      simp [word]
  | enterBlockComment => simp [attempt]
  | clear => simp [attempt]

/-- **An operation keeps a cursor sound.** -/
theorem Sound.attempt (sound : cursor.Sound ops) (attempted : cursor.attempt op = .ok (next, answer)) :
    next.Sound (ops ++ [op]) := by
  have earlier : cursor.text = [] ∨ ∃ raw, .load raw ∈ ops ++ [op] ∧ cursor.text <:+: raw :=
    sound.loaded.imp_right fun ⟨raw, member, part⟩ => ⟨raw, List.mem_append_left _ member, part⟩
  have counted : cursor.line.toNat ≤ loads (ops ++ [op]) := by
    have counted := sound.counted
    rw [loads_append]
    omega
  have passed : ∀ count, (cursor.advance count).Sound (ops ++ [op]) := by
    intro count
    refine ⟨?_, earlier, counted⟩
    have within := sound.within
    show cursor.position + min count (cursor.size - cursor.position) ≤ cursor.size
    omega
  have performed := perform?_of_attempt attempted
  cases op with
  | load raw =>
    cases performed
    have more : (cursor.line + 1).toNat ≤ loads (ops ++ [.load raw]) := by
      have counted := sound.counted
      have one : loads [.load raw] = 1 := rfl
      rw [UInt32.toNat_add, loads_append, one]
      exact Nat.le_trans (Nat.mod_le _ _) (Nat.add_le_add_right counted 1)
    rcases cursor.load_scannable raw with ⟨text, -, part, loaded⟩ | ⟨inComment, loaded⟩
    · rw [loaded]
      exact sound_start (.inr ⟨raw, List.mem_append_right _ (List.mem_singleton_self _), part⟩) more
    · rw [loaded]
      exact sound_start (.inl rfl) more
  | beginFile numbering =>
    cases performed
    refine sound_start (.inl rfl) ?_
    cases numbering with
    | global => exact counted
    | perFile => exact Nat.zero_le _
  | advance count =>
    cases performed
    exact passed count.toNat
  | skipBlank =>
    rw [perform?, skipBlank?, Option.map_map, Option.map_eq_some_iff] at performed
    obtain ⟨rest, -, same⟩ := performed
    cases same
    exact passed _
  | enterBlockComment =>
    cases performed
    exact ⟨sound.within, earlier, counted⟩
  | clear =>
    cases performed
    exact sound_start (.inl rfl) counted

/-- **Operations keep a cursor sound.** -/
theorem sound_of_attemptAll (attempted : fresh.attemptAll ops = .ok cursor) : cursor.Sound ops := by
  induction ops using List.reverseRecOn generalizing cursor with
  | nil =>
    cases attempted
    exact sound_fresh
  | append_singleton ops op ih =>
    obtain ⟨before, answer, earlier, last⟩ := attemptAll_concat_eq_ok_iff.mp attempted
    exact (ih earlier).attempt last

/-! ## Positions inside a character -/

/-- Only an advance leads into a character, or what was done inside of one before. -/
theorem Sound.insideCharacter_cases (sound : cursor.Sound ops) (attempted : cursor.attempt op = .ok (next, answer))
    (inside : Utf8.InsideCharacter next.text next.position) :
    (op = .enterBlockComment ∧ Utf8.InsideCharacter cursor.text cursor.position) ∨
      ∃ count, op = .advance count ∧ Utf8.InsideCharacter cursor.text (cursor.position + count.toNat) := by
  have atStart : ∀ text, ¬ Utf8.InsideCharacter text 0 := by
    rintro text ⟨passed, c, rest, -, behind, -⟩
    exact Nat.not_lt_zero _ behind
  have performed := perform?_of_attempt attempted
  cases op with
  | load raw =>
    cases performed
    rcases cursor.load_scannable raw with ⟨text, -, -, loaded⟩ | ⟨inComment, loaded⟩
    · rw [loaded] at inside
      exact absurd inside (atStart text)
    · rw [loaded] at inside
      exact absurd inside (atStart [])
  | beginFile numbering =>
    cases performed
    exact absurd inside (atStart [])
  | advance count =>
    cases performed
    refine .inr ⟨count, rfl, ?_⟩
    -- An advance that is stopped ends at the end of the line.
    have before : cursor.position + min count.toNat (cursor.size - cursor.position) < cursor.size := by
      have before := inside.lt_size
      rwa [← (cursor.advance count.toNat).size_eq] at before
    have whole : min count.toNat (cursor.size - cursor.position) = count.toNat := by omega
    have position : (cursor.advance count.toNat).position = cursor.position + count.toNat :=
      congrArg (cursor.position + ·) whole
    rw [position] at inside
    exact inside
  | skipBlank =>
    rw [perform?] at performed
    cases skipped : cursor.skipBlank? with
    | none =>
      rw [skipped] at performed
      cases performed
    | some behind =>
      rw [skipped] at performed
      cases performed
      obtain ⟨rest, remaining, -⟩ := Option.map_eq_some_iff.mp skipped
      rw [← remaining?_eq_none_iff (sound.attempt attempted).within, remaining?_skipBlank? remaining skipped] at inside
      cases inside
  | enterBlockComment =>
    cases performed
    exact .inl ⟨rfl, inside⟩
  | clear =>
    cases performed
    exact absurd inside (atStart [])

/-- **A position inside a character comes from an advance to it**, since when only comments were entered. -/
theorem exists_advance (attempted : fresh.attemptAll ops = .ok cursor)
    (inside : Utf8.InsideCharacter cursor.text cursor.position) :
    ∃ earlier count later before, ops = earlier ++ .advance count :: later ∧
      fresh.attemptAll earlier = .ok before ∧
      Utf8.InsideCharacter before.text (before.position + count.toNat) ∧
      ∀ op ∈ later, op = .enterBlockComment := by
  induction ops using List.reverseRecOn generalizing cursor with
  | nil =>
    cases attempted
    exact absurd inside.lt_size (Nat.lt_irrefl 0)
  | append_singleton ops op ih =>
    obtain ⟨before, answer, earlier, last⟩ := attemptAll_concat_eq_ok_iff.mp attempted
    rcases (sound_of_attemptAll earlier).insideCharacter_cases last inside with
      ⟨rfl, inside⟩ | ⟨count, rfl, inside⟩
    · obtain ⟨first, count, later, start, rfl, reached, target, entered⟩ := ih earlier inside
      refine ⟨first, count, later ++ [.enterBlockComment], start, by simp, reached, target, ?_⟩
      exact List.forall_mem_append.mpr ⟨entered, List.forall_mem_singleton.mpr rfl⟩
    · exact ⟨ops, count, [], before, rfl, earlier, inside, List.forall_mem_nil _⟩

/-- Where comments are entered the line and the position stay. -/
theorem attemptAll_enterBlockComment {later : List Operation} (entered : ∀ op ∈ later, op = .enterBlockComment)
    (cursor : LineCursor) :
    ∃ behind, cursor.attemptAll later = .ok behind ∧ behind.text = cursor.text ∧
      behind.position = cursor.position := by
  induction later generalizing cursor with
  | nil => exact ⟨cursor, rfl, rfl, rfl⟩
  | cons op later ih =>
    rw [List.forall_mem_cons] at entered
    obtain ⟨rfl, entered⟩ := entered
    exact ih entered cursor.enterBlockComment

/-! ## The law -/

/-- **Operations that a machine can be asked for**: there is a number for each line, and each line is held in
words. -/
structure Feasible (ops : List Operation) : Prop where
  few : loads ops < lineNumbers
  held : ∀ raw, .load raw ∈ ops → Utf8.size raw < words

theorem Feasible.of_append {first second : List Operation} (feasible : Feasible (first ++ second)) :
    Feasible first where
  few := by
    have few := feasible.few
    rw [loads_append] at few
    omega
  held raw member := feasible.held raw (List.mem_append_left second member)

/-- **What the next operation can fail of.** -/
theorem Feasible.attempt_eq_error_iff (feasible : Feasible (ops ++ [op]))
    (attempted : fresh.attemptAll ops = .ok cursor) :
    cursor.attempt op = .error fault ↔
      op = .skipBlank ∧ fault = .noBoundary ∧ Utf8.InsideCharacter cursor.text cursor.position := by
  have sound := sound_of_attemptAll attempted
  exact sound.attempt_eq_error_iff (sound.size_lt feasible.of_append.held) feasible.few

/-- Any other operation than skipping blanks is done. -/
theorem Feasible.exists_attempt (feasible : Feasible (ops ++ [op])) (other : op ≠ .skipBlank)
    (attempted : fresh.attemptAll ops = .ok cursor) :
    ∃ next answer, cursor.attempt op = .ok (next, answer) ∧ cursor.perform? op = some (next, answer) := by
  cases last : cursor.attempt op with
  | error fault => exact absurd ((feasible.attempt_eq_error_iff attempted).mp last).1 other
  | ok behind => exact ⟨behind.1, behind.2, rfl, perform?_of_attempt last⟩

/-- Blanks are not skipped behind an advance into a character. -/
theorem Feasible.attemptAll_eq_error {earlier later after : List Operation} {count : UInt64}
    (feasible : Feasible (earlier ++ .advance count :: (later ++ .skipBlank :: after)))
    (reached : fresh.attemptAll earlier = .ok cursor)
    (inside : Utf8.InsideCharacter cursor.text (cursor.position + count.toNat))
    (entered : ∀ op ∈ later, op = .enterBlockComment) :
    fresh.attemptAll (earlier ++ .advance count :: (later ++ .skipBlank :: after)) = .error .noBoundary := by
  rw [List.append_cons] at feasible
  obtain ⟨next, answer, advanced, performed⟩ := feasible.of_append.exists_attempt (by simp) reached
  cases performed
  obtain ⟨behind, comments, text, position⟩ := attemptAll_enterBlockComment entered (cursor.advance count.toNat)
  have target : behind.position = cursor.position + count.toNat := by
    have before := inside.lt_size
    rw [← cursor.size_eq] at before
    rw [position]
    show cursor.position + min count.toNat (cursor.size - cursor.position) = _
    omega
  have stuck : Utf8.dropBytes? behind.position behind.text = none := by
    rw [target, text]
    exact Utf8.dropBytes?_eq_none_iff.mpr (.inr inside)
  have fails : behind.attempt .skipBlank = .error .noBoundary := by
    rw [attempt, stuck]
  have first : fresh.attemptAll (earlier ++ .advance count :: later) = .ok behind := by
    rw [attemptAll_append, reached]
    show cursor.attemptAll (.advance count :: later) = _
    rw [attemptAll, advanced]
    exact comments
  refine attemptAll_eq_error_iff.mpr ⟨earlier ++ .advance count :: later, .skipBlank, after, behind, ?_, first, fails⟩
  simp

/-- **What a cursor can fail of**, whatever is done with it. What is done without a failure is the operation of the
cursor. Up to the first failure the position is never behind the end of the line, and the cursor is at its end exactly
if the position is the size of the line. A load never fails; if it tells that there is something to scan, the cursor
is at the start of a text that is worth scanning, outside a comment, and otherwise it holds no text. A sequence of
operations fails exactly if blanks are skipped inside a character, where an advance has led whose target was there; so
no number is ever too small or too large. -/
theorem attemptAll_fault (feasible : Feasible ops) :
    (∀ cursor op next answer, attempt cursor op = .ok (next, answer) → cursor.perform? op = some (next, answer)) ∧
    (∀ before after cursor, ops = before ++ after → fresh.attemptAll before = .ok cursor →
      cursor.position ≤ Utf8.size cursor.text ∧
        (cursor.atEnd = true ↔ cursor.position = Utf8.size cursor.text)) ∧
    (∀ before raw after cursor, ops = before ++ .load raw :: after → fresh.attemptAll before = .ok cursor →
      ∃ next kept, cursor.load raw = (next, kept) ∧ cursor.attempt (.load raw) = .ok (next, some kept) ∧
        (kept = true → next.position = 0 ∧ next.inBlockComment = false ∧ Text.Scannable next.text) ∧
        (kept = false → next.text = [])) ∧
    ∀ fault, fresh.attemptAll ops = .error fault ↔
      fault = .noBoundary ∧ ∃ earlier count later after cursor,
        ops = earlier ++ .advance count :: (later ++ .skipBlank :: after) ∧
        fresh.attemptAll earlier = .ok cursor ∧
        Utf8.InsideCharacter cursor.text (cursor.position + count.toNat) ∧
        ∀ op ∈ later, op = .enterBlockComment := by
  refine ⟨fun _ _ _ _ => perform?_of_attempt, ?_, ?_, fun fault => ⟨fun failed => ?_, ?_⟩⟩
  · rintro before after cursor - reached
    have within := (sound_of_attemptAll reached).within
    rw [cursor.size_eq] at within
    refine ⟨within, ?_⟩
    rw [atEnd, cursor.size_eq, decide_eq_true_iff]
    omega
  · rintro before raw after cursor rfl reached
    rw [List.append_cons] at feasible
    obtain ⟨next, answer, attempted, performed⟩ := feasible.of_append.exists_attempt (by simp) reached
    cases performed
    rcases cursor.load_scannable raw with ⟨text, scannable, -, loaded⟩ | ⟨inComment, loaded⟩
    · rw [loaded] at attempted
      exact ⟨_, _, loaded, attempted, fun _ => ⟨rfl, rfl, scannable⟩, fun unkept => by cases unkept⟩
    · rw [loaded] at attempted
      exact ⟨_, _, loaded, attempted, (fun kept => by cases kept), fun _ => rfl⟩
  · obtain ⟨before, op, after, cursor, rfl, reached, failing⟩ := attemptAll_eq_error_iff.mp failed
    rw [List.append_cons] at feasible
    obtain ⟨rfl, rfl, inside⟩ := (feasible.of_append.attempt_eq_error_iff reached).mp failing
    obtain ⟨earlier, count, later, start, rfl, first, target, entered⟩ := exists_advance reached inside
    exact ⟨rfl, earlier, count, later, after, start, by simp, first, target, entered⟩
  · rintro ⟨rfl, earlier, count, later, after, cursor, rfl, reached, inside, entered⟩
    exact feasible.attemptAll_eq_error reached inside entered

/-- The law at a line behind the end of a comment that begins with a character of two bytes: the line is kept without
the blanks around it, and an advance by one byte goes into the character. A comment may be entered there, but blanks
are not skipped. -/
theorem attemptAll_fault_accented :
    let raw := " x */ é y \n".toList
    let ops : List Operation := [.enterBlockComment, .load raw, .advance 1, .enterBlockComment, .skipBlank, .clear]
    Feasible ops ∧
      (∃ cursor, fresh.attemptAll [.enterBlockComment, .load raw] = .ok cursor ∧ cursor.text = "é y".toList ∧
        Text.Scannable cursor.text ∧ Utf8.InsideCharacter cursor.text (cursor.position + 1)) ∧
      fresh.attemptAll ops = .error .noBoundary := by
  intro raw ops
  have feasible : Feasible ops := by
    refine ⟨by decide, fun other member => ?_⟩
    have same : other = raw := by simpa [ops] using member
    rw [same]
    decide +kernel
  obtain ⟨-, -, loading, faults⟩ := attemptAll_fault feasible
  obtain ⟨cursor, answer, loaded, attempted, kept, -⟩ :=
    loading [.enterBlockComment] raw _ fresh.enterBlockComment rfl rfl
  have told : answer = true := by
    have second : (fresh.enterBlockComment.load raw).2 = answer := congrArg Prod.snd loaded
    rw [← second]
    decide +kernel
  obtain ⟨-, -, scannable⟩ := kept told
  have reached : fresh.attemptAll [.enterBlockComment, .load raw] = .ok cursor := by
    show fresh.enterBlockComment.attemptAll [.load raw] = _
    rw [attemptAll, attempted]
    rfl
  have first : cursor = (fresh.enterBlockComment.load raw).1 := (congrArg Prod.fst loaded).symm
  have text : cursor.text = "é y".toList := by
    rw [first]
    decide +kernel
  have inside : Utf8.InsideCharacter cursor.text (cursor.position + 1) := by
    have position : cursor.position = 0 := (kept told).1
    exact ⟨[], 'é', " y".toList, text, by rw [position]; decide, by rw [position]; decide⟩
  refine ⟨feasible, ⟨cursor, reached, text, scannable, inside⟩, ?_⟩
  exact (faults _).mpr ⟨rfl, _, 1, [.enterBlockComment], [.clear], cursor, rfl, reached, inside,
    List.forall_mem_singleton.mpr rfl⟩

end LineCursor

end JackTokens
