import JackTokens.Proofs.Front
import JackTokens.Toml.Document
import JackTokens.Toml.Written

/-!
# Strings are read as they were written

A string is written in one of four forms, and a reader tries the four forms in an order of its own. This module
proves that the two fit: whatever characters a text has, what is written for it is read as the text, and the
reader stops right behind it (`Reader.string_written`).

**Readers.** A reader is a function on the text that is left. Where it is put together from others, what it does is
known from what they do (`bind_of_some`, `orElse_of_none`, ...); a repetition is known from the chain of its items,
the last of which is refused (`Chain`, `many_of_chain`).

**One character at a time.** Between double quotes each character stands for itself or for its escape, and one
reading of a character takes exactly that (`basicChar_escape?`, `isBasic_of_escape?_eq_none`).

**Quotes inside.** Between three quotes, quotes stand unescaped as long as no three follow each other, and they
are read in runs, not one by one. A run that ends the string is read together with the closing quotes. `Spread`
describes such a body along its characters, with the number of quotes right before each; both forms with three
quotes are of this kind, and one induction reads them (`Spread.exists_chain`).
-/

namespace JackTokens.Toml

open Text (StopsAt)

namespace Reader

/-! ## Readers put together -/

section Combined

variable {α β : Type} {text rest : List Char} {first second : Reader α} {next : α → Reader β} {a : α}

theorem bind_of_some (read : first text = some (a, rest)) : (first >>= next) text = next a rest := by
  show (first text).bind (fun result => next result.1 result.2) = _
  rw [read]
  rfl

theorem bind_of_none (refused : first text = none) : (first >>= next) text = none := by
  show (first text).bind (fun result => next result.1 result.2) = _
  rw [refused]
  rfl

theorem orElse_of_some (read : first text = some (a, rest)) :
    (first <|> second) text = some (a, rest) := by
  show (first text <|> second text) = _
  rw [read]
  rfl

theorem orElse_of_none (refused : first text = none) : (first <|> second) text = second text := by
  show (first text <|> second text) = _
  rw [refused]
  rfl

theorem map_of_some {f : α → β} (read : first text = some (a, rest)) :
    (f <$> first) text = some (f a, rest) := by
  show (first >>= fun a => pure (f a)) text = _
  exact bind_of_some read

theorem map_of_none {f : α → β} (refused : first text = none) : (f <$> first) text = none := by
  show (first >>= fun a => pure (f a)) text = _
  exact bind_of_none refused

end Combined

/-- **A chain of items**: each is read where the one before it has ended, and where the last has ended no
further item is read. -/
inductive Chain {α : Type} (item : Reader α) : List Char → List α → List Char → Prop
  | stop {rest : List Char} : item rest = none → Chain item rest [] rest
  | next {text between rest : List Char} {a : α} {items : List α} :
      item text = some (a, between) → between.length < text.length → Chain item between items rest →
      Chain item text (a :: items) rest

theorem upTo_of_chain {α : Type} {item : Reader α} {text rest : List Char} {items : List α}
    (chain : Chain item text items rest) (bound : List Char) (enough : text.length ≤ bound.length) :
    upTo item bound text = some (items, rest) := by
  induction chain generalizing bound with
  | @stop rest refused =>
    cases bound with
    | nil => rfl
    | cons c bound => simp only [upTo, refused]
  | @next text between rest a items read shorter _ ih =>
    cases bound with
    | nil =>
      rw [List.length_nil] at enough
      omega
    | cons c bound =>
      rw [List.length_cons] at enough
      simp only [upTo, read, ih bound (by omega), Option.map_some]

/-- **A repetition reads the chain of its items.** -/
theorem many_of_chain {α : Type} {item : Reader α} {text rest : List Char} {items : List α}
    (chain : Chain item text items rest) : many item text = some (items, rest) :=
  upTo_of_chain chain text (Nat.le_refl _)

/-- An item that takes something leaves less. -/
theorem length_lt_cons_append (c : Char) (tail rest : List Char) : rest.length < (c :: tail ++ rest).length := by
  rw [List.length_append, List.length_cons]
  omega

theorem run_append {accepts : Char → Bool} {piece rest : List Char} (inside : ∀ c ∈ piece, accepts c = true)
    (stop : StopsAt accepts rest) : run accepts (piece ++ rest) = some (piece, rest) := by
  rw [run, Text.takeWhile_append_stop inside stop, Text.dropWhile_append_stop inside stop]

theorem blanks_of_stop {text : List Char} (stop : StopsAt isBlank text) : blanks text = some ((), text) := by
  have none : run isBlank ([] ++ text) = some ([], text) := run_append (by simp) stop
  exact bind_of_some none

theorem char_of_accepts {accepts : Char → Bool} {c : Char} (accepted : accepts c = true) (rest : List Char) :
    char accepts (c :: rest) = some (c, rest) := by
  simp only [char, accepted, if_true]

theorem char_of_stop {accepts : Char → Bool} {text : List Char} (stop : StopsAt accepts text) :
    char accepts text = none := by
  cases text with
  | nil => rfl
  | cons c text => simp only [char, stop c rfl, Bool.false_eq_true, if_false]

theorem exactly_of_stop {c : Char} {text : List Char} (stop : StopsAt (· == c) text) : exactly c text = none :=
  bind_of_none (char_of_stop stop)

/-- A line end starts with a line feed or a carriage return. -/
theorem newline_of_stop {text : List Char} (stop : StopsAt (fun c => c == '\n' || c == '\r') text) :
    newline text = none := by
  cases text with
  | nil => rfl
  | cons c text =>
    have apart := stop c rfl
    simp only [Bool.or_eq_false_iff] at apart
    refine (orElse_of_none (exactly_of_stop (.cons (p := (· == '\n')) apart.1 text))).trans ?_
    have other : '\r' ≠ c := by
      rintro rfl
      simp at apart
    simp [word, List.isPrefixOf, other]

/-! ## Characters and their escapes -/

theorem hexDigit?_hexDigit : ∀ n < 16, hexDigit? (Written.hexDigit n) = some n := by
  decide +kernel

@[simp] theorem scalar?_toNat (c : Char) : scalar? c.toNat = some c := by
  have valid : c.toNat.isValidChar := c.valid
  rw [scalar?, dif_pos valid]
  rfl

theorem toNat_of_isControl {c : Char} (control : Written.isControl c = true) : c.toNat < 128 := by
  simp only [Written.isControl, Bool.or_eq_true, Bool.and_eq_true, decide_eq_true_eq, beq_iff_eq] at control
  rcases control with ⟨⟨below, -⟩, -⟩ | rfl
  · exact Nat.lt_trans below (by decide)
  · decide

/-- A small number is read from its last two digits. -/
theorem hexadecimal_of_digits {n : Nat} {high low : Char} (first : hexDigit? high = some (n / 16))
    (second : hexDigit? low = some (n % 16)) (rest : List Char) :
    hexadecimal 4 ('0' :: '0' :: high :: low :: rest) = some (n, rest) := by
  have zero : hexDigit? '0' = some 0 := rfl
  have value : 16 * (n / 16) + n % 16 = n := Nat.div_add_mod _ _
  simp [hexadecimal, zero, first, second, value]

theorem hexadecimal_toNat {c : Char} (small : c.toNat < 256) (rest : List Char) :
    hexadecimal 4 ('0' :: '0' :: Written.hexDigit (c.toNat / 16) :: Written.hexDigit (c.toNat % 16) :: rest) =
      some (c.toNat, rest) :=
  hexadecimal_of_digits (hexDigit?_hexDigit _ (by omega)) (hexDigit?_hexDigit _ (by omega)) rest

/-- **An escape is read as the character it stands for.** It is a backslash and a letter, never a backslash at the
end of a line. -/
theorem basicChar_escape? {spread : Bool} {c : Char} {escape : List Char}
    (found : Written.escape? spread c = some escape) :
    (∃ d tail, escape = '\\' :: d :: tail ∧ isBlank d = false ∧ (d == '\n' || d == '\r') = false) ∧
      ∀ rest, basicChar (escape ++ rest) = some (c, rest) := by
  unfold Written.escape? at found
  split at found
  · cases found
    exact ⟨⟨_, _, rfl, rfl, rfl⟩, fun rest => rfl⟩
  · cases found
    exact ⟨⟨_, _, rfl, rfl, rfl⟩, fun rest => rfl⟩
  · split at found
    · cases found
    · cases found
      exact ⟨⟨_, _, rfl, rfl, rfl⟩, fun rest => rfl⟩
  · cases found
    exact ⟨⟨_, _, rfl, rfl, rfl⟩, fun rest => rfl⟩
  · cases found
    exact ⟨⟨_, _, rfl, rfl, rfl⟩, fun rest => rfl⟩
  · cases found
    exact ⟨⟨_, _, rfl, rfl, rfl⟩, fun rest => rfl⟩
  · split at found
    · rename_i control
      cases found
      refine ⟨⟨_, _, rfl, rfl, rfl⟩, fun rest => ?_⟩
      have number := hexadecimal_toNat (Nat.lt_trans (toNat_of_isControl control) (by decide)) rest
      show (hexadecimal 4 >>= fun n => (scalar? n : Reader Char)) _ = _
      refine (bind_of_some number).trans ?_
      rw [scalar?_toNat]
      rfl
    · cases found

/-- A character that is no control character may stand anywhere within a line, unless it ends the line. -/
theorem isPlain_of_isControl_eq_false {c : Char} (printable : Written.isControl c = false) (oneLine : c ≠ '\n') :
    isPlain c = true := by
  simp only [Written.isControl, Bool.or_eq_false_iff, Bool.and_eq_false_iff, decide_eq_false_iff_not,
    bne_eq_false_iff_eq, beq_eq_false_iff_ne] at printable
  simp only [isPlain, Bool.or_eq_true, beq_iff_eq, Bool.and_eq_true, decide_eq_true_eq, bne_iff_ne]
  rcases printable with ⟨(high | tab) | newline, noDelete⟩
  · exact .inr ⟨Char.not_lt.mp high, noDelete⟩
  · exact .inl tab
  · exact absurd newline oneLine

/-- A character without an escape stands for itself. -/
theorem isBasic_of_escape?_eq_none {spread : Bool} {c : Char} (none : Written.escape? spread c = none)
    (noQuote : c ≠ '"') (oneLine : c ≠ '\n') : isBasic c = true := by
  have noBackslash : c ≠ '\\' := by
    rintro rfl
    cases none
  have printable : Written.isControl c = false := by
    unfold Written.escape? at none
    split at none
    · cases none
    · cases none
    · exact absurd rfl oneLine
    · cases none
    · cases none
    · cases none
    · split at none
      · cases none
      · rename_i printable
        exact Bool.eq_false_iff.mpr printable
  simp [isBasic, isPlain_of_isControl_eq_false printable oneLine, noQuote, noBackslash]

/-! ## Strings on one line -/

@[simp] theorem basicChar_quote (rest : List Char) : basicChar ('"' :: rest) = none := rfl

theorem chain_escaped (text rest : List Char) :
    Chain basicChar (Written.escaped false 0 0 text ++ '"' :: rest) text ('"' :: rest) := by
  induction text with
  | nil => exact .stop (basicChar_quote rest)
  | cons c text ih =>
    unfold Written.escaped
    split
    · rename_i quote
      rw [beq_iff_eq] at quote
      subst quote
      exact .next rfl (length_lt_cons_append '\\' ['"'] _) ih
    · rename_i noQuote
      rw [beq_iff_eq] at noQuote
      split
      · rename_i escape found
        obtain ⟨⟨d, tail, rfl, -⟩, read⟩ := basicChar_escape? found
        rw [List.append_assoc]
        exact .next (read _) (length_lt_cons_append '\\' (d :: tail) _) ih
      · rename_i none
        have oneLine : c ≠ '\n' := by
          rintro rfl
          cases none
        have read := char_of_accepts (isBasic_of_escape?_eq_none none noQuote oneLine)
          (Written.escaped false 0 0 text ++ '"' :: rest)
        exact .next (orElse_of_some read) (by simp) ih

/-- A text between double quotes is read, whatever it holds. -/
theorem basic_escaped (text rest : List Char) :
    basic ('"' :: (Written.escaped false 0 0 text ++ '"' :: rest)) = some (text, rest) := by
  refine (bind_of_some (a := ()) rfl).trans ?_
  refine (bind_of_some (many_of_chain (chain_escaped text rest))).trans ?_
  rfl

/-- A text between single quotes is read, if it holds neither control characters nor line breaks nor single
quotes. -/
theorem literal_append {text : List Char} (inside : ∀ c ∈ text, isLiteral c = true) (rest : List Char) :
    literal ('\'' :: (text ++ '\'' :: rest)) = some (text, rest) := by
  refine (bind_of_some (a := ()) rfl).trans ?_
  refine (bind_of_some (run_append inside (.cons rfl rest))).trans ?_
  rfl

/-! ## Strings over several lines -/

/-- What a string between three quotes is made of: a piece, a line break, or a few quotes. -/
def part (quote : Char) (piece : Reader (List Char)) : Reader (List Char) :=
  piece <|> (newline *> pure ['\n']) <|> fewQuotes quote

/-- **A text and how it is spelled between three quotes**, given the number of quotes right before. Quotes stand for
themselves, at most two in a row; what is spelled for another character is one part. -/
inductive Spread (quote : Char) (piece : Reader (List Char)) : Nat → List Char → List Char → Prop
  | done {behind : Nat} : behind ≤ 2 → Spread quote piece behind [] []
  | quote {behind : Nat} {text spelled : List Char} :
      Spread quote piece (behind + 1) text spelled →
      Spread quote piece behind (quote :: text) (quote :: spelled)
  | other {behind : Nat} {c d : Char} (spelling : List Char) {text spelled : List Char} :
      behind ≤ 2 → (d == quote) = false →
      (∀ rest, part quote piece (d :: spelling ++ rest) = some ([c], rest)) →
      Spread quote piece 0 text spelled →
      Spread quote piece behind (c :: text) (d :: spelling ++ spelled)

section Quotes

variable {quote : Char} {piece : Reader (List Char)} {rest : List Char}

theorem takeWhile_quotes (n : Nat) (stop : StopsAt (· == quote) rest) :
    (List.replicate n quote ++ rest).takeWhile (· == quote) = List.replicate n quote := by
  refine Text.takeWhile_append_stop ?_ stop
  intro c member
  rw [beq_iff_eq]
  exact List.eq_of_mem_replicate member

theorem fewQuotes_replicate (n : Nat) (stop : StopsAt (· == quote) rest) :
    fewQuotes quote (List.replicate n quote ++ rest) =
      if n = 1 ∨ n = 2 then some (List.replicate n quote, rest) else none := by
  have behind : (List.replicate n quote ++ rest).drop n = rest := List.drop_left' List.length_replicate
  simp only [fewQuotes, takeWhile_quotes n stop, List.length_replicate, behind]

/-- The quotes that end a string are three, behind those that still belong to it. -/
theorem closingQuotes_replicate {few : Nat} (short : few ≤ 2) (stop : StopsAt (· == quote) rest) :
    closingQuotes quote (List.replicate (few + 3) quote ++ rest) = some (List.replicate few quote, rest) := by
  have behind : (List.replicate (few + 3) quote ++ rest).drop (few + 3) = rest :=
    List.drop_left' List.length_replicate
  simp only [closingQuotes, takeWhile_quotes (few + 3) stop, List.length_replicate, behind, List.drop_replicate]
  rw [if_pos (by omega), Nat.add_sub_cancel]

/-- A run of quotes is one part if there are one or two of them, and none otherwise. -/
theorem part_quotes (refuses : ∀ rest, piece (quote :: rest) = none)
    (apart : (quote == '\n' || quote == '\r') = false) (n : Nat) (stop : StopsAt (· == quote) rest) :
    part quote piece (List.replicate (n + 1) quote ++ rest) =
      if n + 1 = 1 ∨ n + 1 = 2 then some (List.replicate (n + 1) quote, rest) else none := by
  rw [← fewQuotes_replicate (n + 1) stop, List.replicate_succ, List.cons_append]
  refine (orElse_of_none (refuses _)).trans ?_
  exact orElse_of_none (bind_of_none (newline_of_stop (.cons apart _)))

/-- **A body between three quotes is read part by part**, up to the quotes that end the string. -/
theorem Spread.exists_chain (refuses : ∀ rest, piece (quote :: rest) = none)
    (apart : (quote == '\n' || quote == '\r') = false) (stop : StopsAt (· == quote) rest) {behind : Nat}
    {text spelled : List Char} (spread : Spread quote piece behind text spelled) :
    ∃ parts few, few ≤ 2 ∧ parts.flatten ++ List.replicate few quote = List.replicate behind quote ++ text ∧
      Chain (part quote piece) (List.replicate behind quote ++ (spelled ++ (List.replicate 3 quote ++ rest)))
        parts (List.replicate (few + 3) quote ++ rest) := by
  induction spread with
  | @done behind few =>
    refine ⟨[], behind, few, by simp, ?_⟩
    rw [List.nil_append, ← List.append_assoc, List.replicate_append_replicate]
    refine .stop ?_
    rw [part_quotes refuses apart (behind + 2) stop, if_neg (by omega)]
  | @quote behind text spelled _ ih =>
    obtain ⟨parts, few, short, whole, chain⟩ := ih
    refine ⟨parts, few, short, ?_, ?_⟩
    · rw [whole, List.replicate_succ', List.append_assoc]
      rfl
    · rw [List.replicate_succ', List.append_assoc] at chain
      exact chain
  | @other behind c d spelling text spelled short other read _ ih =>
    obtain ⟨parts, few, final, whole, chain⟩ := ih
    have one : Chain (part quote piece) (d :: spelling ++ spelled ++ (List.replicate 3 quote ++ rest))
        ([c] :: parts) (List.replicate (few + 3) quote ++ rest) := by
      rw [List.append_assoc]
      exact .next (read _) (length_lt_cons_append d spelling _) chain
    cases behind with
    | zero => exact ⟨[c] :: parts, few, final, by simpa using whole, one⟩
    | succ behind =>
      refine ⟨List.replicate (behind + 1) quote :: [c] :: parts, few, final, ?_, ?_⟩
      · simpa using whole
      · have run := part_quotes refuses apart behind
          (.cons (p := (· == quote)) other (spelling ++ spelled ++ (List.replicate 3 quote ++ rest)))
        rw [if_pos (by omega)] at run
        exact .next run (by simp) one

/-- **A string between three quotes is read.** A line break right behind the opening quotes does not count, and
there has to be one where the body begins with one. -/
theorem multiline_of_spread (refuses : ∀ rest, piece (quote :: rest) = none)
    (apart : (quote == '\n' || quote == '\r') = false) (stop : StopsAt (· == quote) rest)
    {text spelled lead : List Char} (spread : Spread quote piece 0 text spelled)
    (led : lead = ['\n'] ∨ lead = [] ∧ StopsAt (fun c => c == '\n' || c == '\r') spelled) :
    multiline quote piece
        (List.replicate 3 quote ++ (lead ++ (spelled ++ (List.replicate 3 quote ++ rest)))) =
      some (text, rest) := by
  obtain ⟨parts, few, short, whole, chain⟩ := spread.exists_chain refuses apart stop
  have opening : word (String.ofList [quote, quote, quote])
      (List.replicate 3 quote ++ (lead ++ (spelled ++ (List.replicate 3 quote ++ rest)))) =
        some ((), lead ++ (spelled ++ (List.replicate 3 quote ++ rest))) := by
    simp [word, List.replicate_succ]
  have skipping : ∃ skipped, optional newline (lead ++ (spelled ++ (List.replicate 3 quote ++ rest))) =
      some (skipped, spelled ++ (List.replicate 3 quote ++ rest)) := by
    rcases led with rfl | ⟨rfl, none⟩
    · exact ⟨_, rfl⟩
    · exact ⟨_, orElse_of_none (map_of_none (newline_of_stop (none.append (.cons apart _))))⟩
  obtain ⟨skipped, skipping⟩ := skipping
  refine (bind_of_some opening).trans ?_
  refine (bind_of_some skipping).trans ?_
  refine (bind_of_some (many_of_chain chain)).trans ?_
  refine (bind_of_some (closingQuotes_replicate short stop)).trans ?_
  rw [whole]
  rfl

end Quotes

/-! ## The two forms with three quotes -/

/-- A piece of a basic string over several lines. -/
def basicPiece : Reader (List Char) := (continuation *> pure []) <|> ((fun c => [c]) <$> basicChar)

theorem part_basicChar {c d : Char} {tail rest : List Char}
    (read : basicChar (d :: tail) = some (c, rest)) (apart : continuation (d :: tail) = none) :
    part '"' basicPiece (d :: tail) = some ([c], rest) :=
  orElse_of_some ((orElse_of_none (bind_of_none apart)).trans (map_of_some read))

theorem spread_escaped (text : List Char) (behind : Nat) (few : behind ≤ 2) :
    Spread '"' basicPiece behind text (Written.escaped true 2 behind text) := by
  induction text generalizing behind with
  | nil => exact .done few
  | cons c text ih =>
    unfold Written.escaped
    split
    · rename_i quote
      rw [beq_iff_eq] at quote
      subst quote
      split
      · exact .quote (ih (behind + 1) (by omega))
      · -- The third quote in a row has a backslash.
        exact .other ['"'] few rfl (fun rest => rfl) (ih 0 (by omega))
    · rename_i noQuote
      rw [beq_iff_eq] at noQuote
      split
      · rename_i escape found
        obtain ⟨⟨d, tail, rfl, noBlank, noBreak⟩, read⟩ := basicChar_escape? found
        refine .other (d :: tail) few rfl (fun rest => part_basicChar (read rest) ?_) (ih 0 (by omega))
        refine (bind_of_some (a := ()) rfl).trans ?_
        refine (bind_of_some (blanks_of_stop (.cons noBlank _))).trans ?_
        exact bind_of_none (newline_of_stop (.cons noBreak _))
      · rename_i none
        by_cases newline : c = '\n'
        · subst newline
          exact .other [] few rfl (fun rest => rfl) (ih 0 (by omega))
        · have basic := isBasic_of_escape?_eq_none none noQuote newline
          have noBackslash : c ≠ '\\' := by
            rintro rfl
            cases basic
          refine .other [] few (by simpa using noQuote) (fun rest => ?_) (ih 0 (by omega))
          refine part_basicChar (orElse_of_some (char_of_accepts basic rest)) ?_
          exact bind_of_none (exactly_of_stop (.cons (p := (· == '\\')) (by simpa using noBackslash) rest))

/-- A piece of a literal string over several lines. -/
def literalPiece : Reader (List Char) := (fun c => [c]) <$> char isLiteral

theorem spread_literal {text : List Char} (printable : ∀ c ∈ text, Written.isControl c = false) {behind : Nat}
    (few : Written.longestRunFrom '\'' behind text ≤ 2) : Spread '\'' literalPiece behind text text := by
  induction text generalizing behind with
  | nil => exact .done few
  | cons c text ih =>
    rw [List.forall_mem_cons] at printable
    unfold Written.longestRunFrom at few
    split at few
    · rename_i quote
      rw [beq_iff_eq] at quote
      subst quote
      exact .quote (ih printable.2 few)
    · rename_i noQuote
      rw [Nat.max_le] at few
      refine .other [] few.1 (Bool.eq_false_iff.mpr noQuote) (fun rest => ?_) (ih printable.2 few.2)
      by_cases newline : c = '\n'
      · subst newline
        rfl
      · have accepted : isLiteral c = true := by
          simpa [isLiteral, isPlain_of_isControl_eq_false printable.1 newline] using noQuote
        exact orElse_of_some (map_of_some (char_of_accepts accepted rest))

/-- What stands first between double quotes: a backslash, or a character that needs none. -/
theorem exists_escaped_cons (spread : Bool) (allowed behind : Nat) (c : Char) (text : List Char) :
    ∃ d tail, Written.escaped spread allowed behind (c :: text) = d :: tail ∧
      (d = '\\' ∨ d = c ∧ Written.escape? spread c = none ∧ (c = '"' → behind < allowed)) := by
  unfold Written.escaped
  split
  · rename_i quote
    rw [beq_iff_eq] at quote
    subst quote
    split
    · rename_i unescaped
      exact ⟨_, _, rfl, .inr ⟨rfl, rfl, fun _ => unescaped⟩⟩
    · exact ⟨_, _, rfl, .inl rfl⟩
  · rename_i noQuote
    rw [beq_iff_eq] at noQuote
    split
    · rename_i escape found
      obtain ⟨⟨d, tail, rfl, -⟩, -⟩ := basicChar_escape? found
      exact ⟨_, _, rfl, .inl rfl⟩
    · rename_i none
      exact ⟨_, _, rfl, .inr ⟨rfl, none, fun quote => absurd quote noQuote⟩⟩

/-- No line break is spelled at the front of a text that holds none. -/
theorem stopsAt_escaped {text : List Char} (oneLine : '\n' ∉ text) :
    StopsAt (fun c => c == '\n' || c == '\r') (Written.escaped true 2 0 text) := by
  cases text with
  | nil => exact .nil _
  | cons c text =>
    obtain ⟨d, tail, spelled, rfl | ⟨rfl, none, -⟩⟩ := exists_escaped_cons true 2 0 c text
    · rw [spelled]
      exact .cons rfl tail
    · rw [spelled]
      refine .cons ?_ tail
      rw [Bool.or_eq_false_iff, beq_eq_false_iff_ne, beq_eq_false_iff_ne]
      constructor
      · rintro rfl
        exact oneLine List.mem_cons_self
      · rintro rfl
        cases none

theorem stopsAt_printable {text : List Char} (printable : ∀ c ∈ text, Written.isControl c = false)
    (oneLine : '\n' ∉ text) : StopsAt (fun c => c == '\n' || c == '\r') text := by
  intro c front
  have member := List.mem_of_mem_head? front
  rw [Bool.or_eq_false_iff, beq_eq_false_iff_ne, beq_eq_false_iff_ne]
  constructor
  · rintro rfl
    exact oneLine member
  · rintro rfl
    cases printable _ member

/-- A text that holds a line break starts on a line of its own. -/
theorem exists_lead (text : List Char) {spelled : List Char}
    (stop : '\n' ∉ text → StopsAt (fun c => c == '\n' || c == '\r') spelled) :
    ∃ lead, Written.opened text spelled = lead ++ spelled ∧
      (lead = ['\n'] ∨ lead = [] ∧ StopsAt (fun c => c == '\n' || c == '\r') spelled) := by
  unfold Written.opened
  by_cases spread : '\n' ∈ text
  · exact ⟨['\n'], by simp [spread], .inl rfl⟩
  · exact ⟨[], by simp [spread], .inr ⟨rfl, stop spread⟩⟩

/-- A text between three double quotes is read, whatever it holds. -/
theorem multilineBasic_inForm (text : List Char) {rest : List Char} (stop : StopsAt (· == '"') rest) :
    multilineBasic (Written.inForm text .multilineBasic ++ rest) = some (text, rest) := by
  obtain ⟨lead, opened, led⟩ := exists_lead text stopsAt_escaped
  have read := multiline_of_spread (fun _ => rfl) rfl stop (spread_escaped text 0 (by omega)) led
  have same : Written.inForm text .multilineBasic ++ rest =
      List.replicate 3 '"' ++ (lead ++ (Written.escaped true 2 0 text ++ (List.replicate 3 '"' ++ rest))) := by
    simp [Written.inForm, opened, List.replicate_succ]
  rw [same]
  exact read

/-- A text between three single quotes is read, if it holds no control characters and no three single quotes in a
row. -/
theorem multilineLiteral_inForm {text rest : List Char} (printable : ∀ c ∈ text, Written.isControl c = false)
    (few : Written.longestRun '\'' text ≤ 2) (stop : StopsAt (· == '\'') rest) :
    multilineLiteral (Written.inForm text .multilineLiteral ++ rest) = some (text, rest) := by
  obtain ⟨lead, opened, led⟩ := exists_lead text (stopsAt_printable printable)
  have read := multiline_of_spread (fun _ => rfl) rfl stop (spread_literal printable few) led
  have same : Written.inForm text .multilineLiteral ++ rest =
      List.replicate 3 '\'' ++ (lead ++ (text ++ (List.replicate 3 '\'' ++ rest))) := by
    simp [Written.inForm, opened, List.replicate_succ]
  rw [same]
  exact read

/-! ## Any string -/

/-- Three quotes are not read where only one or two stand. -/
theorem multiline_of_single {quote : Char} {piece : Reader (List Char)} {text : List Char}
    (single : ¬ [quote, quote] <+: text) : multiline quote piece (quote :: text) = none := by
  refine bind_of_none ?_
  have apart : ¬ [quote, quote, quote] <+: quote :: text := by
    rw [List.cons_prefix_cons]
    exact fun opens => single opens.2
  simp only [word, String.toList_ofList, List.isPrefixOf_iff_prefix, apart, if_false]

/-- On one line, the opening quote is followed by another only where nothing stands between them. -/
theorem single_escaped (text : List Char) {rest : List Char} (stop : StopsAt (· == '"') rest) :
    ¬ ['"', '"'] <+: Written.escaped false 0 0 text ++ '"' :: rest := by
  intro quotes
  cases text with
  | nil =>
    obtain ⟨behind, rfl⟩ := (List.cons_prefix_cons.mp quotes).2
    cases stop '"' rfl
  | cons c text =>
    obtain ⟨d, tail, spelled, opened⟩ := exists_escaped_cons false 0 0 c text
    rw [spelled] at quotes
    obtain rfl := (List.cons_prefix_cons.mp quotes).1
    rcases opened with backslash | ⟨rfl, -, unescaped⟩
    · cases backslash
    · cases unescaped rfl

/-- **When a form is chosen.** Only the two forms with single quotes ask something of the text. -/
theorem form_cases (text : List Char) :
    Written.form text = .basic ∨ Written.form text = .multilineBasic ∨
      (Written.form text = .literal ∧ text ≠ [] ∧ (∀ c ∈ text, Written.isControl c = false) ∧
        '\n' ∉ text ∧ '\'' ∉ text) ∨
      (Written.form text = .multilineLiteral ∧ (∀ c ∈ text, Written.isControl c = false) ∧
        Written.longestRun '\'' text ≤ 2) := by
  simp only [Written.form]
  split
  · exact .inl rfl
  · rename_i notBasic
    split
    · rename_i suits
      have nonempty : text ≠ [] := by
        rintro rfl
        exact notBasic rfl
      have holds : ((∀ c ∈ text, Written.isControl c = false) ∧ '\n' ∉ text) ∧ '\'' ∉ text := by
        simpa using suits
      exact .inr (.inr (.inl ⟨rfl, nonempty, holds.1.1, holds.1.2, holds.2⟩))
    · split
      · exact .inr (.inl rfl)
      · split
        · rename_i suits
          have holds : (∀ c ∈ text, Written.isControl c = false) ∧ Written.longestRun '\'' text ≤ 2 := by
            simpa using suits
          exact .inr (.inr (.inr ⟨rfl, holds⟩))
        · split
          · exact .inr (.inl rfl)
          · exact .inl rfl

/-- **A string is read as it was written**, whatever characters it has. -/
theorem string_written (text : List Char) {rest : List Char}
    (stop : StopsAt (fun c => c == '"' || c == '\'') rest) :
    string (written text ++ rest) = some (String.ofList text, rest) := by
  have noDouble : StopsAt (· == '"') rest := stop.mono fun c quote => by simp_all
  have noSingle : StopsAt (· == '\'') rest := stop.mono fun c quote => by simp_all
  unfold written
  rcases form_cases text with form | form | ⟨form, nonempty, printable, oneLine, noQuote⟩ | ⟨form, printable, few⟩
  · have whole : Written.inForm text .basic ++ rest = '"' :: (Written.escaped false 0 0 text ++ '"' :: rest) := by
      simp [Written.inForm]
    rw [form, whole]
    refine map_of_some ((orElse_of_none ?_).trans (orElse_of_some (basic_escaped text rest)))
    exact multiline_of_single (single_escaped text noDouble)
  · rw [form]
    exact map_of_some (orElse_of_some (multilineBasic_inForm text noDouble))
  · have whole : Written.inForm text .literal ++ rest = '\'' :: (text ++ '\'' :: rest) := by
      simp [Written.inForm]
    have inside : ∀ c ∈ text, isLiteral c = true := by
      intro c member
      have other : c ≠ '\'' := fun quote => noQuote (quote ▸ member)
      have plain := isPlain_of_isControl_eq_false (printable c member) fun newline => oneLine (newline ▸ member)
      simp [isLiteral, plain, other]
    have single : ¬ ['\'', '\''] <+: text ++ '\'' :: rest := by
      obtain ⟨c, tail, rfl⟩ := List.exists_cons_of_ne_nil nonempty
      intro quotes
      exact noQuote ((List.cons_prefix_cons.mp quotes).1 ▸ List.mem_cons_self)
    rw [form, whole]
    refine map_of_some ((orElse_of_none rfl).trans ((orElse_of_none rfl).trans ((orElse_of_none ?_).trans
      (literal_append inside rest))))
    exact multiline_of_single single
  · rw [form]
    refine map_of_some ((orElse_of_none rfl).trans ((orElse_of_none rfl).trans (orElse_of_some ?_)))
    exact multilineLiteral_inForm printable few noSingle

end Reader

end JackTokens.Toml
