import JackTokens.Proofs.Shapes
import JackTokens.Proofs.Showing

/-!
# Reading a dump back

A dump has a line for each token: the number of its line, the name of its category and its lexeme, with tabs
between them. Nothing in a lexeme is escaped, and a string may hold tabs, carriage returns or nothing at all.
Still a dump can be read back: it is cut at its newlines, and each line at its first two tabs (`Dump.rows?`).

**Lines.** The number is written in digits and the category in letters, so that the first two tabs of a line
are those that were put there, whatever the lexeme holds (`Token.read?_text`).

**Dumps.** No lexeme of a run holds a newline (`Kind.WellFormed.newline_not_mem`), so the lines are those that
were put there (`Dump.rows?_lines`). A row tells the token (`Token.row_injective`): with the category, a lexeme
is that of one kind only.

**The law** (`TokenizeRequest.rows?_execute`): what a successful plain run prints is read back as its stream.
Therefore two such runs with different streams print different texts, whatever they were runs of.
-/

namespace JackTokens

/-- **A row of a dump**: the line, the name of the category and the lexeme of a token. -/
structure Row where
  line : Nat
  category : String
  lexeme : String
  deriving DecidableEq, Repr

/-- What stands before the first tab of a text, and what stands behind it. -/
def Text.cutAtTab? (text : List Char) : Option (List Char × List Char) :=
  match text.dropWhile (· != '\t') with
  | [] => none
  | _ :: rest => some (text.takeWhile (· != '\t'), rest)

/-- The number that a text of digits spells. -/
def Text.decimal? (digits : List Char) : Option Nat :=
  if digits ≠ [] ∧ digits.all Char.isDigit then some (Nat.ofDigitChars 10 digits 0) else none

/-- The row that a line says, cut at its first two tabs. -/
def Row.read? (line : List Char) : Option Row := do
  let (number, rest) ← Text.cutAtTab? line
  let (category, lexeme) ← Text.cutAtTab? rest
  let line ← Text.decimal? number
  return ⟨line, String.ofList category, String.ofList lexeme⟩

/-- **The rows of a dump**, cut at its newlines. Nothing stands behind the last. -/
def Dump.rows? (dump : String) : Option (List Row) :=
  (Text.splitAt '\n' dump.toList).dropLast.mapM Row.read?

/-! ## Rows of tokens -/

namespace Token

/-- The row of a token. -/
def row (token : Token) : Row := ⟨token.line.toNat, token.category.name, token.lexeme⟩

/-- The line of a token in a dump, without its newline. -/
def text (token : Token) : List Char :=
  Nat.toDigits 10 token.line.toNat ++ '\t' :: (token.category.name.toList ++ '\t' :: token.lexeme.toList)

end Token

@[simp] theorem Dump.toList_tokenLine (token : Token) : (tokenLine token).toList = token.text ++ ['\n'] := by
  have number : (toString token.line).toList = Nat.toDigits 10 token.line.toNat := Nat.toList_repr
  unfold tokenLine Token.text
  simp [number]

theorem Dump.toList_lines (tokens : List Token) :
    (lines tokens).toList = ((tokens.map Token.text).map (· ++ ['\n'])).flatten := by
  induction tokens with
  | nil => rfl
  | cons token tokens ih =>
    rw [lines_cons, String.toList_append, toList_tokenLine, ih]
    rfl

theorem Text.cutAtTab?_append {before : List Char} (single : '\t' ∉ before) (rest : List Char) :
    cutAtTab? (before ++ '\t' :: rest) = some (before, rest) := by
  have within := bne_of_not_mem single
  have stop : StopsAt (· != '\t') ('\t' :: rest) := .cons rfl rest
  unfold cutAtTab?
  rw [dropWhile_append_stop within stop, takeWhile_append_stop within stop]

theorem Text.isDigit_toDigits (n : Nat) : ∀ c ∈ Nat.toDigits 10 n, c.isDigit = true :=
  fun _ member => Nat.isDigit_of_mem_toDigits (by decide) (by decide) member

@[simp] theorem Text.decimal?_toDigits (n : Nat) : decimal? (Nat.toDigits 10 n) = some n := by
  have digits : (Nat.toDigits 10 n).all Char.isDigit = true := List.all_eq_true.mpr (isDigit_toDigits n)
  unfold decimal?
  rw [if_pos ⟨Nat.toDigits_ne_nil, digits⟩, Nat.ofDigitChars_toDigits (by decide) (by decide)]

theorem Text.not_mem_toDigits {c : Char} (other : c.isDigit = false) (n : Nat) : c ∉ Nat.toDigits 10 n := by
  intro member
  rw [isDigit_toDigits n c member] at other
  cases other

theorem Category.tab_not_mem_name (category : Category) : '\t' ∉ category.name.toList := by
  cases category <;> decide

theorem Category.newline_not_mem_name (category : Category) : '\n' ∉ category.name.toList := by
  cases category <;> decide

/-- **A line is read back**, whatever its lexeme holds. -/
@[simp] theorem Token.read?_text (token : Token) : Row.read? token.text = some token.row := by
  unfold Row.read? text
  rw [Text.cutAtTab?_append (Text.not_mem_toDigits (by decide) _)]
  simp only [Option.bind_eq_bind, Option.bind_some, Text.cutAtTab?_append token.category.tab_not_mem_name,
    Text.decimal?_toDigits, String.ofList_toList]
  rfl

@[simp] theorem Token.mapM_read?_text (tokens : List Token) :
    (tokens.map Token.text).mapM Row.read? = some (tokens.map Token.row) := by
  induction tokens with
  | nil => rfl
  | cons token tokens ih =>
    rw [List.map_cons, List.mapM_cons, read?_text, ih]
    rfl

/-- **A dump is read back**, if no lexeme holds a newline. -/
theorem Dump.rows?_lines {tokens : List Token} (oneLine : ∀ token ∈ tokens, '\n' ∉ token.lexeme.toList) :
    rows? (lines tokens) = some (tokens.map Token.row) := by
  have single : ∀ part ∈ tokens.map Token.text, '\n' ∉ part := by
    intro part member
    obtain ⟨token, found, rfl⟩ := List.mem_map.mp member
    have number : '\n' ∉ Nat.toDigits 10 token.line.toNat := Text.not_mem_toDigits (by decide) _
    unfold Token.text
    simpa using ⟨number, token.category.newline_not_mem_name, oneLine token found⟩
  unfold rows?
  rw [toList_lines, Text.splitAt_flatten single, List.dropLast_concat]
  exact Token.mapM_read?_text tokens

/-! ## A row tells the token -/

@[simp] theorem Kind.ofLexeme?_lexeme (kind : Kind) : ofLexeme? kind.category kind.lexeme = some kind := by
  cases kind with
  | keyword word => cases word <;> decide
  | symbol c => simp [ofLexeme?, lexeme, category]
  | _ => rfl

theorem Category.name_injective {first second : Category} (same : first.name = second.name) :
    first = second := by
  cases first <;> cases second <;> first | rfl | exact absurd same (by decide)

theorem Kind.eq_of_lexeme {first second : Kind} (category : first.category = second.category)
    (lexeme : first.lexeme = second.lexeme) : first = second := by
  have found := ofLexeme?_lexeme first
  rw [category, lexeme, ofLexeme?_lexeme] at found
  exact (Option.some.inj found).symm

/-- **A row is that of one token only.** -/
theorem Token.row_injective : Function.Injective Token.row := by
  rintro ⟨kind, line⟩ ⟨kind', line'⟩ same
  obtain ⟨lines, names, lexemes⟩ := Row.mk.inj same
  have sameLine : line = line' := UInt32.toNat_inj.mp lines
  have sameKind : kind = kind' := Kind.eq_of_lexeme (Category.name_injective names) lexemes
  rw [sameKind, sameLine]

/-! ## No lexeme holds a newline -/

theorem IdentifierRule.newline_not_mem_word {rule : IdentifierRule} {word : List Char}
    (isWord : rule.IsWord word) : '\n' ∉ word := by
  intro newline
  cases rule with
  | alphabetic => exact absurd (isWord.2 _ newline) (by decide)
  | alphanumeric =>
    cases word with
    | nil => cases newline
    | cons c word =>
      rcases List.mem_cons.mp newline with rfl | inside
      · exact absurd isWord.1 (by decide)
      · exact absurd (isWord.2 _ inside) (by decide)

/-- **A lexeme in its shape holds no newline.** -/
theorem Kind.WellFormed.newline_not_mem {rule : IdentifierRule} {kind : Kind} (shaped : kind.WellFormed rule) :
    '\n' ∉ kind.lexeme.toList := by
  cases kind with
  | keyword word => cases word <;> decide
  | identifier name => exact IdentifierRule.newline_not_mem_word shaped.1
  | stringConstant text => exact shaped.2
  | integerConstant digits => exact fun newline => absurd (shaped.2 _ newline) (by decide)
  | symbol c =>
    intro newline
    have same : '\n' = c := by simpa [lexeme] using newline
    rw [← same] at shaped
    exact absurd shaped.1 (by decide)

namespace TokenizeRequest

variable {tree : FileTree} {settings : Settings} {request : TokenizeRequest} {plan : TokenizePlan}
  {final : Tokenizer} {told : Report Nat}

theorem Completes.newline_not_mem (completes : request.Completes tree settings plan final) :
    ∀ token ∈ final.tokens.toList, '\n' ∉ token.lexeme.toList := by
  obtain ⟨start, fresh, visited⟩ := completes.exists_visits
  have shaped := visited.shaped fresh.coherent fresh.shaped
  intro token member
  exact (shaped.tokens token (Array.mem_toList_iff.mp member)).newline_not_mem

/-! ## The law -/

/-- What a successful plain run prints. -/
theorem Completes.text_execute {room : Option Nat} (completes : request.Completes tree settings plan final)
    (succeeded : (request.execute tree settings { room := room }).result = .ok told)
    (plain : plan.format = .text) (ungrouped : plan.byFile = false) :
    (request.execute tree settings { room := room }).sink.text = Dump.lines final.tokens.toList := by
  obtain ⟨plan', final', other, -, text⟩ := execute_ok succeeded
  obtain ⟨rfl, rfl⟩ := completes.unique other
  rw [text, TokenizePlan.output, plain, ungrouped]
  exact String.empty_append

/-- **A plain dump is uniquely decodable.** What a successful run prints is read back as the lines, categories
and lexemes of its stream, in order. So another run that prints the same has the same stream, whatever files,
settings and options it was a run of, and whatever room its sink had. -/
theorem rows?_execute {room : Option Nat}
    (succeeded : (request.execute tree settings { room := room }).result = .ok told)
    (planned : request.plan settings = .ok plan) (plain : plan.format = .text)
    (ungrouped : plan.byFile = false) :
    ∃ final, request.Completes tree settings plan final ∧
      Dump.rows? (request.execute tree settings { room := room }).sink.text =
        some (final.tokens.toList.map Token.row) ∧
      ∀ {tree' : FileTree} {settings' : Settings} {request' : TokenizeRequest} {plan' : TokenizePlan}
        {final' : Tokenizer} {room' : Option Nat} {told' : Report Nat},
        (request'.execute tree' settings' { room := room' }).result = .ok told' →
        request'.Completes tree' settings' plan' final' → plan'.format = .text → plan'.byFile = false →
        (request'.execute tree' settings' { room := room' }).sink.text =
          (request.execute tree settings { room := room }).sink.text →
        final'.tokens = final.tokens := by
  obtain ⟨plan', final, completes, -, -⟩ := execute_ok succeeded
  cases completes.planned.symm.trans planned
  have text := completes.text_execute succeeded plain ungrouped
  refine ⟨final, completes, ?_, ?_⟩
  · rw [text, Dump.rows?_lines completes.newline_not_mem]
  · intro tree' settings' request' plan' final' room' told' succeeded' completes' plain' ungrouped' same
    rw [text, completes'.text_execute succeeded' plain' ungrouped'] at same
    have rows := congrArg Dump.rows? same
    rw [Dump.rows?_lines completes'.newline_not_mem, Dump.rows?_lines completes.newline_not_mem,
      Option.some.injEq] at rows
    exact Array.toList_inj.mp ((List.map_inj_right Token.row_injective).mp rows)

/-- A text with strings that hold tabs, a carriage return and nothing. -/
def tabbed : List Char := "\t\"a\tb\r\" \"\"\n".toList

/-- The law at this text. -/
theorem rows?_execute_tabbed :
    let tree := FileTree.ofTexts [("A.jack", tabbed)]
    let request : TokenizeRequest := { path := "A.jack" }
    let outcome := request.execute tree {} {}
    (∃ told, outcome.result = .ok told) ∧
      request.plan {} = .ok { policy := {}, format := .text, byFile := false } ∧
      Dump.rows? outcome.sink.text =
        some [⟨1, "stringConstant", "a\tb\r"⟩, ⟨1, "stringConstant", ""⟩] := by
  intro tree request outcome
  have planned : request.plan {} = .ok { policy := {}, format := .text, byFile := false } := by
    have bare : bareExtension "jack" = "jack" := by decide +kernel
    unfold plan
    simp only [request, Option.getD_none, bare]
    rfl
  have readable : tree.readText "A.jack" = .ok tabbed := rfl
  obtain ⟨final, completes, tokens⟩ := exists_completes_of_readText planned readable
  have succeeded : outcome.result = .ok (final.report "A.jack") := completes.execute rfl
  obtain ⟨final', completes', rows, -⟩ := rows?_execute succeeded planned rfl rfl
  obtain ⟨-, rfl⟩ := completes.unique completes'
  refine ⟨⟨_, succeeded⟩, planned, ?_⟩
  rw [rows, tokens]
  decide +kernel

end TokenizeRequest

end JackTokens
