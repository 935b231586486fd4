import JackTokens.Proofs.Decoding
import JackTokens.Proofs.WrittenStrings

/-!
# Documents are read as they were written

The library writes documents and reads none. To say what the text of a document means, this module has a reader for
such texts: numbers, strings with their escapes, arrays and objects, and space around all of them.

**Pieces.** The text of an array or an object is a bracket, a piece for each element or member on a line of its own,
and a bracket (`Json.text_array`, `Json.text_object`). A piece starts with no space and is read up to its end, whatever
follows but a digit (`Json.Reads`); so pieces between brackets are read one by one, and with the brackets they are a
piece (`Json.reads_bracketed`).

**The law** (`Json.read?_indented`): the text of a document is read as the document. How deep the reader may go is
bounded by the length of the text, and the induction is on that bound: a piece is shorter than what it stands in.
-/

namespace JackTokens.Json

open Toml (Reader)
open Toml.Reader hiding optional
open Text (StopsAt)

/-! ## The reader -/

/-- A space between the parts of a document. -/
def isSpace (c : Char) : Bool := c == ' ' || c == '\t' || c == '\n' || c == '\r'

/-- Reads the space between two parts. -/
def space : Reader Unit := do
  let _ ← run isSpace

/-- Reads what follows the backslash of an escape. -/
def escapedChar : Reader Char := do
  match ← char fun _ => true with
  | '"' => pure '"'
  | '\\' => pure '\\'
  | '/' => pure '/'
  | 'b' => pure '\x08'
  | 'f' => pure '\x0c'
  | 'n' => pure '\n'
  | 'r' => pure '\r'
  | 't' => pure '\t'
  | 'u' => scalar? (← hexadecimal 4)
  | _ => failure

/-- A character that stands for itself in a string. -/
def isUnescaped (c : Char) : Bool := 0x20 ≤ c.toNat && c != '"' && c != '\\'

/-- Reads one character of a string. -/
def stringChar : Reader Char := char isUnescaped <|> (exactly '\\' *> escapedChar)

/-- Reads a string. -/
def readString : Reader String := do
  exactly '"'
  let text ← many stringChar
  exactly '"'
  return String.ofList text

/-- Reads a number. -/
def readNumber : Reader Nat := do
  Text.decimal? (← run Char.isDigit)

/-- Reads items between brackets, with commas between them. -/
def bracketed {α : Type} (opening closing : Char) (item : Reader α) : Reader (List α) := do
  exactly opening
  space
  let items ← Reader.optional (separated (item <* space) (exactly ',' *> space))
  exactly closing
  return items.getD []

/-- Reads a member of an object. -/
def readMember (value : Reader Json) : Reader (String × Json) := do
  let key ← readString
  space
  exactly ':'
  space
  let value ← value
  return (key, value)

/-- **Reads a value**, with fewer than so many arrays and objects around each other. -/
def readValue : Nat → Reader Json
  | 0 => failure
  | depth + 1 =>
    (number <$> readNumber) <|> (string <$> readString) <|> (array <$> bracketed '[' ']' (readValue depth))
      <|> (object <$> bracketed '\x7b' '\x7d' (readMember (readValue depth)))

/-- Reads a document that fills the text. -/
def readWhole (depth : Nat) : Reader Json := do
  space
  let document ← readValue depth
  space
  atEnd
  return document

/-- **The document that a text says.** It is not deeper than the text is long. -/
def read? (text : String) : Option Json := (readWhole (text.toList.length + 1) text.toList).map Prod.fst

/-! ## Pieces -/

section Pieces

variable {α : Type} {item : Reader α} {written close rest : List Char} {a : α} {items : List α}
  {write : α → List Char}

theorem space_eq (text : List Char) : space text = some ((), text.dropWhile isSpace) := rfl

theorem space_of_solid {c : Char} (solid : isSpace c = false) (rest : List Char) :
    space (c :: rest) = some ((), c :: rest) := by
  rw [space_eq, List.dropWhile_cons_of_neg (by simp [solid])]

@[simp] theorem exactly_cons (c : Char) (rest : List Char) : exactly c (c :: rest) = some ((), rest) := by
  have accepted : (fun d => d == c) c = true := beq_self_eq_true c
  exact bind_of_some (char_of_accepts accepted rest)

/-- **A piece is read**: it starts with no space, and is taken off the front of a text, unless it goes on with a
digit. -/
structure Reads (item : Reader α) (written : List Char) (a : α) : Prop where
  solid : ∃ c tail, written = c :: tail ∧ isSpace c = false
  read : ∀ rest, StopsAt Char.isDigit rest → item (written ++ rest) = some (a, rest)

/-- A piece is read with the space behind it. -/
theorem Reads.seqLeft_space (reads : Reads item written a) (stop : StopsAt Char.isDigit rest) :
    (item <* space) (written ++ rest) = some (a, rest.dropWhile isSpace) := by
  show (item >>= fun a => space >>= fun _ => pure a) _ = _
  rw [bind_of_some (reads.read rest stop), bind_of_some (space_eq rest)]
  rfl

/-- A new line with its indentation is space. -/
theorem dropWhile_newline (level : Nat) (solid : StopsAt isSpace rest) :
    ((newline level).toList ++ rest).dropWhile isSpace = rest := by
  refine Text.dropWhile_append_stop ?_ solid
  rw [newline, String.toList_ofList]
  simp [isSpace]

/-- The space before a piece ends where the piece starts. -/
theorem Reads.dropWhile_line (reads : Reads item written a) (level : Nat) (rest : List Char) :
    ((newline level).toList ++ (written ++ rest)).dropWhile isSpace = written ++ rest := by
  obtain ⟨c, tail, rfl, solid⟩ := reads.solid
  exact dropWhile_newline level (.cons solid _)

/-- The pieces behind the first, each behind a comma and on a line of its own. -/
def behind (level : Nat) (pieces : List (List Char)) : List Char :=
  pieces.flatMap fun piece => ',' :: (newline level).toList ++ piece

/-- **What stands between the brackets**: nothing, or the pieces on lines of their own. -/
def block (level : Nat) : List (List Char) → List Char
  | [] => []
  | piece :: pieces =>
    (newline (level + 1)).toList ++ piece ++ behind (level + 1) pieces ++ (newline level).toList

/-- What goes on behind a piece is a comma, or what comes behind all of them. -/
theorem stopsAt_behind (level : Nat) (pieces : List (List Char)) (stop : StopsAt Char.isDigit close) :
    StopsAt Char.isDigit (behind level pieces ++ close) := by
  cases pieces with
  | nil => exact stop
  | cons piece pieces => exact .cons (by decide) _

/-- The pieces behind the first are read one after the other. -/
theorem chain_behind (level : Nat) (reads : ∀ a ∈ items, Reads item (write a) a)
    (stop : StopsAt Char.isDigit close) (noComma : StopsAt (· == ',') (close.dropWhile isSpace)) :
    Chain ((exactly ',' *> space) *> (item <* space)) ((behind level (items.map write) ++ close).dropWhile isSpace)
      items (close.dropWhile isSpace) := by
  induction items with
  | nil => exact .stop (bind_of_none (bind_of_none (exactly_of_stop noComma)))
  | cons a items ih =>
    have first := reads a List.mem_cons_self
    have goesOn := stopsAt_behind level (items.map write) stop
    have text : behind level ((a :: items).map write) ++ close =
        ',' :: ((newline level).toList ++ (write a ++ (behind level (items.map write) ++ close))) := by
      simp [behind]
    have comma : isSpace ',' = false := by decide
    rw [text, List.dropWhile_cons_of_neg (by simp [comma])]
    refine .next ?_ ?_ (ih fun b member => reads b (List.mem_cons_of_mem _ member))
    · have separator : (exactly ',' *> space)
          (',' :: ((newline level).toList ++ (write a ++ (behind level (items.map write) ++ close)))) =
            some ((), write a ++ (behind level (items.map write) ++ close)) := by
        refine (bind_of_some (exactly_cons ',' _)).trans ((space_eq _).trans ?_)
        rw [first.dropWhile_line]
      exact (bind_of_some separator).trans (first.seqLeft_space goesOn)
    · have shorter := (List.dropWhile_suffix isSpace (l := behind level (items.map write) ++ close)).length_le
      simp only [List.length_cons, List.length_append] at shorter ⊢
      omega

/-- **Pieces between brackets are read one by one.** -/
theorem bracketed_block (opening closing : Char) (level : Nat) (reads : ∀ a ∈ items, Reads item (write a) a)
    (refused : item (closing :: rest) = none) (solid : isSpace closing = false) (noComma : (closing == ',') = false) :
    bracketed opening closing item (opening :: block level (items.map write) ++ closing :: rest) =
      some (items, rest) := by
  rw [List.cons_append]
  refine (bind_of_some (exactly_cons opening _)).trans ?_
  cases items with
  | nil =>
    refine (bind_of_some (space_of_solid solid rest)).trans ?_
    have none : (some <$> separated (item <* space) (exactly ',' *> space)) (closing :: rest) = none :=
      map_of_none (bind_of_none (bind_of_none refused))
    refine (bind_of_some (orElse_of_none none)).trans ?_
    refine (bind_of_some (exactly_cons closing rest)).trans ?_
    rfl
  | cons a items =>
    -- The space before the closing bracket is read with the last piece.
    have close : ((newline level).toList ++ closing :: rest).dropWhile isSpace = closing :: rest :=
      dropWhile_newline level (.cons solid _)
    have broken : StopsAt Char.isDigit ((newline level).toList ++ closing :: rest) := by
      rw [newline, String.toList_ofList]
      exact .cons (by decide) _
    have closes : StopsAt (· == ',') (((newline level).toList ++ closing :: rest).dropWhile isSpace) := by
      rw [close]
      exact .cons (p := (· == ',')) noComma rest
    have first := reads a List.mem_cons_self
    have chain := chain_behind (level + 1) (fun b member => reads b (List.mem_cons_of_mem _ member)) broken closes
    rw [close] at chain
    have goesOn := stopsAt_behind (level + 1) (items.map write) broken
    have text : block level ((a :: items).map write) ++ closing :: rest = (newline (level + 1)).toList ++
        (write a ++ (behind (level + 1) (items.map write) ++ ((newline level).toList ++ closing :: rest))) := by
      simp [block]
    have pieces : separated (item <* space) (exactly ',' *> space)
        (write a ++ (behind (level + 1) (items.map write) ++ ((newline level).toList ++ closing :: rest))) =
          some (a :: items, closing :: rest) := by
      refine (bind_of_some (first.seqLeft_space goesOn)).trans ?_
      exact bind_of_some (many_of_chain chain)
    rw [text]
    refine (bind_of_some (space_eq _)).trans ?_
    rw [first.dropWhile_line]
    refine (bind_of_some (orElse_of_some (map_of_some pieces))).trans ?_
    refine (bind_of_some (exactly_cons closing rest)).trans ?_
    rfl

/-- Pieces between brackets are a piece. -/
theorem reads_bracketed (opening closing : Char) (level : Nat) (reads : ∀ a ∈ items, Reads item (write a) a)
    (refused : ∀ rest, item (closing :: rest) = none) (opens : isSpace opening = false)
    (solid : isSpace closing = false) (noComma : (closing == ',') = false) :
    Reads (bracketed opening closing item) (opening :: block level (items.map write) ++ [closing]) items := by
  refine ⟨⟨_, _, rfl, opens⟩, fun rest _ => ?_⟩
  rw [List.append_assoc]
  exact bracketed_block opening closing level reads (refused rest) solid noComma

/-- A piece is shorter than the brackets with all that stands between them. -/
theorem length_lt_bracketed (member : a ∈ items) (write : α → List Char) (level : Nat) (opening closing : Char) :
    (write a).length < (opening :: block level (items.map write) ++ [closing]).length := by
  have inside : ∀ {items : List α}, a ∈ items →
      (write a).length ≤ (behind (level + 1) (items.map write)).length := by
    intro items member
    obtain ⟨before, after, rfl⟩ := List.append_of_mem member
    simp only [behind, List.map_append, List.map_cons, List.flatMap_append, List.flatMap_cons, List.length_append]
    omega
  cases items with
  | nil => cases member
  | cons first items =>
    simp only [List.map_cons, block, List.length_append, List.cons_append, List.length_cons]
    rcases List.mem_cons.mp member with rfl | member
    · omega
    · have := inside member
      omega

end Pieces

/-! ## Strings and numbers -/

theorem hexDigit?_hexDigit : ∀ n < 16, hexDigit? (hexDigit n) = some n := by
  decide +kernel

/-- **An escape is read as its character**, and so is a character that needs none. -/
@[simp] theorem stringChar_escapeChar (c : Char) (rest : List Char) :
    stringChar (escapeChar c ++ rest) = some (c, rest) := by
  unfold escapeChar
  split
  · rfl
  · rfl
  · rfl
  · rfl
  · rfl
  · rfl
  · rfl
  · rename_i noQuote noBackslash _ _ _ _ _
    split
    · have number := hexadecimal_of_digits (hexDigit?_hexDigit (c.toNat / 16) (by omega))
        (hexDigit?_hexDigit (c.toNat % 16) (by omega)) rest
      show (hexadecimal 4 >>= fun n => (scalar? n : Reader Char)) _ = _
      refine (bind_of_some number).trans ?_
      rw [scalar?_toNat]
      rfl
    · rename_i printable
      have plain : isUnescaped c = true := by
        simp only [isUnescaped, Bool.and_eq_true, decide_eq_true_eq, bne_iff_ne]
        exact ⟨⟨Nat.not_lt.mp printable, noQuote⟩, noBackslash⟩
      exact orElse_of_some (char_of_accepts plain rest)

theorem escapeChar_ne_nil (c : Char) : escapeChar c ≠ [] := by
  unfold escapeChar
  repeat' split
  all_goals exact List.cons_ne_nil _ _

theorem chain_escapeChar (text rest : List Char) :
    Chain stringChar (text.flatMap escapeChar ++ '"' :: rest) text ('"' :: rest) := by
  induction text with
  | nil => exact .stop rfl
  | cons c text ih =>
    rw [List.flatMap_cons, List.append_assoc]
    refine .next (stringChar_escapeChar c _) ?_ ih
    have some := List.length_pos_iff.mpr (escapeChar_ne_nil c)
    simp only [List.length_append]
    omega

/-- **A string is read back.** -/
theorem reads_quote (text : String) : Reads readString (quote text).toList text := by
  have written : (quote text).toList = '"' :: (text.toList.flatMap escapeChar ++ ['"']) := by
    rw [quote, String.toList_ofList, List.cons_append]
  rw [written]
  refine ⟨⟨_, _, rfl, by decide⟩, fun rest _ => ?_⟩
  rw [List.cons_append, List.append_assoc]
  refine (bind_of_some (exactly_cons '"' _)).trans ?_
  refine (bind_of_some (many_of_chain (chain_escapeChar text.toList rest))).trans ?_
  refine (bind_of_some (exactly_cons '"' rest)).trans ?_
  rw [String.ofList_toList]
  rfl

theorem isSpace_of_isDigit {c : Char} (digit : c.isDigit = true) : isSpace c = false := by
  rw [← Bool.not_eq_true]
  intro blank
  simp only [isSpace, Bool.or_eq_true, beq_iff_eq] at blank
  rcases blank with ((rfl | rfl) | rfl) | rfl <;> cases digit

/-- **A number is read back**, unless it goes on with a digit. -/
theorem reads_toString (n : Nat) : Reads readNumber (toString n).toList n := by
  have written : (toString n).toList = Nat.toDigits 10 n := Nat.toList_repr
  have digits := Text.isDigit_toDigits n
  rw [written]
  constructor
  · obtain ⟨c, tail, spelled⟩ := List.exists_cons_of_ne_nil (Nat.toDigits_ne_nil (b := 10) (n := n))
    exact ⟨c, tail, spelled, isSpace_of_isDigit (digits c (spelled ▸ List.mem_cons_self))⟩
  · intro rest stop
    refine (bind_of_some (run_append digits stop)).trans ?_
    rw [Text.decimal?_toDigits]
    rfl

/-! ## Documents -/

/-- The text of a document on a level. -/
def text (level : Nat) (document : Json) : List Char := (document.indentedOnto "" level).toList

/-- The text of a member of an object. -/
def memberText (level : Nat) (member : String × Json) : List Char :=
  (quote member.1).toList ++ (": ".toList ++ text level member.2)

mutual
theorem toList_indentedOnto (out : String) (level : Nat) :
    ∀ document : Json, (document.indentedOnto out level).toList = out.toList ++ document.text level
  | number n => by simp [text, indentedOnto]
  | string text => by simp [Json.text, indentedOnto]
  | array [] => by simp [text, indentedOnto]
  | array (element :: elements) => by
    rw [text, indentedOnto, indentedOnto]
    simp [toList_indentedElements, toList_indentedOnto _ _ element]
  | object [] => by simp [text, indentedOnto]
  | object ((key, value) :: members) => by
    rw [text, indentedOnto, indentedOnto]
    simp [toList_indentedMembers, toList_indentedOnto _ _ value]
theorem toList_indentedElements (out : String) (level : Nat) :
    ∀ elements : List Json,
      (indentedElements out level elements).toList = out.toList ++ behind level (elements.map (text level))
  | [] => by simp [indentedElements, behind]
  | element :: elements => by
    simp [indentedElements, behind, toList_indentedElements _ _ elements, toList_indentedOnto _ _ element]
theorem toList_indentedMembers (out : String) (level : Nat) :
    ∀ members : List (String × Json),
      (indentedMembers out level members).toList = out.toList ++ behind level (members.map (memberText level))
  | [] => by simp [indentedMembers, behind]
  | (key, value) :: members => by
    simp [indentedMembers, behind, memberText, toList_indentedMembers _ _ members, toList_indentedOnto _ _ value]
end

@[simp] theorem text_number (level n : Nat) : text level (number n) = (toString n).toList := by
  simp [text, indentedOnto]

@[simp] theorem text_string (level : Nat) (content : String) :
    text level (string content) = (quote content).toList := by
  simp [text, indentedOnto]

@[simp] theorem text_array (level : Nat) (elements : List Json) :
    text level (array elements) = '[' :: block level (elements.map (text (level + 1))) ++ [']'] := by
  cases elements with
  | nil => simp [text, indentedOnto, block]
  | cons element elements =>
    rw [text, indentedOnto]
    simp [toList_indentedElements, toList_indentedOnto, block]

@[simp] theorem text_object (level : Nat) (members : List (String × Json)) :
    text level (object members) = '\x7b' :: block level (members.map (memberText (level + 1))) ++ ['\x7d'] := by
  cases members with
  | nil => simp [text, indentedOnto, block]
  | cons member members =>
    rw [text, indentedOnto]
    simp [toList_indentedMembers, toList_indentedOnto, memberText, block]

/-- A member is read if its value is. -/
theorem Reads.member {value : Reader Json} {level : Nat} {member : String × Json}
    (reads : Reads value (text level member.2) member.2) :
    Reads (readMember value) (memberText level member) member := by
  have key := reads_quote member.1
  obtain ⟨c, tail, spelled, solid⟩ := key.solid
  refine ⟨⟨c, _, by rw [memberText, spelled, List.cons_append], solid⟩, fun rest stop => ?_⟩
  obtain ⟨d, tail', spelled', solid'⟩ := reads.solid
  have gap : space (' ' :: (text level member.2 ++ rest)) = some ((), text level member.2 ++ rest) := by
    have blank : isSpace ' ' = true := by decide
    rw [space_eq, spelled']
    simp [blank, solid']
  rw [memberText, List.append_assoc, List.append_assoc]
  refine (bind_of_some (key.read _ (.cons (by decide) _))).trans ?_
  refine (bind_of_some (space_of_solid (by decide) _)).trans ?_
  refine (bind_of_some (exactly_cons ':' _)).trans ?_
  refine (bind_of_some gap).trans ?_
  exact bind_of_some (reads.read rest stop)

/-- No value starts with a closing bracket. -/
@[simp] theorem readValue_closing (depth : Nat) (rest : List Char) : readValue depth (']' :: rest) = none := by
  cases depth <;> rfl

/-- **A value is read back**, by a reader that may go deeper than the text is long. -/
theorem reads_text (document : Json) (level depth : Nat) (short : (text level document).length ≤ depth) :
    Reads (readValue (depth + 1)) (text level document) document := by
  -- The texts inside brackets are shorter than the whole, so the depth goes down with them.
  induction depth using Nat.strongRecOn generalizing document level with | _ depth ih
  cases document with
  | number n =>
    rw [text_number]
    have reads := reads_toString n
    exact ⟨reads.solid, fun rest stop => orElse_of_some (map_of_some (reads.read rest stop))⟩
  | string content =>
    rw [text_string]
    have reads := reads_quote content
    refine ⟨reads.solid, fun rest stop => ?_⟩
    have noNumber : (number <$> readNumber) ((quote content).toList ++ rest) = none := by
      rw [quote, String.toList_ofList]
      rfl
    exact (orElse_of_none noNumber).trans (orElse_of_some (map_of_some (reads.read rest stop)))
  | array elements =>
    rw [text_array] at short ⊢
    obtain ⟨below, rfl⟩ := Nat.exists_eq_add_one.mpr (Nat.lt_of_lt_of_le (by simp) short)
    have elementsRead : ∀ element ∈ elements, Reads (readValue (below + 1)) (text (level + 1) element) element := by
      intro element member
      have inside := length_lt_bracketed member (text (level + 1)) level '[' ']'
      exact ih below (Nat.lt_succ_self below) element (level + 1) (by omega)
    have reads := reads_bracketed '[' ']' level elementsRead (readValue_closing (below + 1))
      (by decide) (by decide) (by decide)
    refine ⟨reads.solid, fun rest stop => ?_⟩
    refine (orElse_of_none rfl).trans ((orElse_of_none rfl).trans ?_)
    exact orElse_of_some (map_of_some (reads.read rest stop))
  | object members =>
    rw [text_object] at short ⊢
    obtain ⟨below, rfl⟩ := Nat.exists_eq_add_one.mpr (Nat.lt_of_lt_of_le (by simp) short)
    have membersRead : ∀ member ∈ members,
        Reads (readMember (readValue (below + 1))) (memberText (level + 1) member) member := by
      intro member inside
      have whole := length_lt_bracketed inside (memberText (level + 1)) level '\x7b' '\x7d'
      have value : (text (level + 1) member.2).length ≤ (memberText (level + 1) member).length := by
        simp only [memberText, List.length_append]
        omega
      exact (ih below (Nat.lt_succ_self below) member.2 (level + 1) (by omega)).member
    have reads := reads_bracketed '\x7b' '\x7d' level membersRead (fun _ => rfl)
      (by decide) (by decide) (by decide)
    refine ⟨reads.solid, fun rest stop => ?_⟩
    refine (orElse_of_none rfl).trans ((orElse_of_none rfl).trans ((orElse_of_none rfl).trans ?_))
    exact map_of_some (reads.read rest stop)

/-- **A document is read back** from its text, whatever space follows. -/
theorem read?_indented (document : Json) {after : String} (blank : ∀ c ∈ after.toList, isSpace c = true) :
    read? (document.indented ++ after) = some document := by
  have written : (document.indented ++ after).toList = text 0 document ++ after.toList := by
    rw [String.toList_append]
    rfl
  have reads := reads_text document 0 (text 0 document ++ after.toList).length (by simp)
  have stop : StopsAt Char.isDigit after.toList := by
    intro c front
    have space := blank c (List.mem_of_mem_head? front)
    rw [← Bool.not_eq_true]
    intro digit
    rw [isSpace_of_isDigit digit] at space
    cases space
  have rest : after.toList.dropWhile isSpace = [] := by
    simpa using Text.dropWhile_append_stop blank (.nil isSpace)
  obtain ⟨c, tail, spelled, solid⟩ := reads.solid
  have start : space (text 0 document ++ after.toList) = some ((), text 0 document ++ after.toList) := by
    rw [spelled]
    exact space_of_solid solid _
  have whole : readWhole ((text 0 document ++ after.toList).length + 1) (text 0 document ++ after.toList) =
      some (document, []) := by
    refine (bind_of_some start).trans ?_
    refine (bind_of_some (reads.read _ stop)).trans ?_
    refine (bind_of_some (space_eq _)).trans ?_
    rw [rest]
    rfl
  unfold read?
  rw [written, whole]
  rfl

end JackTokens.Json
