import JackTokens.Proofs.Reading
import Mathlib.Data.List.Basic
import Mathlib.Tactic.Ring

/-!
# Bytes that spell a text

The decoder takes bytes one by one and keeps the bits of a character that is not complete. This module says
what comes of it without any such state: bytes spell a text if they are the bytes of its characters, one after
the other (`encode_eq_iff`), and otherwise there is a place where they go wrong (`exists_illFormedAt`).

**Characters.** A character takes one byte, or it has one of three forms (`Form`), which differ in the number
of later bytes, in the mark on the first byte and in the values they are for. Behind a first byte the decoder
takes as many later bytes as its form has, and it accepts the value they add up to if that is a scalar of this
form (`Decoder.foldlM_later`, `Decoder.exists_later`). From the value the bytes can be written down again
(`laterBytes_valueOf`), so what is accepted is the character as it is written, and no longer form of it.

**Ill-formed bytes** (`IllFormedAt`). Everything before the place is text, and behind it no character begins,
whichever one might be expected. Both are said about the standard encoding of characters
(`String.utf8EncodeChar`), which is the one of this library (`encodeChar_eq`).
-/

namespace JackTokens.Utf8

/-! ## The bytes of a character -/

theorem toNat_lt (c : Char) : c.toNat < 0x110000 := by
  have valid : c.toNat.isValidChar := c.valid
  rcases valid with low | high
  · omega
  · exact high.2

/-- **Characters are written as the standard has it.** -/
theorem encodeChar_eq (c : Char) : encodeChar c = String.utf8EncodeChar c := by
  have bound := toNat_lt c
  have same : c.val.toNat = c.toNat := rfl
  simp only [encodeChar, String.utf8EncodeChar, same, ← Nat.lt_succ_iff, Nat.succ_eq_add_one, Nat.reduceAdd]
  split
  · rfl
  split
  · have head : 0xC0 + c.toNat / 64 = c.toNat / 64 % 32 + 0xC0 := by omega
    rw [head, Nat.add_comm 0x80]
  split
  · have head : 0xE0 + c.toNat / 4096 = c.toNat / 4096 % 16 + 0xE0 := by omega
    rw [head, Nat.add_comm 0x80, Nat.add_comm 0x80]
  · have head : 0xF0 + c.toNat / 262144 = c.toNat / 262144 % 8 + 0xF0 := by omega
    rw [head, Nat.add_comm 0x80, Nat.add_comm 0x80, Nat.add_comm 0x80]

/-- **A form of characters that take more than one byte**: how many later bytes there are, the mark on the
first byte, and the values that are written like this, from the least up to a limit. -/
structure Form where
  missing : Nat
  mark : Nat
  least : Nat
  limit : Nat

/-- Characters of two, three and four bytes. -/
def Form.all : List Form :=
  [⟨1, 0xC0, 0x80, 0x800⟩, ⟨2, 0xE0, 0x800, 0x10000⟩, ⟨3, 0xF0, 0x10000, 0x110000⟩]

theorem Form.cases_of_mem_all {form : Form} (member : form ∈ all) :
    form = ⟨1, 0xC0, 0x80, 0x800⟩ ∨ form = ⟨2, 0xE0, 0x800, 0x10000⟩ ∨
      form = ⟨3, 0xF0, 0x10000, 0x110000⟩ := by
  simpa [all] using member

/-- A character is ASCII or has one of the forms. -/
theorem form_cases (c : Char) :
    c.toNat < 0x80 ∨ ∃ form ∈ Form.all, form.least ≤ c.toNat ∧ c.toNat < form.limit := by
  have bound := toNat_lt c
  simp only [Form.all, List.exists_mem_cons_iff, List.not_mem_nil, false_and, exists_false]
  omega

/-- The later bytes of a value, the last of which carries its last six bits. -/
def laterBytes : Nat → Nat → List UInt8
  | 0, _ => []
  | k + 1, n => UInt8.ofNat (0x80 + n / 64 ^ k % 64) :: laterBytes k n

@[simp] theorem length_laterBytes (k n : Nat) : (laterBytes k n).length = k := by
  induction k with
  | zero => rfl
  | succ k ih => rw [laterBytes, List.length_cons, ih]

theorem encodeChar_ascii {c : Char} (small : c.toNat < 0x80) : encodeChar c = [UInt8.ofNat c.toNat] :=
  if_pos small

theorem encodeChar_of_form {form : Form} (member : form ∈ Form.all) {c : Char} (large : form.least ≤ c.toNat)
    (small : c.toNat < form.limit) :
    encodeChar c =
      UInt8.ofNat (form.mark + c.toNat / 64 ^ form.missing) :: laterBytes form.missing c.toNat := by
  unfold encodeChar
  rcases Form.cases_of_mem_all member with rfl | rfl | rfl <;> dsimp only at large small
  · have noByte : ¬ c.toNat < 0x80 := Nat.not_lt.mpr large
    simp only [if_neg noByte, if_pos small, laterBytes, Nat.reducePow, Nat.div_one]
  · have noByte : ¬ c.toNat < 0x80 := by omega
    have noTwo : ¬ c.toNat < 0x800 := Nat.not_lt.mpr large
    simp only [if_neg noByte, if_neg noTwo, if_pos small, laterBytes, Nat.reducePow, Nat.div_one]
  · have noByte : ¬ c.toNat < 0x80 := by omega
    have noTwo : ¬ c.toNat < 0x800 := by omega
    have noThree : ¬ c.toNat < 0x10000 := Nat.not_lt.mpr large
    simp only [if_neg noByte, if_neg noTwo, if_neg noThree, laterBytes, Nat.reducePow, Nat.div_one]

/-! ## Later bytes -/

/-- **A later byte** of a character, as opposed to its first. -/
def IsLater (b : UInt8) : Prop := 0x80 ≤ b.toNat ∧ b.toNat < 0xC0

/-- The value that some bits and the bits of later bytes add up to. -/
def valueOf (bits : Nat) (later : List UInt8) : Nat :=
  later.foldl (fun bits b => bits * 64 + (b.toNat - 0x80)) bits

theorem valueOf_cons (bits : Nat) (b : UInt8) (later : List UInt8) :
    valueOf bits (b :: later) = valueOf (bits * 64 + (b.toNat - 0x80)) later := by
  rw [valueOf, List.foldl_cons, valueOf]

theorem toNat_ofNat {n : Nat} (small : n < 0x100) : (UInt8.ofNat n).toNat = n :=
  UInt8.toNat_ofNat_of_lt' small

@[simp] theorem toNat_later (n : Nat) : (UInt8.ofNat (0x80 + n % 64)).toNat = 0x80 + n % 64 :=
  toNat_ofNat (by omega)

theorem isLater_laterBytes (k n : Nat) : ∀ b ∈ laterBytes k n, IsLater b := by
  induction k with
  | zero => exact List.forall_mem_nil _
  | succ k ih =>
    refine List.forall_mem_cons.mpr ⟨?_, ih⟩
    rw [IsLater, toNat_later]
    omega

/-- **The later bytes carry the last bits of a value.** -/
theorem valueOf_laterBytes (bits k n : Nat) :
    valueOf bits (laterBytes k n) = bits * 64 ^ k + n % 64 ^ k := by
  induction k generalizing bits with
  | zero => simp [laterBytes, valueOf, Nat.mod_one]
  | succ k ih =>
    rw [laterBytes, valueOf_cons, ih, toNat_later, Nat.add_sub_cancel_left, Nat.mod_pow_succ, Nat.pow_succ]
    ring

/-- **And nothing else has these bits.** -/
theorem laterBytes_valueOf {later : List UInt8} (shape : ∀ b ∈ later, IsLater b) (bits : Nat) :
    valueOf bits later / 64 ^ later.length = bits ∧
      laterBytes later.length (valueOf bits later) = later := by
  induction later generalizing bits with
  | nil => exact ⟨Nat.div_one bits, rfl⟩
  | cons b later ih =>
    obtain ⟨⟨low, high⟩, shape⟩ := List.forall_mem_cons.mp shape
    obtain ⟨upper, lower⟩ := ih shape (bits * 64 + (b.toNat - 0x80))
    rw [← valueOf_cons] at upper lower
    rw [List.length_cons, laterBytes, lower, Nat.pow_succ, ← Nat.div_div_eq_div_mul, upper]
    have byte : 0x80 + (bits * 64 + (b.toNat - 0x80)) % 64 = b.toNat := by omega
    rw [byte, UInt8.ofNat_toNat]
    exact ⟨by omega, rfl⟩

@[simp] theorem scalar?_toNat (c : Char) : scalar? c.toNat = some c := by
  have valid : c.toNat.isValidChar := c.valid
  rw [scalar?, dif_pos valid]
  rfl

namespace Decoder

variable {read final : List Char} {s : Started} {b : UInt8}

theorem step_started (later : IsLater b) (more : s.missing ≠ 1) :
    step ⟨read, some s⟩ b =
      some ⟨read, some ⟨s.missing - 1, s.bits * 64 + (b.toNat - 0x80), s.least⟩⟩ := by
  have shape : ¬ (b.toNat < 0x80 ∨ 0xC0 ≤ b.toNat) := by
    unfold IsLater at later
    omega
  simp only [step, Decoder.later, if_neg shape, if_neg more]

theorem step_completed (later : IsLater b) (last : s.missing = 1) :
    step ⟨read, some s⟩ b =
      if s.bits * 64 + (b.toNat - 0x80) < s.least then none
      else (scalar? (s.bits * 64 + (b.toNat - 0x80))).map fun c => ⟨c :: read, none⟩ := by
  have shape : ¬ (b.toNat < 0x80 ∨ 0xC0 ≤ b.toNat) := by
    unfold IsLater at later
    omega
  simp only [step, Decoder.later, if_neg shape, if_pos last]

theorem isLater_of_step {d : Decoder} (taken : step ⟨read, some s⟩ b = some d) : IsLater b := by
  by_cases shape : b.toNat < 0x80 ∨ 0xC0 ≤ b.toNat
  · simp only [step, Decoder.later, if_pos shape] at taken
    cases taken
  · exact ⟨by omega, by omega⟩

/-- **A character is completed** by as many later bytes as it is missing, if their value is a scalar that
needs that many. -/
theorem foldlM_later {later : List UInt8} {c : Char} (some : 0 < s.missing)
    (length : later.length = s.missing) (shape : ∀ b ∈ later, IsLater b)
    (least : s.least ≤ valueOf s.bits later) (scalar : scalar? (valueOf s.bits later) = .some c) :
    later.foldlM step ⟨read, .some s⟩ = .some ⟨c :: read, none⟩ := by
  induction later generalizing s with
  | nil =>
    rw [List.length_nil] at length
    omega
  | cons b later ih =>
    rw [List.length_cons] at length
    obtain ⟨first, shape⟩ := List.forall_mem_cons.mp shape
    rw [valueOf_cons] at least scalar
    rw [List.foldlM_cons]
    by_cases last : s.missing = 1
    · have none : later = [] := List.length_eq_zero_iff.mp (by omega)
      subst none
      have enough : ¬ s.bits * 64 + (b.toNat - 0x80) < s.least := Nat.not_lt.mpr least
      have complete : scalar? (s.bits * 64 + (b.toNat - 0x80)) = .some c := scalar
      rw [step_completed first last, if_neg enough, complete]
      rfl
    · rw [step_started first last]
      have more : 0 < s.missing - 1 := by omega
      have fewer : later.length = s.missing - 1 := by omega
      let next : Started := ⟨s.missing - 1, s.bits * 64 + (b.toNat - 0x80), s.least⟩
      exact @ih next more fewer shape least scalar

/-- **No other bytes complete it.** -/
theorem exists_later (some : 0 < s.missing) {bytes : List UInt8}
    (run : bytes.foldlM step ⟨read, .some s⟩ = .some ⟨final, none⟩) :
    ∃ later c rest, bytes = later ++ rest ∧ later.length = s.missing ∧ (∀ b ∈ later, IsLater b) ∧
      s.least ≤ valueOf s.bits later ∧ scalar? (valueOf s.bits later) = .some c := by
  induction bytes generalizing s with
  | nil => cases run
  | cons b bytes ih =>
    rw [List.foldlM_cons] at run
    obtain ⟨d, taken, run⟩ := Option.bind_eq_some_iff.mp run
    have first := isLater_of_step taken
    by_cases last : s.missing = 1
    · rw [step_completed first last] at taken
      split at taken
      · cases taken
      · rename_i enough
        obtain ⟨c, scalar, -⟩ := Option.map_eq_some_iff.mp taken
        refine ⟨[b], c, bytes, rfl, last.symm, List.forall_mem_singleton.mpr first, ?_, scalar⟩
        exact Nat.not_lt.mp enough
    · rw [step_started first last] at taken
      cases taken
      have more : 0 < s.missing - 1 := by omega
      obtain ⟨later, c, rest, rfl, length, shape, least, scalar⟩ := ih more run
      rw [← valueOf_cons] at least scalar
      refine ⟨b :: later, c, rest, rfl, ?_, List.forall_mem_cons.mpr ⟨first, shape⟩, least, scalar⟩
      rw [List.length_cons, length]
      exact Nat.sub_add_cancel some

/-! ## First bytes -/

theorem step_ascii (small : b.toNat < 0x80) :
    step ⟨read, none⟩ b = some ⟨Char.ofNat b.toNat :: read, none⟩ := by
  rw [step, first, if_pos small]

/-- **The first byte of a character that has more**: its mark, and the first bits of a value of that form. -/
def Opens (form : Form) (b : UInt8) : Prop :=
  form.mark + form.least / 64 ^ form.missing ≤ b.toNat ∧
    b.toNat ≤ form.mark + (form.limit - 1) / 64 ^ form.missing

theorem step_opens {form : Form} (member : form ∈ Form.all) (opens : Opens form b) :
    step ⟨read, none⟩ b = some ⟨read, some ⟨form.missing, b.toNat - form.mark, form.least⟩⟩ := by
  obtain ⟨large, small⟩ := opens
  rcases Form.cases_of_mem_all member with rfl | rfl | rfl
  all_goals
    simp only [Nat.reducePow, Nat.reduceDiv, Nat.reduceSub, Nat.reduceAdd] at large small
    simp only [step, first]
  · rw [if_neg (by omega), if_neg (by omega), if_pos (by omega)]
  · rw [if_neg (by omega), if_neg (by omega), if_neg (by omega), if_pos (by omega)]
  · rw [if_neg (by omega), if_neg (by omega), if_neg (by omega), if_neg (by omega), if_pos (by omega)]

/-- A first byte is ASCII or opens a character of one of the forms. -/
theorem first_cases {d : Decoder} (taken : step ⟨read, none⟩ b = some d) :
    b.toNat < 0x80 ∨ ∃ form ∈ Form.all, Opens form b := by
  simp only [step, first] at taken
  simp only [Form.all, List.exists_mem_cons_iff, List.not_mem_nil, false_and, exists_false, Opens,
    Nat.reducePow, Nat.reduceDiv, Nat.reduceSub, Nat.reduceAdd]
  repeat' split at taken
  all_goals cases taken
  all_goals omega

end Decoder

/-! ## One character -/

theorem Form.bounds : ∀ form ∈ all,
    0 < form.missing ∧ form.mark + (form.limit - 1) / 64 ^ form.missing < 0x100 := by
  decide

/-- The first byte of a character opens one of its form. -/
theorem opens_ofNat {form : Form} (member : form ∈ Form.all) {n : Nat} (large : form.least ≤ n)
    (small : n < form.limit) :
    (UInt8.ofNat (form.mark + n / 64 ^ form.missing)).toNat = form.mark + n / 64 ^ form.missing ∧
      Decoder.Opens form (UInt8.ofNat (form.mark + n / 64 ^ form.missing)) := by
  have lower : form.least / 64 ^ form.missing ≤ n / 64 ^ form.missing := Nat.div_le_div_right large
  have upper : n / 64 ^ form.missing ≤ (form.limit - 1) / 64 ^ form.missing :=
    Nat.div_le_div_right (Nat.le_sub_one_of_lt small)
  have byte : form.mark + n / 64 ^ form.missing < 0x100 :=
    Nat.lt_of_le_of_lt (Nat.add_le_add_left upper _) (Form.bounds form member).2
  refine ⟨toNat_ofNat byte, ?_⟩
  rw [Decoder.Opens, toNat_ofNat byte]
  exact ⟨Nat.add_le_add_left lower _, Nat.add_le_add_left upper _⟩

/-- A character that is opened as one of a form is below its limit. -/
theorem lt_limit {form : Form} (member : form ∈ Form.all) {b : UInt8} (opens : Decoder.Opens form b) {c : Char}
    (upper : c.toNat / 64 ^ form.missing = b.toNat - form.mark) : c.toNat < form.limit := by
  have bound := toNat_lt c
  obtain ⟨-, small⟩ := opens
  rcases Form.cases_of_mem_all member with rfl | rfl | rfl
  all_goals
    simp only [Nat.reducePow, Nat.reduceDiv, Nat.reduceSub, Nat.reduceAdd] at small upper ⊢
    omega

/-- **The bytes of a character spell it.** -/
@[simp] theorem decode_encodeChar (c : Char) : decode (encodeChar c) = some [c] := by
  rw [decode_eq_some_iff, List.reverse_singleton]
  rcases form_cases c with ascii | ⟨form, member, large, small⟩
  · have byte := toNat_ofNat (Nat.lt_trans ascii (by decide : 0x80 < 0x100))
    rw [encodeChar_ascii ascii, List.foldlM_cons, Decoder.step_ascii (by rw [byte]; exact ascii), byte,
      Char.ofNat_toNat]
    rfl
  · obtain ⟨byte, opens⟩ := opens_ofNat member large small
    rw [encodeChar_of_form member large small, List.foldlM_cons, Decoder.step_opens member opens, byte,
      Nat.add_sub_cancel_left]
    have value : valueOf (c.toNat / 64 ^ form.missing) (laterBytes form.missing c.toNat) = c.toNat := by
      rw [valueOf_laterBytes, Nat.div_add_mod']
    refine Decoder.foldlM_later (Form.bounds form member).1 (length_laterBytes _ _)
      (isLater_laterBytes _ _) ?_ ?_
    · rw [value]
      exact large
    · rw [value, scalar?_toNat]

/-- **Bytes that spell a text begin with a character** as it is written. -/
theorem exists_encodeChar {b : UInt8} {bytes : List UInt8} {text : List Char}
    (spelled : decode (b :: bytes) = some text) : ∃ c rest, b :: bytes = encodeChar c ++ rest := by
  have run := decode_eq_some_iff.mp spelled
  rw [List.foldlM_cons] at run
  obtain ⟨d, taken, run⟩ := Option.bind_eq_some_iff.mp run
  rcases Decoder.first_cases taken with ascii | ⟨form, member, opens⟩
  · have value := toNat_charOfNat ascii
    refine ⟨Char.ofNat b.toNat, bytes, ?_⟩
    rw [encodeChar_ascii (by rw [value]; exact ascii), value, UInt8.ofNat_toNat]
    rfl
  · rw [Decoder.step_opens member opens] at taken
    cases taken
    obtain ⟨later, c, rest, rfl, length, shape, least, scalar⟩ :=
      Decoder.exists_later (Form.bounds form member).1 run
    obtain ⟨upper, lower⟩ := laterBytes_valueOf shape (b.toNat - form.mark)
    have value : c.toNat = valueOf (b.toNat - form.mark) later := toNat_of_scalar? scalar
    rw [length, ← value] at upper lower
    have marked : form.mark ≤ b.toNat := Nat.le_trans (Nat.le_add_right _ _) opens.1
    refine ⟨c, rest, ?_⟩
    rw [encodeChar_of_form member (by rw [value]; exact least) (lt_limit member opens upper), upper, lower,
      Nat.add_sub_cancel' marked, UInt8.ofNat_toNat]
    rfl

/-! ## Texts -/

@[simp] theorem encode_cons (c : Char) (text : List Char) : encode (c :: text) = encodeChar c ++ encode text :=
  List.flatMap_cons

@[simp] theorem encode_append (first second : List Char) : encode (first ++ second) = encode first ++ encode second :=
  List.flatMap_append

/-- **The bytes of a text spell it.** -/
@[simp] theorem decode_encode (text : List Char) : decode (encode text) = some text := by
  induction text with
  | nil => rfl
  | cons c text ih => rw [encode_cons, decode_append (decode_encodeChar c), ih]; rfl

theorem length_encodeChar_pos (c : Char) : 0 < (encodeChar c).length := by
  rw [encodeChar_eq, String.length_utf8EncodeChar]
  exact c.utf8Size_pos

/-- **No other bytes spell it.** -/
theorem encode_of_decode {bytes : List UInt8} {text : List Char} (spelled : decode bytes = some text) :
    encode text = bytes := by
  cases bytes with
  | nil =>
    cases spelled
    rfl
  | cons b bytes =>
    obtain ⟨c, rest, split⟩ := exists_encodeChar spelled
    have shorter : rest.length < (b :: bytes).length := by
      have some := length_encodeChar_pos c
      rw [split, List.length_append]
      omega
    rw [split, decode_append (decode_encodeChar c)] at spelled
    obtain ⟨more, behind, rfl⟩ := Option.map_eq_some_iff.mp spelled
    rw [split, ← encode_of_decode behind]
    exact encode_cons c more
termination_by bytes.length

/-- **Bytes spell a text if they are its bytes**, and only then. -/
theorem encode_eq_iff {text : List Char} {bytes : List UInt8} :
    encode text = bytes ↔ decode bytes = some text := by
  constructor
  · rintro rfl
    exact decode_encode text
  · exact encode_of_decode

@[simp] theorem toByteArray_encode (text : List Char) : (encode text).toByteArray = text.utf8Encode := by
  have same : encodeChar = String.utf8EncodeChar := funext encodeChar_eq
  rw [encode, same, List.utf8Encode]

/-- Bytes are well formed, as the standard has it, if they spell a text. -/
theorem isValidUTF8_iff {bytes : List UInt8} :
    bytes.toByteArray.IsValidUTF8 ↔ ∃ text, decode bytes = some text := by
  constructor
  · rintro ⟨text, same⟩
    refine ⟨text, encode_eq_iff.mp ?_⟩
    rw [← toByteArray_encode] at same
    have lists := congrArg (fun array => array.data.toList) same
    simpa only [List.toList_data_toByteArray] using lists.symm
  · rintro ⟨text, spelled⟩
    refine ⟨text, ?_⟩
    rw [← encode_of_decode spelled, toByteArray_encode]

/-! ## Ill-formed bytes -/

/-- **Bytes are ill-formed at a place**: before it they are well formed, and behind it, where there are more
of them, no character begins. -/
structure IllFormedAt (bytes : List UInt8) (place : Nat) : Prop where
  inside : place < bytes.length
  before : (bytes.take place).toByteArray.IsValidUTF8
  broken : ∀ c : Char, ¬ String.utf8EncodeChar c <+: bytes.drop place

/-- Where no character begins there is no text. -/
theorem decode_eq_none {bytes : List UInt8} (nonempty : bytes ≠ [])
    (broken : ∀ c : Char, ¬ String.utf8EncodeChar c <+: bytes) : decode bytes = none := by
  cases bytes with
  | nil => exact absurd rfl nonempty
  | cons b bytes =>
    cases spelled : decode (b :: bytes) with
    | none => rfl
    | some text =>
      obtain ⟨c, rest, split⟩ := exists_encodeChar spelled
      rw [encodeChar_eq] at split
      exact absurd ⟨rest, split.symm⟩ (broken c)

/-- **Bytes that spell no text are ill-formed somewhere.** -/
theorem exists_illFormedAt {bytes : List UInt8} (garbled : decode bytes = none) :
    ∃ place, IllFormedAt bytes place := by
  by_cases begins : ∃ c rest, bytes = encodeChar c ++ rest
  · obtain ⟨c, rest, split⟩ := begins
    have shorter : rest.length < bytes.length := by
      have some := length_encodeChar_pos c
      rw [split, List.length_append]
      omega
    have later : decode rest = none := by
      rw [split, decode_append (decode_encodeChar c)] at garbled
      exact Option.map_eq_none_iff.mp garbled
    obtain ⟨place, inside, before, broken⟩ := exists_illFormedAt later
    obtain ⟨text, spelled⟩ := isValidUTF8_iff.mp before
    refine ⟨(encodeChar c).length + place, ?_, isValidUTF8_iff.mpr ⟨c :: text, ?_⟩, ?_⟩
    · rw [split, List.length_append]
      omega
    · rw [split, List.take_length_add_append, decode_append (decode_encodeChar c), spelled]
      rfl
    · rw [split, List.drop_length_add_append]
      exact broken
  · have nonempty : bytes ≠ [] := by
      rintro rfl
      cases garbled
    refine ⟨0, List.length_pos_iff.mpr nonempty, isValidUTF8_iff.mpr ⟨[], rfl⟩, ?_⟩
    rintro c ⟨rest, split⟩
    rw [List.drop_zero, ← encodeChar_eq] at split
    exact begins ⟨c, rest, split.symm⟩
termination_by bytes.length

/-- **They go wrong at one place only.** -/
theorem IllFormedAt.eq {bytes : List UInt8} {place other : Nat} (here : IllFormedAt bytes place)
    (there : IllFormedAt bytes other) : place = other := by
  have behind {first second : Nat} (before : IllFormedAt bytes first) (after : IllFormedAt bytes second) :
      ¬ first < second := by
    -- The bytes between the two places would be text, and so would begin with a character.
    intro less
    obtain ⟨n, rfl⟩ := Nat.exists_eq_add_of_lt less
    obtain ⟨text, spelled⟩ := isValidUTF8_iff.mp before.before
    obtain ⟨longer, spelled'⟩ := isValidUTF8_iff.mp after.before
    have broken : ∀ c : Char, ¬ String.utf8EncodeChar c <+: (bytes.drop first).take (n + 1) :=
      fun c begins => before.broken c (begins.trans (List.take_prefix _ _))
    have nonempty : (bytes.drop first).take (n + 1) ≠ [] := by
      have inside := before.inside
      rw [← List.length_pos_iff, List.length_take, List.length_drop]
      omega
    rw [Nat.add_assoc, List.take_add, decode_append spelled, decode_eq_none nonempty broken] at spelled'
    cases spelled'
  exact Nat.le_antisymm (Nat.not_lt.mp (behind there here)) (Nat.not_lt.mp (behind here there))

/-- A character would show in the first four bytes. -/
theorem broken_iff {bytes : List UInt8} (nonempty : bytes ≠ []) :
    (∀ c : Char, ¬ String.utf8EncodeChar c <+: bytes) ↔ ∀ n ∈ [1, 2, 3, 4], decode (bytes.take n) = none := by
  constructor
  · intro broken n member
    have some : bytes.take n ≠ [] := by
      have : n ≠ 0 := by rintro rfl; simp at member
      simp [nonempty, this]
    exact decode_eq_none some fun c begins => broken c (begins.trans (List.take_prefix n bytes))
  · intro none c begins
    have length : c.utf8Size ∈ [1, 2, 3, 4] := by
      have positive := c.utf8Size_pos
      have four := c.utf8Size_le_four
      simp only [List.mem_cons, List.not_mem_nil, or_false]
      omega
    have spelled := none c.utf8Size length
    rw [← String.length_utf8EncodeChar, ← List.prefix_iff_eq_take.mp begins, ← encodeChar_eq,
      decode_encodeChar] at spelled
    cases spelled

instance (bytes : List UInt8) (place : Nat) : Decidable (IllFormedAt bytes place) :=
  decidable_of_iff (place < bytes.length ∧ (decode (bytes.take place)).isSome ∧
      ∀ n ∈ ([1, 2, 3, 4] : List Nat), decode ((bytes.drop place).take n) = none) <| by
    have nonempty (inside : place < bytes.length) : bytes.drop place ≠ [] := by
      rw [← List.length_pos_iff, List.length_drop]
      omega
    constructor
    · rintro ⟨inside, text, none⟩
      have before := isValidUTF8_iff.mpr (Option.isSome_iff_exists.mp text)
      exact ⟨inside, before, (broken_iff (nonempty inside)).mpr none⟩
    · rintro ⟨inside, before, broken⟩
      have text := Option.isSome_iff_exists.mpr (isValidUTF8_iff.mp before)
      exact ⟨inside, text, (broken_iff (nonempty inside)).mp broken⟩

/-! ## Newlines in bytes -/

theorem newline_mem_of_encode {text : List Char} (newline : newlineByte ∈ encode text) : '\n' ∈ text := by
  rcases newlineByte_cases (encode text) with oneLine | ⟨body, rest, oneLine, split⟩
  · exact absurd newline oneLine
  · have spelled := decode_encode text
    rw [split] at spelled
    obtain ⟨line, more, -, -, -, rfl⟩ := decode_line oneLine spelled
    simp

theorem newlineByte_not_mem_encode {body : List Char} (oneLine : '\n' ∉ body) :
    newlineByte ∉ encode body := fun newline => oneLine (newline_mem_of_encode newline)

theorem encode_line (body rest : List Char) :
    encode (body ++ '\n' :: rest) = encode body ++ newlineByte :: encode rest := by
  rw [encode_append, encode_cons]
  rfl

/-- A text has as many newlines as its bytes. -/
@[simp] theorem count_newlineByte_encode (text : List Char) : (encode text).count newlineByte = text.count '\n' := by
  induction text using Text.linesInduction with
  | nil => rfl
  | last body oneLine _ =>
    have none := newlineByte_not_mem_encode oneLine
    rw [List.count_eq_zero_of_not_mem oneLine, List.count_eq_zero_of_not_mem none]
  | line body rest oneLine ih =>
    have none := newlineByte_not_mem_encode oneLine
    rw [encode_line, List.count_append, List.count_append, List.count_cons_self, List.count_cons_self, ih,
      List.count_eq_zero_of_not_mem oneLine, List.count_eq_zero_of_not_mem none]

end JackTokens.Utf8
