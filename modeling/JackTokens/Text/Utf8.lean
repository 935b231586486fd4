/-!
# Text and its bytes

Sources are read as bytes and scanned as characters, while every length and position of the
library is a number of bytes. This module holds the three facts the rest needs: how long a text is
in bytes (`Utf8.size`), what stands behind the first bytes of a text (`Utf8.dropBytes?`, which has
no answer inside a character), and the passage between characters and bytes (`Utf8.encode`,
`Utf8.decode`).

The decoder takes one byte at a time. Between bytes it knows the characters read so far and the
character that has been started, if any: how many of its bytes are missing, the bits read so far,
and the least value that its length may carry. A character that was written longer than needed, a
surrogate and a value above the last scalar are refused when the last byte of the character is in.
-/

namespace JackTokens.Utf8

/-- The number of bytes of a text. -/
def size (text : List Char) : Nat := text.foldl (fun bytes c => bytes + c.utf8Size) 0

@[simp] theorem size_nil : size [] = 0 := rfl

/-- Counting may start from any number. -/
theorem foldl_utf8Size (text : List Char) (bytes : Nat) :
    text.foldl (fun bytes c => bytes + c.utf8Size) bytes = bytes + size text := by
  induction text generalizing bytes with
  | nil => rfl
  | cons c text ih =>
    have one := ih (0 + c.utf8Size)
    have more := ih (bytes + c.utf8Size)
    simp only [size, List.foldl_cons] at one more ⊢
    omega

@[simp] theorem size_cons (c : Char) (text : List Char) :
    size (c :: text) = c.utf8Size + size text := by
  have counted := foldl_utf8Size text (0 + c.utf8Size)
  simpa [size] using counted

@[simp] theorem size_append (first second : List Char) :
    size (first ++ second) = size first + size second := by
  induction first with
  | nil => simp
  | cons c first ih =>
    rw [List.cons_append, size_cons, size_cons, ih]
    omega

/-- A text that holds a character has at least one byte. -/
theorem size_pos {text : List Char} (nonempty : text ≠ []) : 0 < size text := by
  cases text with
  | nil => exact absurd rfl nonempty
  | cons c rest =>
    have := c.utf8Size_pos
    simp only [size_cons]
    omega

/-- What stands behind the first `n` bytes of a text. There is no answer when `n` ends inside a
character or reaches beyond the text. -/
def dropBytes? : Nat → List Char → Option (List Char)
  | 0, text => some text
  | _ + 1, [] => none
  | n + 1, c :: text =>
    if c.utf8Size ≤ n + 1 then dropBytes? (n + 1 - c.utf8Size) text else none

@[simp] theorem dropBytes?_zero (text : List Char) : dropBytes? 0 text = some text := by
  cases text <;> rfl

/-- Dropping goes on from where it has come. -/
theorem dropBytes?_add {first : Nat} {text rest : List Char}
    (dropped : dropBytes? first text = some rest) (second : Nat) :
    dropBytes? (first + second) text = dropBytes? second rest := by
  fun_induction dropBytes? first text with
  | case1 text =>
    simp only [Option.some.injEq] at dropped
    rw [dropped, Nat.zero_add]
  | case2 => simp at dropped
  | case3 n c text fits ih =>
    have grown : n.succ + second = n + second + 1 := by omega
    have left : n + second + 1 - c.utf8Size = n + 1 - c.utf8Size + second := by omega
    rw [grown, dropBytes?, if_pos (by omega), left, ih dropped]
  | case4 => simp at dropped

/-! ## Writing -/

/-- The bytes of one character: one below 80 (hexadecimal), two below 800, three below 10000, and
four from there on. -/
def encodeChar (c : Char) : List UInt8 :=
  let n := c.toNat
  if n < 0x80 then [UInt8.ofNat n]
  else if n < 0x800 then [UInt8.ofNat (0xC0 + n / 64), UInt8.ofNat (0x80 + n % 64)]
  else if n < 0x10000 then
    [UInt8.ofNat (0xE0 + n / 4096), UInt8.ofNat (0x80 + n / 64 % 64), UInt8.ofNat (0x80 + n % 64)]
  else
    [UInt8.ofNat (0xF0 + n / 262144), UInt8.ofNat (0x80 + n / 4096 % 64),
      UInt8.ofNat (0x80 + n / 64 % 64), UInt8.ofNat (0x80 + n % 64)]

/-- The bytes of a text. -/
def encode (text : List Char) : List UInt8 := text.flatMap encodeChar

/-! ## Reading -/

/-- **A character whose first bytes are in**: how many bytes are missing, the bits so far, and the
least value that a character of this length may carry. -/
structure Started where
  missing : Nat
  bits : Nat
  least : Nat
  deriving DecidableEq, Repr

/-- **What the decoder knows between two bytes**: the characters read so far, the latest first, and
the character that has been started, if any. -/
structure Decoder where
  read : List Char := []
  started : Option Started := none
  deriving DecidableEq, Repr

/-- The character with a given number, if it is a scalar value. -/
def scalar? (n : Nat) : Option Char :=
  if valid : n.isValidChar then some (Char.ofNatAux n valid) else none

/-- The first byte of a character: an ASCII character is complete at once, and the other admissible
bytes announce one, two or three bytes to come. -/
def Decoder.first (d : Decoder) (b : Nat) : Option Decoder :=
  if b < 0x80 then some { d with read := Char.ofNat b :: d.read }
  else if b < 0xC2 then none
  else if b < 0xE0 then some { d with started := some ⟨1, b - 0xC0, 0x80⟩ }
  else if b < 0xF0 then some { d with started := some ⟨2, b - 0xE0, 0x800⟩ }
  else if b < 0xF5 then some { d with started := some ⟨3, b - 0xF0, 0x10000⟩ }
  else none

/-- A later byte of a started character. The last one completes it, if the value is a scalar that
needs this many bytes. -/
def Decoder.later (d : Decoder) (s : Started) (b : Nat) : Option Decoder :=
  if b < 0x80 ∨ 0xC0 ≤ b then none
  else
    let bits := s.bits * 64 + (b - 0x80)
    if s.missing = 1 then
      if bits < s.least then none
      else (scalar? bits).map fun c => ⟨c :: d.read, none⟩
    else some { d with started := some ⟨s.missing - 1, bits, s.least⟩ }

/-- One byte: the decoder behind it, or nothing where no text holds this byte. -/
def Decoder.step (d : Decoder) (b : UInt8) : Option Decoder :=
  match d.started with
  | none => d.first b.toNat
  | some s => d.later s b.toNat

/-- The text that some bytes spell, if they spell one: no byte may be out of place, and no character
may be left unfinished at the end. -/
def decode (bytes : List UInt8) : Option (List Char) :=
  match bytes.foldlM Decoder.step {} with
  | some ⟨read, none⟩ => some read.reverse
  | _ => none

end JackTokens.Utf8
