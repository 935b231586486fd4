import JackTokens.Toml.Quoted
import JackTokens.Toml.Value

/-!
# Scalars of TOML

Strings, truth values, numbers and dates. Of numbers and dates it matters only whether they are
written well, but that has rules of its own: an integer fits in 64 bits, a float does not round to
infinity unless it has a minus, and a day has to exist in the calendar.
-/

namespace JackTokens.Toml.Reader

/-! ## Numbers -/

/-- Reads digits, with single underscores between them allowed; the underscores are left out. -/
def digits (accepts : Char → Bool) : Reader (List Char) := do
  let first ← char accepts
  let others ← many (char accepts <|> (exactly '_' *> char accepts))
  return first :: others

/-- The number that digits of a base stand for. -/
def digitsValue (base : Nat) (text : List Char) : Nat :=
  text.foldl (fun value c => base * value + (hexDigit? c).getD 0) 0

/-- Reads a sign, which may be missing: is it a minus? -/
def sign : Reader Bool :=
  (exactly '-' *> pure true) <|> (exactly '+' *> pure false) <|> pure false

/-- Reads the digits of a decimal number: a zero, or digits that do not start with one. -/
def whole : Reader (List Char) := (exactly '0' *> pure ['0']) <|> digits Char.isDigit

/-- Integers are signed and have 64 bits. -/
def fits (value : Int) : Bool := -9223372036854775808 ≤ value && value ≤ 9223372036854775807

/-- Reads an integer with the mark of a base, and no sign. -/
def based (mark : String) (base : Nat) (accepts : Char → Bool) : Reader Int := do
  word mark
  return digitsValue base (← digits accepts)

/-- Reads a decimal integer. -/
def decimal : Reader Int := do
  let minus ← sign
  let value := digitsValue 10 (← whole)
  return if minus then -value else value

/-- Reads an integer. -/
def integer : Reader Value := do
  let value ← based "0x" 16 (fun c => (hexDigit? c).isSome)
    <|> based "0o" 8 (fun c => '0' ≤ c && c ≤ '7')
    <|> based "0b" 2 (fun c => c == '0' || c == '1')
    <|> decimal
  if fits value then return .integer value else failure

/-- Does the number `digits · 10 ^ exponent` round to infinity? It does from the middle between the
largest double and the next power of two on. A number below `10 ^ 308` is too small for that and one from
`10 ^ 309` on is large enough, so only those in between are computed. -/
def roundsToInfinity (digits : List Char) (exponent : Int) : Bool :=
  let significant := digits.dropWhile (· == '0')
  let size : Int := significant.length + exponent
  if significant.isEmpty || size < 309 then false
  else if 309 < size then true
  else
    let value := digitsValue 10 significant
    let limit := Nat.pow 2 1024 - Nat.pow 2 970
    limit * Nat.pow 10 (-exponent).toNat ≤ value * Nat.pow 10 exponent.toNat

/-- Reads the exponent of a float. -/
def exponent : Reader Int := do
  let _ ← char fun c => c == 'e' || c == 'E'
  let minus ← sign
  let value := digitsValue 10 (← digits Char.isDigit)
  return if minus then -value else value

/-- Reads a float in digits: with a fraction, an exponent, or both. -/
def digitalFloat : Reader Unit := do
  let minus ← sign
  let front ← whole
  let (fraction, power) ← (do
      exactly '.'
      let fraction ← digits Char.isDigit
      let power ← optional exponent
      return (fraction, power.getD 0))
    <|> (do
      let power ← exponent
      return ([], power))
  if !minus && roundsToInfinity (front ++ fraction) (power - fraction.length) then failure

/-- Reads infinity, or what is not a number. -/
def specialFloat : Reader Unit := do
  let _ ← sign
  word "inf" <|> word "nan"

/-- Reads a float. -/
def float : Reader Value := (digitalFloat <|> specialFloat) *> pure .float

/-! ## Dates and times -/

/-- Reads a number of a fixed count of digits, within bounds. -/
def numeral (count least greatest : Nat) : Reader Nat := fun text =>
  let front := text.take count
  let value := digitsValue 10 front
  if front.length = count ∧ front.all Char.isDigit ∧ least ≤ value ∧ value ≤ greatest then
    some (value, text.drop count)
  else none

/-- The days of a month. -/
def monthLength (year month : Nat) : Nat :=
  if month = 2 then
    if year % 4 = 0 ∧ (year % 100 ≠ 0 ∨ year % 400 = 0) then 29 else 28
  else if month = 4 ∨ month = 6 ∨ month = 9 ∨ month = 11 then 30
  else 31

/-- Reads a day of the calendar. -/
def date : Reader Unit := do
  let year ← numeral 4 0 9999
  exactly '-'
  let month ← numeral 2 1 12
  exactly '-'
  let _ ← numeral 2 1 (monthLength year month)

/-- Reads a time of day. A minute may have a leap second. -/
def time : Reader Unit := do
  let _ ← numeral 2 0 23
  exactly ':'
  let _ ← numeral 2 0 59
  exactly ':'
  let _ ← numeral 2 0 60
  let _ ← optional do
    exactly '.'
    let _ ← char Char.isDigit
    let _ ← run Char.isDigit

/-- Reads the distance of a time from that of the prime meridian. -/
def offset : Reader Unit :=
  (do let _ ← char fun c => c == 'Z' || c == 'z') <|> (do
    let _ ← char fun c => c == '+' || c == '-'
    let _ ← numeral 2 0 23
    exactly ':'
    let _ ← numeral 2 0 59)

/-- Reads a date, a time, or both. -/
def datetime : Reader Value :=
  ((do
      date
      let _ ← optional do
        let _ ← char fun c => c == 'T' || c == 't' || c == ' '
        time
        let _ ← optional offset)
    <|> time) *> pure .datetime

/-- Reads a truth value. -/
def boolean : Reader Value :=
  (word "true" *> pure (.boolean true)) <|> (word "false" *> pure (.boolean false))

/-- **Reads a scalar.** A date starts like a number, and a float like an integer, so the longer kinds
are tried first. -/
def scalar : Reader Value :=
  (Value.string <$> string) <|> boolean <|> datetime <|> float <|> integer

end JackTokens.Toml.Reader
