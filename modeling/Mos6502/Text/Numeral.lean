/-! # Numerals

    Addresses, bytes and words are written in hexadecimal with upper-case
    digits, high digit first; relative offsets in decimal with an explicit
    sign. Reading takes either case and gives the positional value.
-/

namespace Mos6502.Text

/-! ### Hexadecimal -/

/-- The upper-case digit for a value below 16. -/
def hexDigit (value : Nat) : Char := value.digitChar.toUpper

/-- Exactly `width` hexadecimal digits, the low ones if the value has more. -/
def hexDigits : Nat → Nat → List Char
  | 0, _ => []
  | width + 1, value => hexDigits width (value / 16) ++ [hexDigit (value % 16)]

/-- The number has `width` digits, whatever its value. -/
@[simp] theorem length_hexDigits (width value : Nat) :
    (hexDigits width value).length = width := by
  induction width generalizing value with
  | zero => rfl
  | succ width ih => simp [hexDigits, ih]

/-- A byte as two digits. -/
def hexByte (byte : UInt8) : String := .ofList (hexDigits 2 byte.toNat)

/-- A word as four digits. -/
def hexWord (word : UInt16) : String := .ofList (hexDigits 4 word.toNat)

/-- A number as hexadecimal digits without leading zeros. -/
def hexNumeral (value : Nat) : String := .ofList ((Nat.toDigits 16 value).map Char.toUpper)

/-- The value of a hexadecimal digit of either case. -/
def hexDigitValue (c : Char) : Nat :=
  if c.isDigit then c.toNat - '0'.toNat else c.toUpper.toNat - 'A'.toNat + 10

theorem hexDigitValue_hexDigit {value : Nat} (h : value < 16) :
    hexDigitValue (hexDigit value) = value := by
  have all : ∀ v : Fin 16, hexDigitValue (hexDigit v) = v := by decide
  exact all ⟨value, h⟩

/-- The positional value of hexadecimal digits, high digit first. -/
def hexValue (digits : List Char) : Nat :=
  digits.foldl (fun value c => 16 * value + hexDigitValue c) 0

/-! ### Decimal -/

/-- The positional value of decimal digits, high digit first. -/
def decimalValue (digits : List Char) : Nat := Nat.ofDigitChars 10 digits 0

/-- An integer in decimal with its sign always written; zero is `+0`. -/
def signedDecimal (value : Int) : String :=
  (if value < 0 then "-" else "+") ++ toString value.natAbs

end Mos6502.Text
