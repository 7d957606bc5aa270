import Mos6502.Operand.Basic
import Mos6502.Text.Numeral

/-! # The Written Form of Operands

    Each operand has one canonical text. Bytes have two hexadecimal digits and
    words four, which is what tells zero-page and absolute addresses apart.
-/

namespace Mos6502.Operand

open Text

/-- The canonical text of an operand. -/
def text : Operand → String
  | implicit => ""
  | accumulator => "A"
  | immediate value => "#$" ++ hexByte value
  | zeroPage address => "$" ++ hexByte address
  | zeroPageX address => "$" ++ hexByte address ++ ",X"
  | zeroPageY address => "$" ++ hexByte address ++ ",Y"
  | relative offset => "*" ++ signedDecimal offset.toInt
  | absolute address => "$" ++ hexWord address
  | absoluteX address => "$" ++ hexWord address ++ ",X"
  | absoluteY address => "$" ++ hexWord address ++ ",Y"
  | indirect pointer => "($" ++ hexByte pointer ++ ")"
  | indirectX pointer => "($" ++ hexByte pointer ++ ",X)"
  | indirectY pointer => "($" ++ hexByte pointer ++ "),Y"

instance : ToString Operand := ⟨text⟩

end Mos6502.Operand
