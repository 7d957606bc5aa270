/-! # Addressing Modes

    An instruction is named by its mnemonic together with the addressing mode
    of its operand. There are thirteen modes, and the mode alone fixes how
    many bytes of payload an operand carries.
-/

namespace Mos6502

/-- How an operand tells the processor where to find its data. The modes are
    ordered as they are declared. -/
inductive Mode where
  /-- No operand: `CLC`. -/
  | implicit
  /-- The accumulator itself: `LSR A`. -/
  | accumulator
  /-- A constant byte: `LDA #$10`. -/
  | immediate
  /-- An address below `$0100`: `LDA $80`. -/
  | zeroPage
  /-- A zero-page address plus the X register: `LDA $80,X`. -/
  | zeroPageX
  /-- A zero-page address plus the Y register: `LDX $80,Y`. -/
  | zeroPageY
  /-- A signed distance from the next instruction: `BNE *-5`. -/
  | relative
  /-- An address of two bytes: `JMP $1234`. -/
  | absolute
  /-- An address of two bytes plus the X register: `LDA $1234,X`. -/
  | absoluteX
  /-- An address of two bytes plus the Y register: `LDA $1234,Y`. -/
  | absoluteY
  /-- The address held by a pointer: `JMP ($FC)`. -/
  | indirect
  /-- The pointer is indexed by X before it is followed: `LDA ($40,X)`. -/
  | indirectX
  /-- The pointer is followed before it is indexed by Y: `LDA ($40),Y`. -/
  | indirectY
deriving DecidableEq, Repr, Ord

namespace Mode

/-- Every mode, in order. -/
def all : List Mode :=
  [implicit, accumulator, immediate, zeroPage, zeroPageX, zeroPageY, relative,
   absolute, absoluteX, absoluteY, indirect, indirectX, indirectY]

/-- No mode is missing from the list. -/
theorem mem_all (mode : Mode) : mode ∈ all := by
  cases mode <;> decide

/-- The list ascends strictly, so no mode stands in it twice. -/
theorem pairwise_all : all.Pairwise fun a b => compare a b = .lt := by decide

/-- Bytes of payload that an operand in this mode carries. -/
def payloadWidth : Mode → Nat
  | implicit | accumulator => 0
  | absolute | absoluteX | absoluteY => 2
  | immediate | zeroPage | zeroPageX | zeroPageY | relative
  | indirect | indirectX | indirectY => 1

/-- The name used in diagnostics. -/
def name : Mode → String
  | implicit => "implicit"
  | accumulator => "accumulator"
  | immediate => "immediate"
  | zeroPage => "zeropage"
  | zeroPageX => "zeropage,X"
  | zeroPageY => "zeropage,Y"
  | relative => "relative"
  | absolute => "absolute"
  | absoluteX => "absolute,X"
  | absoluteY => "absolute,Y"
  | indirect => "indirect"
  | indirectX => "(indirect,X)"
  | indirectY => "(indirect),Y"

end Mode

end Mos6502
