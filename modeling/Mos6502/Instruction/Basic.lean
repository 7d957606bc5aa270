import Mos6502.Opcode.Table
import Mos6502.Operand.Printing

/-! # Instructions

    An instruction is a mnemonic with an operand. Assembly takes it through
    three forms: as it stands in the source, with an address and an opcode
    assigned to it, and as the bytes it is encoded in.
-/

namespace Mos6502

/-- An instruction as it stands in the source. -/
structure Instruction where
  /-- The name of the operation. -/
  mnemonic : String
  /-- The operand. -/
  operand : Operand
  /-- Column of the mnemonic in bytes, from zero. -/
  column : Nat
deriving DecidableEq, Repr

/-- The source text of a mnemonic and an operand. -/
def Instruction.format (mnemonic : String) : Operand → String
  | .implicit => mnemonic
  | operand => mnemonic ++ " " ++ operand.text

/-- An instruction with its address and its opcode. -/
structure Placed where
  /-- Number of the source line. -/
  line : Nat
  /-- Column of the mnemonic in bytes, from zero. -/
  column : Nat
  /-- Address of the opcode byte. -/
  address : UInt16
  /-- The name of the operation. -/
  mnemonic : String
  /-- The operand. -/
  operand : Operand
  /-- The opcode of the mnemonic in the mode of the operand. -/
  opcode : Opcode
deriving DecidableEq, Repr

/-- An instruction with its bytes. -/
structure Encoded where
  /-- Number of the source line. -/
  line : Nat
  /-- Column of the mnemonic in bytes, from zero. -/
  column : Nat
  /-- Address of the opcode byte. -/
  address : UInt16
  /-- The name of the operation. -/
  mnemonic : String
  /-- The operand. -/
  operand : Operand
  /-- The opcode byte. -/
  opcode : UInt8
  /-- The bytes of the operand field, the low byte first. -/
  field : List UInt8
deriving DecidableEq, Repr

namespace Encoded

/-- The opcode byte and the operand field. -/
def bytes (encoded : Encoded) : List UInt8 := encoded.opcode :: encoded.field

/-- The number of bytes. -/
def size (encoded : Encoded) : Nat := 1 + encoded.field.length

@[simp] theorem length_bytes (encoded : Encoded) : encoded.bytes.length = encoded.size := by
  simp [bytes, size, Nat.add_comm]

/-- The address behind the last byte. It is `0x10000` for an instruction that
    ends with the address space. -/
def endAddress (encoded : Encoded) : Nat := encoded.address.toNat + encoded.size

/-- The source text of the instruction. -/
def text (encoded : Encoded) : String := Instruction.format encoded.mnemonic encoded.operand

end Encoded

end Mos6502
