import Mos6502.LineTable
import Mos6502.Symbol.Table

/-! # Programs

    A program is the machine code that an assembly produces, together with
    what is known about it: its instructions, its labels, and where each byte
    comes from.
-/

namespace Mos6502

/-- An assembled program. -/
structure Program where
  /-- The address of the first byte. -/
  origin : UInt16
  /-- The machine code. -/
  bytes : List UInt8
  /-- The instructions in source order. -/
  instructions : List Encoded
  /-- The labels. -/
  symbols : SymbolTable
  /-- Where the bytes come from. -/
  lineTable : LineTable
deriving DecidableEq, Repr

namespace Program

/-- The program whose code is that of its instructions, one after the other. -/
def ofInstructions (origin : UInt16) (instructions : List Encoded) (symbols : SymbolTable) :
    Program where
  origin := origin
  bytes := instructions.flatMap Encoded.bytes
  instructions := instructions
  symbols := symbols
  lineTable := .ofInstructions instructions

/-- The address behind the last byte. -/
def endAddress (program : Program) : Nat := program.origin.toNat + program.bytes.length

/-- The place of the instruction that covers an address. -/
def location? (program : Program) (address : UInt16) : Option Location :=
  program.lineTable.location? address

/-- The addresses that a line occupies. -/
def range? (program : Program) (line : Nat) : Option AddressRange :=
  program.lineTable.range? line

end Program

end Mos6502
