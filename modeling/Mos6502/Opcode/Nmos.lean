import Mos6502.Opcode.Table

/-! # The NMOS 6502

    The documented instruction set of the NMOS 6502: 151 opcodes for 56
    mnemonics. A field is as wide as the payload of its mode, except that the
    pointer of `JMP ($FC)` stands in a field of two bytes.
-/

namespace Mos6502

namespace OpcodeTable

/-- Width of the operand field that the processor reads in a mode. -/
def nmosFieldWidth : Mode → Nat
  | .indirect => 2
  | mode => mode.payloadWidth

/-- The opcode byte of each mnemonic in each of its modes. -/
def nmosOpcodes : List (String × List (Mode × UInt8)) :=
  [("ADC", [(.immediate, 0x69), (.zeroPage, 0x65), (.zeroPageX, 0x75), (.absolute, 0x6D),
     (.absoluteX, 0x7D), (.absoluteY, 0x79), (.indirectX, 0x61), (.indirectY, 0x71)]),
   ("AND", [(.immediate, 0x29), (.zeroPage, 0x25), (.zeroPageX, 0x35), (.absolute, 0x2D),
     (.absoluteX, 0x3D), (.absoluteY, 0x39), (.indirectX, 0x21), (.indirectY, 0x31)]),
   ("ASL", [(.accumulator, 0x0A), (.zeroPage, 0x06), (.zeroPageX, 0x16), (.absolute, 0x0E),
     (.absoluteX, 0x1E)]),
   ("BCC", [(.relative, 0x90)]),
   ("BCS", [(.relative, 0xB0)]),
   ("BEQ", [(.relative, 0xF0)]),
   ("BIT", [(.zeroPage, 0x24), (.absolute, 0x2C)]),
   ("BMI", [(.relative, 0x30)]),
   ("BNE", [(.relative, 0xD0)]),
   ("BPL", [(.relative, 0x10)]),
   ("BRK", [(.implicit, 0x00)]),
   ("BVC", [(.relative, 0x50)]),
   ("BVS", [(.relative, 0x70)]),
   ("CLC", [(.implicit, 0x18)]),
   ("CLD", [(.implicit, 0xD8)]),
   ("CLI", [(.implicit, 0x58)]),
   ("CLV", [(.implicit, 0xB8)]),
   ("CMP", [(.immediate, 0xC9), (.zeroPage, 0xC5), (.zeroPageX, 0xD5), (.absolute, 0xCD),
     (.absoluteX, 0xDD), (.absoluteY, 0xD9), (.indirectX, 0xC1), (.indirectY, 0xD1)]),
   ("CPX", [(.immediate, 0xE0), (.zeroPage, 0xE4), (.absolute, 0xEC)]),
   ("CPY", [(.immediate, 0xC0), (.zeroPage, 0xC4), (.absolute, 0xCC)]),
   ("DEC", [(.zeroPage, 0xC6), (.zeroPageX, 0xD6), (.absolute, 0xCE), (.absoluteX, 0xDE)]),
   ("DEX", [(.implicit, 0xCA)]),
   ("DEY", [(.implicit, 0x88)]),
   ("EOR", [(.immediate, 0x49), (.zeroPage, 0x45), (.zeroPageX, 0x55), (.absolute, 0x4D),
     (.absoluteX, 0x5D), (.absoluteY, 0x59), (.indirectX, 0x41), (.indirectY, 0x51)]),
   ("INC", [(.zeroPage, 0xE6), (.zeroPageX, 0xF6), (.absolute, 0xEE), (.absoluteX, 0xFE)]),
   ("INX", [(.implicit, 0xE8)]),
   ("INY", [(.implicit, 0xC8)]),
   ("JMP", [(.absolute, 0x4C), (.indirect, 0x6C)]),
   ("JSR", [(.absolute, 0x20)]),
   ("LDA", [(.immediate, 0xA9), (.zeroPage, 0xA5), (.zeroPageX, 0xB5), (.absolute, 0xAD),
     (.absoluteX, 0xBD), (.absoluteY, 0xB9), (.indirectX, 0xA1), (.indirectY, 0xB1)]),
   ("LDX", [(.immediate, 0xA2), (.zeroPage, 0xA6), (.zeroPageY, 0xB6), (.absolute, 0xAE),
     (.absoluteY, 0xBE)]),
   ("LDY", [(.immediate, 0xA0), (.zeroPage, 0xA4), (.zeroPageX, 0xB4), (.absolute, 0xAC),
     (.absoluteX, 0xBC)]),
   ("LSR", [(.accumulator, 0x4A), (.zeroPage, 0x46), (.zeroPageX, 0x56), (.absolute, 0x4E),
     (.absoluteX, 0x5E)]),
   ("NOP", [(.implicit, 0xEA)]),
   ("ORA", [(.immediate, 0x09), (.zeroPage, 0x05), (.zeroPageX, 0x15), (.absolute, 0x0D),
     (.absoluteX, 0x1D), (.absoluteY, 0x19), (.indirectX, 0x01), (.indirectY, 0x11)]),
   ("PHA", [(.implicit, 0x48)]),
   ("PHP", [(.implicit, 0x08)]),
   ("PLA", [(.implicit, 0x68)]),
   ("PLP", [(.implicit, 0x28)]),
   ("ROL", [(.accumulator, 0x2A), (.zeroPage, 0x26), (.zeroPageX, 0x36), (.absolute, 0x2E),
     (.absoluteX, 0x3E)]),
   ("ROR", [(.accumulator, 0x6A), (.zeroPage, 0x66), (.zeroPageX, 0x76), (.absolute, 0x6E),
     (.absoluteX, 0x7E)]),
   ("RTI", [(.implicit, 0x40)]),
   ("RTS", [(.implicit, 0x60)]),
   ("SBC", [(.immediate, 0xE9), (.zeroPage, 0xE5), (.zeroPageX, 0xF5), (.absolute, 0xED),
     (.absoluteX, 0xFD), (.absoluteY, 0xF9), (.indirectX, 0xE1), (.indirectY, 0xF1)]),
   ("SEC", [(.implicit, 0x38)]),
   ("SED", [(.implicit, 0xF8)]),
   ("SEI", [(.implicit, 0x78)]),
   ("STA", [(.zeroPage, 0x85), (.zeroPageX, 0x95), (.absolute, 0x8D), (.absoluteX, 0x9D),
     (.absoluteY, 0x99), (.indirectX, 0x81), (.indirectY, 0x91)]),
   ("STX", [(.zeroPage, 0x86), (.zeroPageY, 0x96), (.absolute, 0x8E)]),
   ("STY", [(.zeroPage, 0x84), (.zeroPageX, 0x94), (.absolute, 0x8C)]),
   ("TAX", [(.implicit, 0xAA)]),
   ("TAY", [(.implicit, 0xA8)]),
   ("TSX", [(.implicit, 0xBA)]),
   ("TXA", [(.implicit, 0x8A)]),
   ("TXS", [(.implicit, 0x9A)]),
   ("TYA", [(.implicit, 0x98)])]

/-- Each mnemonic stands once in the list. -/
theorem nodup_nmosOpcodes : (nmosOpcodes.map Prod.fst).Nodup := by
  decide +kernel

/-- Each mode stands once with a mnemonic. -/
theorem nodup_modes_nmosOpcodes : ∀ entry ∈ nmosOpcodes, (entry.2.map Prod.fst).Nodup := by
  decide +kernel

/-- The opcodes of one mnemonic. -/
def nmosByMode (opcodes : List (Mode × UInt8)) (distinct : (opcodes.map Prod.fst).Nodup) :
    FiniteMap Mode Opcode where
  entries := opcodes.map fun (mode, byte) => (mode, ⟨byte, nmosFieldWidth mode⟩)
  distinct := by rwa [List.map_map]

/-- The opcode table of the NMOS 6502. -/
def nmos : OpcodeTable where
  byMnemonic :=
    { entries := nmosOpcodes.pmap (fun entry distinct => (entry.1, nmosByMode entry.2 distinct))
        nodup_modes_nmosOpcodes
      distinct := by
        rw [List.map_pmap, List.pmap_eq_map]
        exact nodup_nmosOpcodes }
  upperCase := by decide +kernel

/-- The documented instruction set as rows. -/
def nmosRows : List Row :=
  nmosOpcodes.flatMap fun (mnemonic, opcodes) =>
    opcodes.map fun (mode, byte) => ⟨mnemonic, mode, byte, nmosFieldWidth mode⟩

/-- They are the rows of the table, -/
theorem rows_nmos : nmos.rows = nmosRows := by
  decide +kernel

/-- and inserting them one after the other makes the table. -/
theorem ofRows_nmosRows : ofRows nmosRows = nmos := by
  decide +kernel

end OpcodeTable

/-- The instruction set of the NMOS 6502. -/
def InstructionSet.nmos : InstructionSet := OpcodeTable.nmos

end Mos6502
