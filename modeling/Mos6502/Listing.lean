import Mos6502.Program
import Mos6502.Text.Blank

/-! # Listings

    A listing shows a program row by row in the order of its source lines, the
    label of a line before its instruction:

        0600            start:
        0600  A9 01     LDA #$01
        0602  8D 00 02  STA $0200

    The address fills columns 0 to 3, the bytes columns 6 to 13, and the text
    starts at column 16.
-/

namespace Mos6502

open Text

namespace Listing

/-- The width of the column of bytes. -/
def bytesWidth : Nat := 8

/-- A row, with what decides its place in the listing. -/
structure Row where
  /-- Number of the source line. -/
  line : Nat
  /-- Is this the row of an instruction? It comes behind that of a label. -/
  isInstruction : Bool
  /-- The address. -/
  address : UInt16
  /-- The bytes at the address. -/
  bytes : List UInt8
  /-- The label or the instruction as text. -/
  text : String
deriving DecidableEq, Repr

namespace Row

/-- The row of a label. -/
def ofSymbol (symbol : Symbol) : Row :=
  ⟨symbol.line, false, symbol.address, [], symbol.name ++ ":"⟩

/-- The row of an instruction. -/
def ofInstruction (encoded : Encoded) : Row :=
  ⟨encoded.line, true, encoded.address, encoded.bytes, encoded.text⟩

/-- May the first row stand before the second? -/
def le (a b : Row) : Bool :=
  a.line < b.line || a.line = b.line && (!a.isInstruction || b.isInstruction)

/-- The bytes in hexadecimal, separated by spaces. -/
def bytesText (row : Row) : List Char :=
  [' '].intercalate (row.bytes.map fun byte => hexDigits 2 byte.toNat)

/-- The row as text without blanks at its end. -/
def render (row : Row) : List Char :=
  trimEnd (hexDigits 4 row.address.toNat ++ [' ', ' '] ++
    row.bytesText.rightpad bytesWidth ' ' ++ [' ', ' '] ++ row.text.toList)

end Row

/-- The rows of a program in order. -/
def rows (program : Program) : List Row :=
  (program.symbols.symbols.map Row.ofSymbol ++
    program.instructions.map Row.ofInstruction).mergeSort Row.le

end Listing

/-- The listing of a program, each row ended by a line feed. -/
def Program.listing (program : Program) : String :=
  .ofList ((Listing.rows program).flatMap fun row => row.render ++ ['\n'])

end Mos6502
