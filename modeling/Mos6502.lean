import Mos6502.Assembly
import Mos6502.Bisection
import Mos6502.Diagnostic
import Mos6502.FiniteMap
import Mos6502.Instruction.Basic
import Mos6502.Instruction.Encoding
import Mos6502.Layout
import Mos6502.LineTable
import Mos6502.Listing
import Mos6502.Log
import Mos6502.Mode
import Mos6502.Opcode.Nmos
import Mos6502.Opcode.Table
import Mos6502.Operand.Basic
import Mos6502.Operand.Printing
import Mos6502.Operand.Reading
import Mos6502.Program
import Mos6502.Proofs.Acceptance
import Mos6502.Proofs.AddressSpace
import Mos6502.Proofs.Columns
import Mos6502.Proofs.Comments
import Mos6502.Proofs.Concatenation
import Mos6502.Proofs.Contiguity
import Mos6502.Proofs.Decoding
import Mos6502.Proofs.Diagnostics
import Mos6502.Proofs.Entries
import Mos6502.Proofs.Extension
import Mos6502.Proofs.FieldFaults
import Mos6502.Proofs.Findings
import Mos6502.Proofs.Grammar
import Mos6502.Proofs.IdleLines
import Mos6502.Proofs.Image
import Mos6502.Proofs.Layout
import Mos6502.Proofs.LetterCase
import Mos6502.Proofs.LineEnds
import Mos6502.Proofs.LineTable
import Mos6502.Proofs.LineText
import Mos6502.Proofs.ListingColumns
import Mos6502.Proofs.Log
import Mos6502.Proofs.OpcodeHistory
import Mos6502.Proofs.OperandFaults
import Mos6502.Proofs.OperandGrammar
import Mos6502.Proofs.OperandText
import Mos6502.Proofs.Reading
import Mos6502.Proofs.Recovery
import Mos6502.Proofs.Relocation
import Mos6502.Proofs.Renumbering
import Mos6502.Proofs.Reporting
import Mos6502.Proofs.RoundTrip
import Mos6502.Proofs.Rows
import Mos6502.Proofs.Scan
import Mos6502.Proofs.Sessions
import Mos6502.Proofs.Splitting
import Mos6502.Proofs.StableSort
import Mos6502.Proofs.Substance
import Mos6502.Proofs.SymbolHistory
import Mos6502.Proofs.Symbols
import Mos6502.Session
import Mos6502.Statement.Basic
import Mos6502.Statement.Fields
import Mos6502.Symbol.Table
import Mos6502.Text.Blank
import Mos6502.Text.Case
import Mos6502.Text.Cursor
import Mos6502.Text.Lines
import Mos6502.Text.Numeral
