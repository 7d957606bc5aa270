import Mos6502.Diagnostic

/-! # Statements

    A statement is a source line whose operand has been read. Lines are read
    independently of each other. A line that cannot be read still defines the
    label it starts with, so that a second definition of the label is found.
-/

namespace Mos6502

/-- A source line that has been read. -/
structure Statement where
  /-- Number of the line. -/
  line : Nat
  /-- The label that the line defines. -/
  label : Option String
  /-- The instruction on the line. -/
  instruction : Option Instruction
  /-- The text behind the semicolon. -/
  comment : Option String
deriving DecidableEq, Repr

namespace Statement

/-- Reads the operand of an operation. -/
def readInstruction (operation : Operation) : Except OperandFault Instruction :=
  (Operand.read operation.operand).map fun operand =>
    { mnemonic := operation.mnemonic, operand, column := operation.column }

/-- Reads the instruction that the fields of a line hold, if they hold one. A
    fault of the operand is found where the operand starts. -/
def ofFields (line : Nat) (fields : Fields) : Except Diagnostic Statement :=
  match fields.operation with
  | none => .ok ⟨line, fields.label, none, fields.comment⟩
  | some operation =>
    match readInstruction operation with
    | .ok instruction => .ok ⟨line, fields.label, some instruction, fields.comment⟩
    | .error fault => .error ⟨line, operation.operandColumn, .operand fault⟩

/-- Reads a line of text. -/
def read (line : Nat) (text : String) : Except Diagnostic Statement :=
  match Fields.read text with
  | .ok fields => ofFields line fields
  | .error error => .error ⟨line, error.column, .fields error.fault⟩

/-- What is left of a line that cannot be read: its label, if it has one. -/
def recover (line : Nat) (text : String) : Option Statement :=
  (Fields.leadingLabel text).map fun label => ⟨line, some label, none, none⟩

end Statement

/-! ### Whole sources -/

/-- What came of reading one line. -/
structure Reading where
  /-- The statement, complete or recovered. -/
  statement : Option Statement
  /-- The reason why it is not complete. -/
  diagnostic : Option Diagnostic
deriving DecidableEq, Repr

namespace Reading

/-- Reads a line, and falls back on its label. -/
def ofLine (line : Nat) (text : String) : Reading :=
  match Statement.read line text with
  | .ok statement => ⟨some statement, none⟩
  | .error diagnostic => ⟨Statement.recover line text, some diagnostic⟩

/-- Reads lines that are numbered from one. -/
def ofLines (lines : List String) : List Reading :=
  (lines.zipIdx 1).map fun (text, line) => ofLine line text

/-- The statements of some lines, in order. -/
def statements (readings : List Reading) : List Statement := readings.filterMap Reading.statement

/-- The diagnostics of some lines, in order. -/
def diagnostics (readings : List Reading) : List Diagnostic :=
  readings.filterMap Reading.diagnostic

end Reading

end Mos6502
