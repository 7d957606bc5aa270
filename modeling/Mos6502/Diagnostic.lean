import Mos6502.Instruction.Encoding
import Mos6502.Operand.Reading
import Mos6502.Statement.Fields

/-! # Diagnostics

    A diagnostic names a fault and the place in the source where it was found.
    Faults are kept as causes; their kind and their wording are read off them.
-/

namespace Mos6502

/-- What can go wrong when a statement gets its address. -/
inductive PlacementFault where
  /-- The label has been defined before. -/
  | duplicateLabel (label : String) (firstLine : Nat)
  /-- The label has no address left. -/
  | labelPastEnd (label : String)
  /-- The instruction does not fit between its address and the end. -/
  | instructionPastEnd (mnemonic : String) (address : Nat)
deriving DecidableEq, Repr

/-- The text of a diagnostic. -/
def PlacementFault.message : PlacementFault → String
  | .duplicateLabel label firstLine => s!"label '{label}' already defined on line {firstLine}"
  | .labelPastEnd label => s!"label '{label}' is past the end of the address space"
  | .instructionPastEnd mnemonic address =>
    s!"{mnemonic} at ${Text.hexNumeral address} runs past the end of the address space ($FFFF)"

/-- Everything that can be wrong with a program. -/
inductive Fault where
  /-- A line does not split into its fields. -/
  | fields (fault : FieldFault)
  /-- An operand cannot be read. -/
  | operand (fault : OperandFault)
  /-- There is no opcode for an instruction. -/
  | lookup (fault : LookupFault)
  /-- An operand does not go with the field of its opcode. -/
  | width (fault : WidthFault)
  /-- A statement cannot be placed. -/
  | placement (fault : PlacementFault)
deriving DecidableEq, Repr

/-- The classes into which faults are sorted for the reader. -/
inductive FaultKind where
  /-- The line is malformed. -/
  | malformedLine
  /-- The mnemonic is not in the opcode table. -/
  | unknownMnemonic
  /-- The mnemonic lacks the mode. -/
  | unsupportedMode
  /-- The operand is malformed. -/
  | operandFormat
  /-- A value lies outside its field or its space. -/
  | outOfRange
  /-- A label is defined more than once. -/
  | duplicateLabel
deriving DecidableEq, Repr

/-- Faults of a line make it malformed. -/
def FieldFault.kind : FieldFault → FaultKind := fun _ => .malformedLine

/-- A well-formed value that is too large is out of range; anything else is a
    matter of format. -/
def OperandFault.kind : OperandFault → FaultKind
  | .offsetOutOfRange _ | .byteOutOfRange _ => .outOfRange
  | .unrecognized _ | .invalidHex _ | .hexDigitCount _ | .invalidDecimal _ => .operandFormat

/-- Unknown mnemonics are told apart from unsupported modes. -/
def LookupFault.kind : LookupFault → FaultKind
  | .unknownMnemonic _ => .unknownMnemonic
  | .unsupportedMode _ _ => .unsupportedMode

/-- Widths are ranges. -/
def WidthFault.kind : WidthFault → FaultKind := fun _ => .outOfRange

/-- The end of the address space bounds a range. -/
def PlacementFault.kind : PlacementFault → FaultKind
  | .duplicateLabel _ _ => .duplicateLabel
  | .labelPastEnd _ | .instructionPastEnd _ _ => .outOfRange

namespace Fault

/-- The class of a fault. -/
def kind : Fault → FaultKind
  | fields fault => fault.kind
  | operand fault => fault.kind
  | lookup fault => fault.kind
  | width fault => fault.kind
  | placement fault => fault.kind

/-- The wording of a fault. -/
def message : Fault → String
  | fields fault => fault.message
  | operand fault => fault.message
  | lookup fault => fault.message
  | width fault => fault.message
  | placement fault => fault.message

end Fault

/-- A fault at a place in the source. -/
structure Diagnostic where
  /-- Number of the source line. -/
  line : Nat
  /-- Column in bytes, from zero. A label that is defined twice or has no
      address is reported in column zero, for its line as a whole. -/
  column : Nat
  /-- What is wrong. -/
  fault : Fault
deriving DecidableEq, Repr

namespace Diagnostic

/-- The class of the fault. -/
def kind (diagnostic : Diagnostic) : FaultKind := diagnostic.fault.kind

/-- The wording of the fault. -/
def message (diagnostic : Diagnostic) : String := diagnostic.fault.message

/-- The wording with the line in front. -/
def text (diagnostic : Diagnostic) : String := s!"line {diagnostic.line}: {diagnostic.message}"

instance : ToString Diagnostic := ⟨text⟩

end Diagnostic

end Mos6502
