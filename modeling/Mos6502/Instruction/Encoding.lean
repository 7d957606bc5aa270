import Mos6502.Instruction.Basic

/-! # Encoding

    An instruction is encoded as its opcode byte and an operand field, whose
    width comes from the opcode table. The field holds the payload of the
    operand, filled up with zero bytes. No instruction of the processor has a
    field wider than two bytes, and a payload never loses bytes to its field.
-/

namespace Mos6502

/-- Why an operand cannot be encoded in a field. -/
inductive WidthFault where
  /-- The payload has more bytes than the field. -/
  | tooNarrow (mode : Mode) (needed field : Nat)
  /-- No instruction has a field this wide. -/
  | tooWide (mode : Mode) (field : Nat)
deriving DecidableEq, Repr

/-- The widest operand field of the processor. -/
def maxFieldWidth : Nat := 2

/-- The text of a diagnostic. -/
def WidthFault.message : WidthFault → String
  | .tooNarrow mode needed field =>
    s!"{mode.name} operand needs {needed} byte(s) but the opcode's operand field is {field} byte(s)"
  | .tooWide mode field =>
    s!"{mode.name} operand field of {field} byte(s) is wider than {maxFieldWidth}"

/-- Refuses a field that no instruction has. -/
def checkFieldWidth (mode : Mode) (width : Nat) : Except WidthFault Unit :=
  if maxFieldWidth < width then .error (.tooWide mode width) else .ok ()

namespace Operand

/-- The operand field of some width that holds the payload, low byte first. -/
def encode (operand : Operand) (width : Nat) : Except WidthFault (List UInt8) :=
  match checkFieldWidth operand.mode width with
  | .error fault => .error fault
  | .ok () =>
    if width < operand.payload.length then
      .error (.tooNarrow operand.mode operand.payload.length width)
    else
      .ok (operand.payload.rightpad width 0)

/-- An operand is encoded exactly in the fields that hold its payload and that
    the processor has. -/
theorem encode_eq_ok_iff {operand : Operand} {width : Nat} {field : List UInt8} :
    operand.encode width = .ok field ↔
      operand.mode.payloadWidth ≤ width ∧ width ≤ maxFieldWidth ∧
        field = operand.payload ++ List.replicate (width - operand.mode.payloadWidth) 0 := by
  by_cases wide : maxFieldWidth < width
  · simp only [encode, checkFieldWidth, wide, if_true, reduceCtorEq, false_iff]
    exact fun h => absurd h.2.1 (Nat.not_le.mpr wide)
  · by_cases narrow : width < operand.mode.payloadWidth
    · simp only [encode, checkFieldWidth, wide, if_false, length_payload, narrow, if_true,
        reduceCtorEq, false_iff]
      exact fun h => absurd h.1 (Nat.not_le.mpr narrow)
    · have fits := Nat.le_of_not_lt narrow
      simp [encode, checkFieldWidth, wide, narrow, fits, List.rightpad, eq_comm,
        Nat.le_of_not_lt wide]

end Operand

/-- The bytes of an instruction: its opcode byte and its operand field. -/
def Opcode.encode (opcode : Opcode) (operand : Operand) : Except WidthFault (List UInt8) :=
  (operand.encode opcode.fieldWidth).map (opcode.byte :: ·)

/-- Encodes an instruction at its place. -/
def Placed.encode (placed : Placed) : Except WidthFault Encoded :=
  (placed.operand.encode placed.opcode.fieldWidth).map fun field =>
    { line := placed.line
      column := placed.column
      address := placed.address
      mnemonic := placed.mnemonic
      operand := placed.operand
      opcode := placed.opcode.byte
      field := field }

end Mos6502
