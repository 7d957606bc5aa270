import Mos6502.Log
import Mos6502.Statement.Basic
import Mos6502.Symbol.Table

/-! # Layout

    Laying out a program gives every statement its address. Statements are
    taken in order with a running address: a label stands for the address
    before the instruction on its line, and an instruction moves the address
    by its size, which its opcode fixes. Running past the end of the address
    space is reported once, for the statement that does it first.
-/

namespace Mos6502

/-- The address behind the last one, `$FFFF`. -/
def addressSpaceEnd : Nat := 0x10000

/-- What the layout of the statements so far leaves to the next one. -/
structure Layout.State where
  /-- The running address. It goes on beyond the address space, but a word of
      32 bits holds it as long as there are at most 1431633920 statements
      (`Statement.runningWord` in `Mos6502.Proofs.AddressSpace`, by
      `Statement.toNat_foldl_add_size`). -/
  address : Nat
  /-- The labels so far. -/
  symbols : SymbolTable
  /-- Has running past the end been reported? -/
  overflowed : Bool
deriving DecidableEq, Repr

/-- The result of laying out some statements. -/
structure Layout where
  /-- The instructions that have an address, in order. -/
  placed : List Placed
  /-- The labels that have an address. -/
  symbols : SymbolTable
  /-- The running address at the end. -/
  endAddress : Nat
  /-- What is wrong, in order. -/
  diagnostics : List Diagnostic
  /-- What has happened, in order. -/
  events : List Event
deriving DecidableEq, Repr

namespace Layout

namespace State

/-- The state before the first statement. -/
def start (origin : UInt16) : State := ⟨origin.toNat, .empty, false⟩

/-- Reports that the end of the address space has been passed, unless that has
    been reported before. -/
def overflow (state : State) (line column : Nat) (fault : PlacementFault) :
    State × List Diagnostic :=
  if state.overflowed then (state, [])
  else ({ state with overflowed := true }, [⟨line, column, .placement fault⟩])

/-- Defines the label of a line at the running address. -/
def placeLabel (state : State) (line : Nat) (name : String) : State × List Diagnostic :=
  if state.address < addressSpaceEnd then
    match state.symbols.define ⟨name, .ofNat state.address, line⟩ with
    | .ok symbols => ({ state with symbols }, [])
    | .error first => (state, [⟨line, 0, .placement (.duplicateLabel name first.line)⟩])
  else
    state.overflow line 0 (.labelPastEnd name)

end State

/-- The opcode of an instruction, if the processor has a field for it. -/
def opcodeOf (table : InstructionSet) (instruction : Instruction) : Except Fault Opcode :=
  let mode := instruction.operand.mode
  match table.lookup instruction.mnemonic mode with
  | .error fault => .error (.lookup fault)
  | .ok opcode =>
    match checkFieldWidth mode opcode.fieldWidth with
    | .error fault => .error (.width fault)
    | .ok () => .ok opcode

/-- What laying out one statement adds to the result. -/
structure Step where
  /-- The instruction, if it has an address. -/
  placed : Option Placed
  /-- What is wrong. -/
  diagnostics : List Diagnostic
  /-- What has happened. -/
  events : List Event
deriving DecidableEq, Repr

namespace State

/-- Places an instruction at the running address. An instruction without an
    opcode takes no room; one that ends behind the address space takes room
    but is not placed. -/
def placeInstruction (table : InstructionSet) (state : State) (line : Nat)
    (instruction : Instruction) : State × Step :=
  match opcodeOf table instruction with
  | .error fault => (state, ⟨none, [⟨line, instruction.column, fault⟩], []⟩)
  | .ok opcode =>
    let next := { state with address := state.address + opcode.size }
    if next.address ≤ addressSpaceEnd then
      let placed : Placed :=
        { line
          column := instruction.column
          address := .ofNat state.address
          mnemonic := instruction.mnemonic
          operand := instruction.operand
          opcode }
      (next, ⟨some placed, [], [.placed placed]⟩)
    else
      let (next, diagnostics) := next.overflow line instruction.column
        (.instructionPastEnd instruction.mnemonic state.address)
      (next, ⟨none, diagnostics, []⟩)

/-- Lays out one statement: first its label, then its instruction. -/
def place (table : InstructionSet) (state : State) (statement : Statement) : State × Step :=
  let (state, labelDiagnostics) :=
    match statement.label with
    | none => (state, [])
    | some name => state.placeLabel statement.line name
  match statement.instruction with
  | none => (state, ⟨none, labelDiagnostics, []⟩)
  | some instruction =>
    let (state, step) := state.placeInstruction table statement.line instruction
    (state, { step with diagnostics := labelDiagnostics ++ step.diagnostics })

end State

/-- Lays out statements from a state on. -/
def ofState (table : InstructionSet) (state : State) : List Statement → Layout
  | [] => ⟨[], state.symbols, state.address, [], []⟩
  | statement :: statements =>
    let (state, step) := state.place table statement
    let rest := ofState table state statements
    { rest with
      placed := step.placed.toList ++ rest.placed
      diagnostics := step.diagnostics ++ rest.diagnostics
      events := step.events ++ rest.events }

/-- Lays out a program that starts at the origin. -/
def ofStatements (table : InstructionSet) (origin : UInt16) (statements : List Statement) : Layout :=
  ofState table (.start origin) statements

/-! ### Encoding what has been placed -/

/-- The instructions that can be encoded, in order. -/
def encoded (layout : Layout) : List Encoded :=
  layout.placed.filterMap fun instruction => instruction.encode.toOption

/-- Why the others cannot be encoded, in order. -/
def encodingDiagnostics (layout : Layout) : List Diagnostic :=
  layout.placed.filterMap fun instruction =>
    match instruction.encode with
    | .ok _ => none
    | .error fault => some ⟨instruction.line, instruction.column, .width fault⟩

end Layout

end Mos6502
