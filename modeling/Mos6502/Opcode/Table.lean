import Mos6502.FiniteMap
import Mos6502.Mode
import Mos6502.Text.Case

/-! # Opcode Tables

    An instruction set answers which opcode a mnemonic has in an addressing
    mode. A mnemonic that it does not know at all is told apart from one that
    it does not know in the mode, because the two are reported differently.
    Assembling asks nothing else of a processor.

    An opcode table is an instruction set that is filled row by row. It holds
    a map from upper-case mnemonics to maps from modes to opcodes, and looks
    a mnemonic up in any letter case. Callers see a single map whose keys are
    the mnemonic and the mode (`OpcodeTable.get?`).
-/

namespace Mos6502

open Text

/-- The first byte of an instruction and the width of the operand field that
    follows it. -/
structure Opcode where
  /-- The opcode byte. -/
  byte : UInt8
  /-- Bytes in the operand field. -/
  fieldWidth : Nat
deriving DecidableEq, Repr

/-- Bytes of a whole instruction: the opcode byte and its operand field. -/
def Opcode.size (opcode : Opcode) : Nat := 1 + opcode.fieldWidth

/-- Why a mnemonic has no opcode in a mode. Both cases keep the mnemonic as it
    was asked for. -/
inductive LookupFault where
  /-- There is no opcode for the mnemonic. -/
  | unknownMnemonic (mnemonic : String)
  /-- There are opcodes for the mnemonic, but none in this mode. -/
  | unsupportedMode (mnemonic : String) (mode : Mode)
deriving DecidableEq, Repr

/-- The text of a diagnostic. -/
def LookupFault.message : LookupFault → String
  | .unknownMnemonic mnemonic => s!"unknown mnemonic '{mnemonic}'"
  | .unsupportedMode mnemonic mode => s!"{mnemonic} does not support {mode.name} addressing"

/-- The opcodes of a processor. -/
structure InstructionSet where
  /-- The opcode of a mnemonic in a mode, or the reason why there is none. -/
  lookup : String → Mode → Except LookupFault Opcode

/-- A finite map from mnemonics and modes to opcodes. -/
structure OpcodeTable where
  /-- The opcodes of a mnemonic by their modes. -/
  byMnemonic : FiniteMap String (FiniteMap Mode Opcode)
  /-- Mnemonics are stored in upper case. -/
  upperCase : ∀ mnemonic ∈ byMnemonic.keys, upper mnemonic = mnemonic
deriving DecidableEq

namespace OpcodeTable

/-- One row of a table. -/
structure Row where
  /-- The mnemonic. -/
  mnemonic : String
  /-- The addressing mode. -/
  mode : Mode
  /-- The opcode of the mnemonic in this mode. -/
  opcode : Opcode
deriving DecidableEq, Repr

/-- The table without rows. -/
def empty : OpcodeTable := ⟨.empty, by simp [FiniteMap.empty, FiniteMap.keys]⟩

instance : Inhabited OpcodeTable := ⟨empty⟩

/-- The rows of a table, whose mnemonics are in upper case. -/
def rows (table : OpcodeTable) : List Row :=
  table.byMnemonic.entries.flatMap fun (mnemonic, opcodes) =>
    opcodes.entries.map fun (mode, opcode) => ⟨mnemonic, mode, opcode⟩

/-- The number of rows. -/
def size (table : OpcodeTable) : Nat := table.byMnemonic.total FiniteMap.size

/-- Does the mnemonic have a row in any mode? -/
def contains (table : OpcodeTable) (mnemonic : String) : Bool :=
  table.byMnemonic.contains (upper mnemonic)

/-- The modes in which the mnemonic has an opcode, in order. -/
def modes (table : OpcodeTable) (mnemonic : String) : List Mode :=
  let modes := ((table.byMnemonic.get? (upper mnemonic)).map FiniteMap.keys).getD []
  modes.mergeSort fun a b => (compare a b).isLE

/-- The opcode of a mnemonic in a mode, or the reason why there is none. -/
def lookup (table : OpcodeTable) (mnemonic : String) (mode : Mode) :
    Except LookupFault Opcode :=
  match table.byMnemonic.get? (upper mnemonic) with
  | none => .error (.unknownMnemonic mnemonic)
  | some opcodes =>
    match opcodes.get? mode with
    | none => .error (.unsupportedMode mnemonic mode)
    | some opcode => .ok opcode

/-- The table as the instruction set that assembling asks for. -/
@[coe] def instructionSet (table : OpcodeTable) : InstructionSet := ⟨table.lookup⟩

instance : Coe OpcodeTable InstructionSet := ⟨instructionSet⟩

@[simp] theorem lookup_instructionSet (table : OpcodeTable) :
    table.instructionSet.lookup = table.lookup := rfl

/-! ### Insertion -/

/-- Adds or replaces the row for a mnemonic and a mode, and gives the opcode
    that it replaces. -/
def getThenInsert (table : OpcodeTable) (mnemonic : String) (mode : Mode) (opcode : Opcode) :
    Option Opcode × OpcodeTable :=
  let opcodes := (table.byMnemonic.get? (upper mnemonic)).getD .empty
  let (old, opcodes) := opcodes.getThenInsert mode opcode
  (old,
    { byMnemonic := table.byMnemonic.insert (upper mnemonic) opcodes
      upperCase := by
        intro other mem
        rcases FiniteMap.mem_keys_insert.mp mem with rfl | mem
        · exact upper_upper mnemonic
        · exact table.upperCase other mem })

/-- The table with the row for a mnemonic and a mode added or replaced. -/
def insert (table : OpcodeTable) (mnemonic : String) (mode : Mode) (opcode : Opcode) :
    OpcodeTable :=
  (table.getThenInsert mnemonic mode opcode).2

/-- The table of some rows; of two rows with one key the later counts. -/
def ofRows (rows : List Row) : OpcodeTable :=
  rows.foldl (fun table row => table.insert row.mnemonic row.mode row.opcode) empty

/-! ### One map -/

/-- The opcode of a mnemonic in a mode, if there is one. -/
def get? (table : OpcodeTable) (mnemonic : String) (mode : Mode) : Option Opcode :=
  (table.byMnemonic.get? (upper mnemonic)).bind fun opcodes => opcodes.get? mode

@[simp] theorem get?_empty (mnemonic : String) (mode : Mode) :
    empty.get? mnemonic mode = none := rfl

/-- A look-up finds the opcode, and if there is none, it says whether the
    mnemonic is known. -/
theorem lookup_cases (table : OpcodeTable) (mnemonic : String) (mode : Mode) :
    (∃ opcode, table.get? mnemonic mode = some opcode ∧ table.contains mnemonic = true ∧
      table.lookup mnemonic mode = .ok opcode) ∨
    (table.get? mnemonic mode = none ∧ table.contains mnemonic = true ∧
      table.lookup mnemonic mode = .error (.unsupportedMode mnemonic mode)) ∨
    (table.get? mnemonic mode = none ∧ table.contains mnemonic = false ∧
      table.lookup mnemonic mode = .error (.unknownMnemonic mnemonic)) := by
  unfold lookup get? contains
  rw [FiniteMap.contains_eq_isSome_get?]
  cases table.byMnemonic.get? (upper mnemonic) with
  | none => exact .inr (.inr ⟨rfl, rfl, rfl⟩)
  | some opcodes =>
    rw [Option.bind_some, Option.isSome_some]
    cases found : opcodes.get? mode with
    | none => exact .inr (.inl ⟨rfl, rfl, by simp only [found]⟩)
    | some opcode => exact .inl ⟨opcode, rfl, rfl, by simp only [found]⟩

/-- The rows are those of the map, with their mnemonics in upper case. -/
theorem mem_rows_iff {table : OpcodeTable} {row : Row} :
    row ∈ table.rows ↔
      upper row.mnemonic = row.mnemonic ∧ table.get? row.mnemonic row.mode = some row.opcode := by
  unfold rows get?
  simp only [List.mem_flatMap, List.mem_map, Option.bind_eq_some_iff, FiniteMap.get?_eq_some_iff,
    Prod.exists]
  constructor
  · rintro ⟨mnemonic, opcodes, outer, mode, opcode, inner, rfl⟩
    have stored := table.upperCase mnemonic (List.mem_map.mpr ⟨_, outer, rfl⟩)
    exact ⟨stored, opcodes, stored.symm ▸ outer, inner⟩
  · rintro ⟨stored, opcodes, outer, inner⟩
    exact ⟨row.mnemonic, opcodes, stored ▸ outer, row.mode, row.opcode, inner, rfl⟩

/-- The opcode that is given back is the one that has been looked up. -/
theorem getThenInsert_eq (table : OpcodeTable) (mnemonic : String) (mode : Mode)
    (opcode : Opcode) :
    table.getThenInsert mnemonic mode opcode =
      (table.get? mnemonic mode, table.insert mnemonic mode opcode) := by
  refine Prod.ext ?_ rfl
  show (((table.byMnemonic.get? (upper mnemonic)).getD .empty).getThenInsert mode opcode).1 = _
  rw [FiniteMap.fst_getThenInsert, get?]
  cases table.byMnemonic.get? (upper mnemonic) <;> rfl

theorem byMnemonic_insert (table : OpcodeTable) (mnemonic : String) (mode : Mode)
    (opcode : Opcode) :
    (table.insert mnemonic mode opcode).byMnemonic =
      table.byMnemonic.insert (upper mnemonic)
        (((table.byMnemonic.get? (upper mnemonic)).getD .empty).insert mode opcode) := rfl

/-- After an insertion its key has the new opcode and every other key the old
    answer. -/
theorem get?_insert (table : OpcodeTable) (mnemonic other : String) (mode mode' : Mode)
    (opcode : Opcode) :
    (table.insert mnemonic mode opcode).get? other mode' =
      if upper mnemonic = upper other ∧ mode = mode' then some opcode
      else table.get? other mode' := by
  rw [get?, byMnemonic_insert, FiniteMap.get?_insert, get?]
  by_cases same : upper mnemonic = upper other
  · rw [if_pos same, Option.bind_some, FiniteMap.get?_insert, same]
    simp only [true_and]
    cases table.byMnemonic.get? (upper other) <;> rfl
  · rw [if_neg same, if_neg fun h => same h.1]

theorem contains_insert (table : OpcodeTable) (mnemonic other : String) (mode : Mode)
    (opcode : Opcode) :
    (table.insert mnemonic mode opcode).contains other = true ↔
      upper mnemonic = upper other ∨ table.contains other = true := by
  unfold contains
  rw [byMnemonic_insert, FiniteMap.contains_eq_isSome_get?, FiniteMap.contains_eq_isSome_get?,
    FiniteMap.isSome_get?_iff, FiniteMap.isSome_get?_iff, FiniteMap.mem_keys_insert]

/-- An insertion adds a row exactly when it replaces none. -/
theorem size_insert (table : OpcodeTable) (mnemonic : String) (mode : Mode) (opcode : Opcode) :
    (table.insert mnemonic mode opcode).size =
      table.size + if (table.get? mnemonic mode).isSome then 0 else 1 := by
  -- the opcodes of the mnemonic are replaced, and those of all others stay
  have total := FiniteMap.total_insert FiniteMap.size table.byMnemonic (upper mnemonic)
    (((table.byMnemonic.get? (upper mnemonic)).getD .empty).insert mode opcode)
  rw [← byMnemonic_insert, FiniteMap.size_insert] at total
  unfold size get?
  cases known : table.byMnemonic.get? (upper mnemonic) with
  | none =>
    rw [known] at total
    exact total
  | some opcodes =>
    rw [known] at total
    simp only [Option.map_some, Option.getD_some, Option.bind_some] at total ⊢
    omega

end OpcodeTable

end Mos6502
