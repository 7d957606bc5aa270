import Mos6502.Opcode.Nmos
import Mos6502.Proofs.OpcodeHistory
import Mos6502.Proofs.Renumbering

/-! # Larger Instruction Sets

    An instruction set extends another one if it gives the same opcode wherever
    the other one gives any (`InstructionSet.Extends`), as a table does after
    rows have been inserted under keys that it had no row for
    (`OpcodeTable.extends_insertAll`).

    Admissible statements ask only for opcodes that there are. An extension
    gives them the same room, so every statement keeps its address
    (`Statement.Admissible.addressed_eq`), its symbol and its encoding, and the
    program stays what it is (`Program.IsImage.of_extends`). What an extension
    may change is a look-up that has failed, and a source with one of these
    does not assemble in the first place.
-/

namespace Mos6502

/-! ### Extensions -/

/-- **An instruction set extends another one** if every look-up that succeeds in
    the other one succeeds in it, with the same opcode. -/
def InstructionSet.Extends (extension table : InstructionSet) : Prop :=
  ∀ mnemonic mode opcode, table.lookup mnemonic mode = .ok opcode →
    extension.lookup mnemonic mode = .ok opcode

namespace OpcodeTable

/-- Rows with keys that a table does not hold extend it. Among themselves, they
    may have the same keys. -/
theorem extends_insertAll {table : OpcodeTable} {rows : List Row}
    (hfresh : ∀ row ∈ rows, table.get? row.mnemonic row.mode = none) :
    InstructionSet.Extends (table.insertAll rows) table := by
  intro mnemonic mode opcode hlookup
  rw [lookup_instructionSet, lookup_eq_ok_iff] at hlookup ⊢
  -- a row for a key that is looked up with success would not be fresh
  have hnone : rows.filter (Row.isOf mnemonic mode) = [] := by
    rw [List.filter_eq_nil_iff]
    intro row hrow hkey
    obtain ⟨hmnemonic, rfl⟩ := Row.isOf_iff.mp hkey
    have hsome := hfresh row hrow
    rw [get?_congr hmnemonic, hlookup] at hsome
    simp at hsome
  rw [get?_insertAll, hnone]
  exact hlookup

end OpcodeTable

/-! ### Statements -/

namespace Statement

variable {table extension : InstructionSet} {address : Nat} {s : Statement}

theorem AdmissibleAt.of_extends (h : AdmissibleAt table address s)
    (hextends : extension.Extends table) : AdmissibleAt extension address s where
  label_within := h.label_within
  instruction_within := by
    intro instruction hs
    obtain ⟨opcode, hlookup, hnarrow, hwide, hfits⟩ := h.instruction_within instruction hs
    exact ⟨opcode, hextends _ _ _ hlookup, hnarrow, hwide, hfits⟩

theorem AdmissibleAt.room_eq (h : AdmissibleAt table address s)
    (hextends : extension.Extends table) : s.room extension = s.room table := by
  cases hs : s.instruction with
  | none => simp [room, hs]
  | some instruction =>
    obtain ⟨opcode, hlookup, -, hwide, -⟩ := h.instruction_within instruction hs
    rw [room_of_lookup hs hlookup hwide, room_of_lookup hs (hextends _ _ _ hlookup) hwide]

theorem AdmissibleAt.encodedAt_eq (h : AdmissibleAt table address s)
    (hextends : extension.Extends table) :
    encodedAt extension address s = encodedAt table address s := by
  unfold encodedAt
  cases hs : s.instruction with
  | none => rfl
  | some instruction =>
    obtain ⟨opcode, hlookup, -, -, -⟩ := h.instruction_within instruction hs
    simp only [hlookup, hextends _ _ _ hlookup]

variable {statements : List Statement}

theorem Admissible.addressed_eq (h : Admissible table address statements)
    (hextends : extension.Extends table) :
    addressed extension address statements = addressed table address statements := by
  induction statements generalizing address with
  | nil => rfl
  | cons s rest ih =>
    obtain ⟨hs, -, hrest⟩ := admissible_cons_iff.mp h
    rw [addressed, addressed, hs.room_eq hextends, ih hrest]

theorem Admissible.of_extends (h : Admissible table address statements)
    (hextends : extension.Extends table) : Admissible extension address statements := by
  rw [admissible_iff, h.addressed_eq hextends]
  refine ⟨h.labels_nodup, ?_⟩
  intro p hp
  exact (h.admissibleAt hp).of_extends hextends

theorem Admissible.symbolsFrom_eq (h : Admissible table address statements)
    (hextends : extension.Extends table) :
    symbolsFrom extension address statements = symbolsFrom table address statements := by
  rw [symbolsFrom, symbolsFrom, h.addressed_eq hextends]

theorem Admissible.instructionsFrom_eq (h : Admissible table address statements)
    (hextends : extension.Extends table) :
    instructionsFrom extension address statements = instructionsFrom table address statements := by
  rw [instructionsFrom, instructionsFrom, h.addressed_eq hextends]
  apply List.filterMap_congr
  intro p hp
  exact (h.admissibleAt hp).encodedAt_eq hextends

end Statement

/-! ### Programs -/

/-- **The image of admissible statements** is the same for an extension. -/
theorem Program.IsImage.of_extends {table extension : InstructionSet} {origin : UInt16}
    {statements : List Statement} {program : Program}
    (himage : program.IsImage table origin statements)
    (h : Statement.Admissible table origin.toNat statements)
    (hextends : extension.Extends table) : program.IsImage extension origin statements where
  origin_eq := himage.origin_eq
  instructions_eq := himage.instructions_eq.trans (h.instructionsFrom_eq hextends).symm
  symbols_eq := himage.symbols_eq.trans (h.symbolsFrom_eq hextends).symm
  bytes_eq := himage.bytes_eq
  lineTable_eq := himage.lineTable_eq

/-- **A larger instruction set changes no program.** A source that assembles
    does so with every extension of the instruction set, and to the same
    program. In particular, rows may be inserted into a table under all keys
    that it holds no row for. -/
theorem assembleLines_of_extends (origin : UInt16) (limit limit' : Option Nat)
    (lines : List String) (program : Program) :
    (∀ table extension : InstructionSet, extension.Extends table →
      assembleLines table ⟨origin, limit⟩ lines = .ok program →
      assembleLines extension ⟨origin, limit'⟩ lines = .ok program) ∧
    ∀ (table : OpcodeTable) (rows : List OpcodeTable.Row),
      (∀ row ∈ rows, table.get? row.mnemonic row.mode = none) →
      assembleLines table ⟨origin, limit⟩ lines = .ok program →
      assembleLines (table.insertAll rows) ⟨origin, limit'⟩ lines = .ok program := by
  have hextension : ∀ table extension : InstructionSet, extension.Extends table →
      assembleLines table ⟨origin, limit⟩ lines = .ok program →
      assembleLines extension ⟨origin, limit'⟩ lines = .ok program := by
    intro table extension hextends h
    obtain ⟨statements, hread, hadmissible, himage⟩ := exists_image_of_assembleLines_eq_ok h
    obtain ⟨other, hother, himage'⟩ := exists_program_of_admissible ⟨origin, limit'⟩ hread
      (hadmissible.of_extends hextends)
    -- statements have one image with the extension, and the program is one
    have hsame : other = program := himage'.unique (himage.of_extends hadmissible hextends)
    rw [hother, hsame]
  refine ⟨hextension, ?_⟩
  intro table rows hfresh
  exact hextension _ _ (OpcodeTable.extends_insertAll hfresh)

/-- A mode that the processor lacks for a mnemonic, and a mnemonic that it does
    not know, which is inserted twice. -/
theorem assembleLines_of_extends_nmos :
    let rows : List OpcodeTable.Row :=
      [⟨"stp", .implicit, ⟨0x02, 0⟩⟩, ⟨"Sta", .zeroPageY, ⟨0x97, 1⟩⟩, ⟨"STP", .implicit, ⟨0xDB, 0⟩⟩]
    ∃ program, assembleLines .nmos { origin := 0x0600 } ["start: LDA #$01", "STA $10"] =
        .ok program ∧
      assembleLines (OpcodeTable.nmos.insertAll rows) { origin := 0x0600 }
        ["start: LDA #$01", "STA $10"] = .ok program ∧
      (OpcodeTable.nmos.insertAll rows).lookup "stp" .implicit = .ok ⟨0xDB, 0⟩ := by
  intro rows
  obtain ⟨program, h, -⟩ := @exists_program_of_ofLines_eq_nil .nmos { origin := 0x0600 }
    ["start: LDA #$01", "STA $10"] (by decide +kernel)
  obtain ⟨-, hrows⟩ := assembleLines_of_extends 0x0600 none none
    ["start: LDA #$01", "STA $10"] program
  have hfresh : ∀ row ∈ rows, OpcodeTable.nmos.get? row.mnemonic row.mode = none := by
    decide +kernel
  refine ⟨program, h, hrows .nmos rows hfresh h, ?_⟩
  rw [OpcodeTable.lookup_eq_ok_iff, OpcodeTable.get?_insertAll]
  decide +kernel

end Mos6502
