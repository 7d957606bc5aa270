import Mos6502.Assembly
import Mos6502.Proofs.Layout
import Mos6502.Proofs.Reading

/-! # One Scan for All Diagnostics

    The diagnostics of an assembly come from three stages: lines are read,
    statements are laid out, and placed instructions are encoded. A scan finds
    them in a single pass from the first line to the last. It remembers the
    running address, the labels so far, and whether running past the end of
    the address space has been reported, and for every line it gives

      * why the line cannot be read,
      * what is wrong with its label, and then
      * what is wrong with its instruction,

    before it goes on to the next line.

    A scan follows a layout when both agree on these three things (`Follows`).
    Every statement keeps them in step and the scan finds exactly what layout
    and encoding find together (`atStatement_follows`).
-/

namespace Mos6502

/-- What the lines so far leave to the next one. -/
structure Scan where
  /-- The running address. It goes on beyond the address space. -/
  address : Nat
  /-- The labels of the lines so far with their lines, the first line in
      front. -/
  labels : List (String × Nat)
  /-- Has running past the end been reported? -/
  overflowed : Bool
deriving DecidableEq, Repr

namespace Scan

/-- The scan before the first line. -/
def start (origin : UInt16) : Scan := ⟨origin.toNat, [], false⟩

/-- The first line so far that carries a label. -/
def firstLine? (scan : Scan) (name : String) : Option Nat :=
  (scan.labels.find? fun entry => entry.1 = name).map Prod.snd

/-- Takes in a label. -/
def atLabel (scan : Scan) (line : Nat) (name : String) : Scan × List Diagnostic :=
  let next := { scan with labels := scan.labels ++ [(name, line)] }
  if scan.address ≤ 0xFFFF then
    match scan.firstLine? name with
    | some first => (next, [⟨line, 0, .placement (.duplicateLabel name first)⟩])
    | none => (next, [])
  else if scan.overflowed then (next, [])
  else ({ next with overflowed := true }, [⟨line, 0, .placement (.labelPastEnd name)⟩])

/-- Takes in an instruction. -/
def atInstruction (table : InstructionSet) (scan : Scan) (line : Nat) (instruction : Instruction) :
    Scan × List Diagnostic :=
  let mode := instruction.operand.mode
  match table.lookup instruction.mnemonic mode with
  | .error fault => (scan, [⟨line, instruction.column, .lookup fault⟩])
  | .ok opcode =>
    if maxFieldWidth < opcode.fieldWidth then
      (scan, [⟨line, instruction.column, .width (.tooWide mode opcode.fieldWidth)⟩])
    else
      let next := { scan with address := scan.address + opcode.size }
      if next.address ≤ 0x10000 then
        if opcode.fieldWidth < mode.payloadWidth then
          (next, [⟨line, instruction.column,
            .width (.tooNarrow mode mode.payloadWidth opcode.fieldWidth)⟩])
        else (next, [])
      else if scan.overflowed then (next, [])
      else
        ({ next with overflowed := true },
          [⟨line, instruction.column,
            .placement (.instructionPastEnd instruction.mnemonic scan.address)⟩])

/-- Takes in the label of a statement, if it has one. -/
def afterLabel (scan : Scan) (s : Statement) : Scan × List Diagnostic :=
  match s.label with
  | none => (scan, [])
  | some name => scan.atLabel s.line name

/-- Takes in the instruction of a statement, if it has one. -/
def afterInstruction (table : InstructionSet) (scan : Scan) (s : Statement) :
    Scan × List Diagnostic :=
  match s.instruction with
  | none => (scan, [])
  | some instruction => scan.atInstruction table s.line instruction

/-- Takes in a statement: first its label, then its instruction. -/
def atStatement (table : InstructionSet) (scan : Scan) (s : Statement) : Scan × List Diagnostic :=
  let label := scan.afterLabel s
  let instruction := label.1.afterInstruction table s
  (instruction.1, label.2 ++ instruction.2)

/-- Takes in a line. -/
def atReading (table : InstructionSet) (scan : Scan) (reading : Reading) : Scan × List Diagnostic :=
  match reading.statement with
  | none => (scan, reading.diagnostic.toList)
  | some s =>
    let rest := scan.atStatement table s
    (rest.1, reading.diagnostic.toList ++ rest.2)

/-- Everything that a scan finds from here on. -/
def diagnostics (table : InstructionSet) (scan : Scan) : List Reading → List Diagnostic
  | [] => []
  | reading :: readings =>
    let step := scan.atReading table reading
    step.2 ++ diagnostics table step.1 readings

/-- Everything that a scan finds in the lines of a source. -/
def ofLines (table : InstructionSet) (origin : UInt16) (lines : List String) : List Diagnostic :=
  diagnostics table (start origin) (Reading.ofLines lines)

/-! ### Taking in a label -/

variable {table : InstructionSet} {scan : Scan}

theorem firstLine?_eq_none_iff {name : String} :
    scan.firstLine? name = none ↔ name ∉ scan.labels.map Prod.fst := by
  unfold firstLine?
  rw [Option.map_eq_none_iff, List.find?_eq_none, List.mem_map]
  constructor
  · rintro h ⟨entry, hmem, rfl⟩
    simpa using h entry hmem
  · intro h entry hmem hname
    exact h ⟨entry, hmem, by simpa using hname⟩

theorem atLabel_fst (scan : Scan) (line : Nat) (name : String) :
    (scan.atLabel line name).1 =
      { address := scan.address
        labels := scan.labels ++ [(name, line)]
        overflowed := scan.overflowed || decide (0xFFFF < scan.address) } := by
  -- a duplicate is remembered like any other label
  unfold atLabel
  by_cases hin : scan.address ≤ 0xFFFF
  · have hlt : ¬ 0xFFFF < scan.address := Nat.not_lt.mpr hin
    cases scan.firstLine? name <;> simp [hin, hlt]
  · cases hflag : scan.overflowed <;> simp [hin, Nat.lt_of_not_le hin]

@[simp] theorem address_atLabel (scan : Scan) (line : Nat) (name : String) :
    (scan.atLabel line name).1.address = scan.address := by rw [atLabel_fst]

@[simp] theorem labels_atLabel (scan : Scan) (line : Nat) (name : String) :
    (scan.atLabel line name).1.labels = scan.labels ++ [(name, line)] := by rw [atLabel_fst]

@[simp] theorem overflowed_atLabel (scan : Scan) (line : Nat) (name : String) :
    (scan.atLabel line name).1.overflowed =
      (scan.overflowed || decide (0xFFFF < scan.address)) := by rw [atLabel_fst]

/-- A label is remembered with its line unless an earlier line carries it. -/
theorem firstLine?_atLabel (scan : Scan) (line : Nat) (name other : String) :
    (scan.atLabel line name).1.firstLine? other =
      (scan.firstLine? other).or (if name = other then some line else none) := by
  have hlast : ([(name, line)] : List (String × Nat)).find? (fun entry => entry.1 = other) =
      if name = other then some (name, line) else none := by
    by_cases h : name = other <;> simp [h]
  unfold firstLine?
  rw [labels_atLabel, List.find?_append, hlast]
  cases scan.labels.find? fun entry => entry.1 = other <;> by_cases h : name = other <;> simp [h]

end Scan

/-! ### Encoding what has been placed -/

/-- What is wrong with the encoding of a placed instruction. -/
def Placed.diagnostic? (placed : Placed) : Option Diagnostic :=
  match placed.encode with
  | .ok _ => none
  | .error fault => some ⟨placed.line, placed.column, .width fault⟩

namespace Placed

theorem encodingDiagnostics_eq (layout : Layout) :
    layout.encodingDiagnostics = layout.placed.filterMap diagnostic? := rfl

/-- An instruction whose field is not too wide can only have too narrow a one. -/
theorem diagnostic?_eq {placed : Placed} (h : placed.opcode.fieldWidth ≤ maxFieldWidth) :
    placed.diagnostic? =
      if placed.opcode.fieldWidth < placed.operand.mode.payloadWidth then
        some ⟨placed.line, placed.column, .width (.tooNarrow placed.operand.mode
          placed.operand.mode.payloadWidth placed.opcode.fieldWidth)⟩
      else none := by
  have hwide : ¬ maxFieldWidth < placed.opcode.fieldWidth := Nat.not_lt.mpr h
  by_cases hnarrow : placed.opcode.fieldWidth < placed.operand.mode.payloadWidth
  · simp [diagnostic?, encode, Operand.encode, checkFieldWidth, hwide, hnarrow, Except.map]
  · simp [diagnostic?, encode, Operand.encode, checkFieldWidth, hwide, hnarrow, Except.map]

theorem line_of_diagnostic?_eq_some {placed : Placed} {d : Diagnostic}
    (h : placed.diagnostic? = some d) : d.line = placed.line := by
  unfold diagnostic? at h
  split at h
  · simp at h
  · simp only [Option.some.injEq] at h
    rw [← h]

end Placed

namespace Scan

/-! ### A scan follows a layout -/

variable {table : InstructionSet} {scan : Scan} {state : Layout.State}

/-- **Simulation relation**: scan and layout agree on the running address and
    on whether running past the end has been reported, and as long as labels
    can still be defined, also on where a label was first defined. -/
structure Follows (scan : Scan) (state : Layout.State) : Prop where
  /-- The same running address. -/
  address : scan.address = state.address
  /-- The same report of running past the end. -/
  overflowed : scan.overflowed = state.overflowed
  /-- The same first definitions. Past the end of the address space the layout
      defines no more labels, and the scan no longer asks for them. -/
  firstLine : state.address < addressSpaceEnd →
    ∀ name, scan.firstLine? name = (state.symbols.find? name).map Symbol.line

theorem follows_start (origin : UInt16) : Follows (start origin) (.start origin) where
  address := rfl
  overflowed := rfl
  firstLine := fun _ _ => rfl

/-- A label keeps scan and layout in step, and both find the same. -/
theorem atLabel_follows (h : Follows scan state) (line : Nat) (name : String) :
    Follows (scan.atLabel line name).1 (state.placeLabel line name).1 ∧
      (scan.atLabel line name).2 = (state.placeLabel line name).2 := by
  have haddress := h.address
  have hflag := h.overflowed
  rcases Layout.placeLabel_cases state line name with
    ⟨hin, hfind, hplace⟩ | ⟨hin, first, hfind, hplace⟩ | ⟨hout, hover, hplace⟩ |
    ⟨hout, hover, hplace⟩
  · -- a new label: both remember its line
    have hnew : scan.firstLine? name = none := by rw [h.firstLine hin, hfind]; rfl
    have hle : scan.address ≤ 0xFFFF := by rw [haddress]; exact Nat.le_of_lt_succ hin
    rw [hplace]
    refine ⟨⟨?_, ?_, ?_⟩, ?_⟩
    · simpa using haddress
    · simp [hflag, Nat.not_lt.mpr hle]
    · intro _ other
      have hinsert := @SymbolTable.find?_insertIfNew_of_find?_eq_none state.symbols
        ⟨name, .ofNat state.address, line⟩ hfind other
      rw [firstLine?_atLabel, h.firstLine hin]
      simp only [hinsert]
      cases state.symbols.find? other <;> by_cases hname : name = other <;> simp [hname]
    · simp [atLabel, hle, hnew]
  · -- a duplicate: the line of the first definition stands
    have hold : scan.firstLine? name = some first.line := by rw [h.firstLine hin, hfind]; rfl
    have hle : scan.address ≤ 0xFFFF := by rw [haddress]; exact Nat.le_of_lt_succ hin
    rw [hplace]
    refine ⟨⟨?_, ?_, ?_⟩, ?_⟩
    · simpa using haddress
    · simp [hflag, Nat.not_lt.mpr hle]
    · intro _ other
      rw [firstLine?_atLabel, ← h.firstLine hin]
      by_cases hname : name = other
      · rw [← hname, hold]
        rfl
      · simp [hname]
    · simp [atLabel, hle, hold]
  all_goals
    -- past the end nothing is defined any more
    have hgt : 0xFFFF < scan.address := by rw [haddress]; exact hout
    rw [hplace]
    refine ⟨⟨?_, ?_, ?_⟩, ?_⟩
    · simpa using haddress
    · simp [hgt, hover]
    · intro hin
      exact absurd hin (Nat.not_lt.mpr hout)
    · simp [atLabel, Nat.not_le.mpr hgt, hflag, hover]

/-- An instruction keeps scan and layout in step, and the scan finds what its
    placement and then its encoding find. -/
theorem atInstruction_follows (h : Follows scan state) (table : InstructionSet) (line : Nat)
    (instruction : Instruction) :
    Follows (scan.atInstruction table line instruction).1
        (state.placeInstruction table line instruction).1 ∧
      (scan.atInstruction table line instruction).2 =
        (state.placeInstruction table line instruction).2.diagnostics ++
          (state.placeInstruction table line instruction).2.placed.toList.filterMap
            Placed.diagnostic? := by
  have haddress := h.address
  have hflag := h.overflowed
  rcases Layout.placeInstruction_cases table state line instruction with
    ⟨fault, hopcode, hplace⟩ | ⟨opcode, placed, hopcode, hfits, hplaced, hplace⟩ |
    ⟨opcode, hopcode, hout, hover, hplace⟩ | ⟨opcode, hopcode, hout, hover, hplace⟩
  · -- no opcode: nothing moves
    rw [hplace]
    rcases Layout.opcodeOf_eq_error_iff.mp hopcode with
      ⟨cause, hlookup, rfl⟩ | ⟨opcode, hlookup, hwide, rfl⟩
    · simp [atInstruction, hlookup, h]
    · simp [atInstruction, hlookup, hwide, h]
  · -- placed: whether the field is wide enough is left to the encoding
    obtain ⟨hlookup, hwidth⟩ := Layout.opcodeOf_eq_ok_iff.mp hopcode
    have hwide : ¬ maxFieldWidth < opcode.fieldWidth := Nat.not_lt.mpr hwidth
    have hle : scan.address + opcode.size ≤ 0x10000 := by rw [haddress]; exact hfits
    have hin : state.address < addressSpaceEnd := by
      unfold Opcode.size at hfits
      omega
    -- a field that is not too wide leaves the payload as the only fault
    have hencode := @Placed.diagnostic?_eq placed (by rw [hplaced]; exact hwidth)
    have hscan : scan.atInstruction table line instruction =
        ({ scan with address := scan.address + opcode.size }, placed.diagnostic?.toList) := by
      rw [hencode]
      by_cases hnarrow : opcode.fieldWidth < instruction.operand.mode.payloadWidth <;>
        simp [atInstruction, hlookup, hwide, hle, hnarrow, hplaced]
    rw [hplace, hscan]
    refine ⟨⟨?_, hflag, ?_⟩, ?_⟩
    · simp only [haddress]
    · intro _ name
      exact h.firstLine hin name
    · cases hfault : placed.diagnostic? <;> simp [hfault]
  all_goals
    -- past the end: reported at most once, and never placed
    obtain ⟨hlookup, hwidth⟩ := Layout.opcodeOf_eq_ok_iff.mp hopcode
    have hwide : ¬ maxFieldWidth < opcode.fieldWidth := Nat.not_lt.mpr hwidth
    have hgt : ¬ state.address + opcode.size ≤ 0x10000 := Nat.not_le.mpr hout
    rw [hplace]
    refine ⟨⟨?_, ?_, ?_⟩, ?_⟩
    · simp [atInstruction, hlookup, hwide, haddress, hgt, hflag, hover]
    · simp [atInstruction, hlookup, hwide, haddress, hgt, hflag, hover]
    · intro hin
      exact absurd hin (Nat.not_lt.mpr (Nat.le_of_lt hout))
    · simp [atInstruction, hlookup, hwide, haddress, hgt, hflag, hover]

/-- A statement keeps scan and layout in step, and the scan finds what layout
    and encoding find. -/
theorem atStatement_follows (h : Follows scan state) (table : InstructionSet) (s : Statement) :
    Follows (scan.atStatement table s).1 (state.place table s).1 ∧
      (scan.atStatement table s).2 = (state.place table s).2.diagnostics ++
        (state.place table s).2.placed.toList.filterMap Placed.diagnostic? := by
  have hlabel : Follows (scan.afterLabel s).1 (state.afterLabel s).1 ∧
      (scan.afterLabel s).2 = (state.afterLabel s).2 := by
    unfold afterLabel Layout.State.afterLabel
    cases s.label with
    | none => exact ⟨h, rfl⟩
    | some name => exact atLabel_follows h s.line name
  -- the instruction starts from where the label has left both
  obtain ⟨hnext, hfound⟩ := hlabel
  rw [Layout.place_eq, atStatement]
  unfold afterInstruction Layout.State.afterInstruction
  cases s.instruction with
  | none => exact ⟨hnext, by simp [hfound]⟩
  | some instruction =>
    obtain ⟨hfollows, hrest⟩ := atInstruction_follows hnext table s.line instruction
    refine ⟨hfollows, ?_⟩
    simp only [hfound, hrest, List.append_assoc]

end Scan

end Mos6502
