import Mathlib.Algebra.GroupWithZero.Nat
import Mos6502.Layout

/-! # The Steps of a Layout

    What laying out one statement can do, said once: `placeLabel_cases` and
    `placeInstruction_cases` list every outcome together with the conditions
    that lead to it, and all later facts about layouts are read off them.

    The size of an instruction is fixed by its opcode alone, so the addresses
    of a program are running sums: `Statement.room` is what one statement adds
    to the sum, and `endAddress_ofState` adds it up over a run.
-/

namespace Mos6502

/-- The bytes that a statement takes up. An instruction whose look-up fails, or
    whose operand field is too wide, takes up none. -/
def Statement.room (table : InstructionSet) (s : Statement) : Nat :=
  match s.instruction with
  | none => 0
  | some instruction =>
    match table.lookup instruction.mnemonic instruction.operand.mode with
    | .ok opcode => if opcode.fieldWidth ≤ maxFieldWidth then opcode.size else 0
    | .error _ => 0

namespace Layout

variable {table : InstructionSet} {state : State}

/-! ### Opcodes -/

/-- An instruction has an opcode when its look-up gives one whose field is not
    too wide. -/
theorem opcodeOf_eq_ok_iff {instruction : Instruction} {opcode : Opcode} :
    opcodeOf table instruction = .ok opcode ↔
      table.lookup instruction.mnemonic instruction.operand.mode = .ok opcode ∧
        opcode.fieldWidth ≤ maxFieldWidth := by
  simp only [opcodeOf, checkFieldWidth]
  cases hlookup : table.lookup instruction.mnemonic instruction.operand.mode with
  | error fault => simp
  | ok found =>
    by_cases hwide : maxFieldWidth < found.fieldWidth
    · simp only [hwide, if_true, reduceCtorEq, false_iff, Except.ok.injEq]
      rintro ⟨rfl, hle⟩
      omega
    · simp only [hwide, if_false, Except.ok.injEq]
      constructor
      · rintro rfl
        exact ⟨rfl, Nat.le_of_not_lt hwide⟩
      · exact fun h => h.1

theorem opcodeOf_eq_error_iff {instruction : Instruction} {fault : Fault} :
    opcodeOf table instruction = .error fault ↔
      (∃ cause, table.lookup instruction.mnemonic instruction.operand.mode = .error cause ∧
        fault = .lookup cause) ∨
      (∃ opcode, table.lookup instruction.mnemonic instruction.operand.mode = .ok opcode ∧
        maxFieldWidth < opcode.fieldWidth ∧
        fault = .width (.tooWide instruction.operand.mode opcode.fieldWidth)) := by
  simp only [opcodeOf, checkFieldWidth]
  cases hlookup : table.lookup instruction.mnemonic instruction.operand.mode with
  | error cause => simp [eq_comm]
  | ok found =>
    by_cases hwide : maxFieldWidth < found.fieldWidth
    · simp [hwide, eq_comm]
    · simp [hwide]

theorem room_of_opcodeOf_eq_ok {s : Statement} {instruction : Instruction} {opcode : Opcode}
    (hs : s.instruction = some instruction) (h : opcodeOf table instruction = .ok opcode) :
    s.room table = opcode.size := by
  obtain ⟨hlookup, hwidth⟩ := opcodeOf_eq_ok_iff.mp h
  simp [Statement.room, hs, hlookup, hwidth]

theorem room_of_opcodeOf_eq_error {s : Statement} {instruction : Instruction} {fault : Fault}
    (hs : s.instruction = some instruction) (h : opcodeOf table instruction = .error fault) :
    s.room table = 0 := by
  rcases opcodeOf_eq_error_iff.mp h with ⟨cause, hlookup, -⟩ | ⟨opcode, hlookup, hwide, -⟩
  · simp [Statement.room, hs, hlookup]
  · simp [Statement.room, hs, hlookup, Nat.not_le.mpr hwide]

/-! ### Outcomes of a step -/

/-- What placing a label can do: define it, refuse it as a duplicate, or find
    it past the end, which only the first time gives a diagnostic. -/
theorem placeLabel_cases (state : State) (line : Nat) (name : String) :
    (state.address < addressSpaceEnd ∧ state.symbols.find? name = none ∧
      state.placeLabel line name =
        ({ state with
            symbols := state.symbols.insertIfNew ⟨name, .ofNat state.address, line⟩ }, [])) ∨
    (state.address < addressSpaceEnd ∧ ∃ first, state.symbols.find? name = some first ∧
      state.placeLabel line name =
        (state, [⟨line, 0, .placement (.duplicateLabel name first.line)⟩])) ∨
    (addressSpaceEnd ≤ state.address ∧ state.overflowed = true ∧
      state.placeLabel line name = (state, [])) ∨
    (addressSpaceEnd ≤ state.address ∧ state.overflowed = false ∧
      state.placeLabel line name =
        ({ state with overflowed := true }, [⟨line, 0, .placement (.labelPastEnd name)⟩])) := by
  by_cases hin : state.address < addressSpaceEnd
  · -- the label has an address, so only an earlier definition is in its way
    cases hfind : state.symbols.find? name with
    | none => exact .inl ⟨hin, rfl, by simp [State.placeLabel, hin, SymbolTable.define, hfind]⟩
    | some first =>
      refine .inr (.inl ⟨hin, first, rfl, ?_⟩)
      simp [State.placeLabel, hin, SymbolTable.define, hfind]
  · -- past the end the symbols are not looked at any more
    have hout := Nat.le_of_not_lt hin
    cases hflag : state.overflowed with
    | true =>
      refine .inr (.inr (.inl ⟨hout, rfl, ?_⟩))
      simp [State.placeLabel, hin, State.overflow, hflag]
    | false =>
      refine .inr (.inr (.inr ⟨hout, rfl, ?_⟩))
      simp [State.placeLabel, hin, State.overflow, hflag]

/-- What placing an instruction can do: reject it for want of an opcode, give
    it its address, or find that it runs past the end, which only the first
    time gives a diagnostic. -/
theorem placeInstruction_cases (table : InstructionSet) (state : State) (line : Nat)
    (instruction : Instruction) :
    (∃ fault, opcodeOf table instruction = .error fault ∧
      state.placeInstruction table line instruction =
        (state, ⟨none, [⟨line, instruction.column, fault⟩], []⟩)) ∨
    (∃ opcode placed, opcodeOf table instruction = .ok opcode ∧
      state.address + opcode.size ≤ addressSpaceEnd ∧
      placed = Placed.mk line instruction.column (.ofNat state.address) instruction.mnemonic
        instruction.operand opcode ∧
      state.placeInstruction table line instruction =
        ({ state with address := state.address + opcode.size },
          ⟨some placed, [], [.placed placed]⟩)) ∨
    (∃ opcode, opcodeOf table instruction = .ok opcode ∧
      addressSpaceEnd < state.address + opcode.size ∧ state.overflowed = true ∧
      state.placeInstruction table line instruction =
        ({ state with address := state.address + opcode.size }, ⟨none, [], []⟩)) ∨
    (∃ opcode, opcodeOf table instruction = .ok opcode ∧
      addressSpaceEnd < state.address + opcode.size ∧ state.overflowed = false ∧
      state.placeInstruction table line instruction =
        ({ state with address := state.address + opcode.size, overflowed := true },
          ⟨none, [⟨line, instruction.column,
            .placement (.instructionPastEnd instruction.mnemonic state.address)⟩], []⟩)) := by
  cases hopcode : opcodeOf table instruction with
  | error fault => exact .inl ⟨fault, rfl, by simp [State.placeInstruction, hopcode]⟩
  | ok opcode =>
    by_cases hfits : state.address + opcode.size ≤ addressSpaceEnd
    · refine .inr (.inl ⟨opcode, _, rfl, hfits, rfl, ?_⟩)
      simp [State.placeInstruction, hopcode, hfits]
    · -- the address moves on all the same
      have hout := Nat.lt_of_not_le hfits
      cases hflag : state.overflowed with
      | true =>
        refine .inr (.inr (.inl ⟨opcode, rfl, hout, rfl, ?_⟩))
        simp [State.placeInstruction, hopcode, hfits, State.overflow, hflag]
      | false =>
        refine .inr (.inr (.inr ⟨opcode, rfl, hout, rfl, ?_⟩))
        simp [State.placeInstruction, hopcode, hfits, State.overflow, hflag]

/-! ### The two halves of a statement -/

/-- The state behind the label of a statement, with what is wrong with it. -/
def State.afterLabel (state : State) (s : Statement) : State × List Diagnostic :=
  match s.label with
  | none => (state, [])
  | some name => state.placeLabel s.line name

/-- The state behind the instruction of a statement, with what it adds. -/
def State.afterInstruction (table : InstructionSet) (state : State) (s : Statement) :
    State × Step :=
  match s.instruction with
  | none => (state, ⟨none, [], []⟩)
  | some instruction => state.placeInstruction table s.line instruction

/-- A statement is laid out in two halves, the label first. -/
theorem place_eq (table : InstructionSet) (state : State) (s : Statement) :
    state.place table s =
      let label := state.afterLabel s
      let instruction := label.1.afterInstruction table s
      (instruction.1, { instruction.2 with
        diagnostics := label.2 ++ instruction.2.diagnostics }) := by
  unfold State.place State.afterLabel State.afterInstruction
  cases s.label <;> cases s.instruction <;> simp

theorem address_afterLabel (state : State) (s : Statement) :
    (state.afterLabel s).1.address = state.address := by
  unfold State.afterLabel
  cases s.label with
  | none => rfl
  | some name =>
    rcases placeLabel_cases state s.line name with
      ⟨-, -, h⟩ | ⟨-, first, -, h⟩ | ⟨-, -, h⟩ | ⟨-, -, h⟩ <;> simp [h]

theorem address_afterInstruction (table : InstructionSet) (state : State) (s : Statement) :
    (state.afterInstruction table s).1.address = state.address + s.room table := by
  unfold State.afterInstruction
  cases hs : s.instruction with
  | none => simp [Statement.room, hs]
  | some instruction =>
    rcases placeInstruction_cases table state s.line instruction with
      ⟨fault, ho, h⟩ | ⟨opcode, placed, ho, -, -, h⟩ | ⟨opcode, ho, -, -, h⟩ | ⟨opcode, ho, -, -, h⟩
    · simp [h, room_of_opcodeOf_eq_error hs ho]
    -- with an opcode the room is its size, whether it fits or not
    all_goals simp [h, room_of_opcodeOf_eq_ok hs ho]

theorem symbols_afterInstruction (table : InstructionSet) (state : State) (s : Statement) :
    (state.afterInstruction table s).1.symbols = state.symbols := by
  unfold State.afterInstruction
  cases s.instruction with
  | none => rfl
  | some instruction =>
    rcases placeInstruction_cases table state s.line instruction with
      ⟨fault, -, h⟩ | ⟨opcode, placed, -, -, -, h⟩ | ⟨opcode, -, -, -, h⟩ | ⟨opcode, -, -, -, h⟩ <;>
      simp only [h]

/-- A statement moves the running address by its room, whatever is wrong. -/
theorem address_place (table : InstructionSet) (state : State) (s : Statement) :
    (state.place table s).1.address = state.address + s.room table := by
  rw [place_eq]
  simp only [address_afterInstruction, address_afterLabel]

theorem symbols_place (table : InstructionSet) (state : State) (s : Statement) :
    (state.place table s).1.symbols = (state.afterLabel s).1.symbols := by
  rw [place_eq]
  exact symbols_afterInstruction table _ s

theorem line_of_mem_afterLabel {s : Statement} {d : Diagnostic}
    (hd : d ∈ (state.afterLabel s).2) : d.line = s.line := by
  unfold State.afterLabel at hd
  cases hs : s.label with
  | none => simp [hs] at hd
  | some name =>
    rw [hs] at hd
    rcases placeLabel_cases state s.line name with
      ⟨-, -, h⟩ | ⟨-, first, -, h⟩ | ⟨-, -, h⟩ | ⟨-, -, h⟩ <;> simp_all

theorem line_of_mem_afterInstruction {s : Statement} {d : Diagnostic}
    (hd : d ∈ (state.afterInstruction table s).2.diagnostics) : d.line = s.line := by
  unfold State.afterInstruction at hd
  cases hs : s.instruction with
  | none => simp [hs] at hd
  | some instruction =>
    rw [hs] at hd
    rcases placeInstruction_cases table state s.line instruction with
      ⟨fault, -, h⟩ | ⟨opcode, placed, -, -, -, h⟩ | ⟨opcode, -, -, -, h⟩ | ⟨opcode, -, -, -, h⟩ <;>
      simp_all

theorem line_of_placed_afterInstruction {s : Statement} {placed : Placed}
    (hp : (state.afterInstruction table s).2.placed = some placed) : placed.line = s.line := by
  unfold State.afterInstruction at hp
  cases hs : s.instruction with
  | none => simp [hs] at hp
  | some instruction =>
    rw [hs] at hp
    rcases placeInstruction_cases table state s.line instruction with
      ⟨fault, -, h⟩ | ⟨opcode, p, -, -, rfl, h⟩ | ⟨opcode, -, -, -, h⟩ | ⟨opcode, -, -, -, h⟩
    · simp [h] at hp
    · -- the only outcome that places anything
      simp only [h, Option.some.injEq] at hp
      rw [← hp]
    · simp [h] at hp
    · simp [h] at hp

theorem line_of_mem_place {s : Statement} {d : Diagnostic}
    (hd : d ∈ (state.place table s).2.diagnostics) : d.line = s.line := by
  rw [place_eq] at hd
  rcases List.mem_append.mp hd with hd | hd
  · exact line_of_mem_afterLabel hd
  · exact line_of_mem_afterInstruction hd

theorem line_of_placed_place {s : Statement} {placed : Placed}
    (hp : (state.place table s).2.placed = some placed) : placed.line = s.line := by
  rw [place_eq] at hp
  exact line_of_placed_afterInstruction hp

/-! ### Runs -/

@[simp] theorem ofState_nil (table : InstructionSet) (state : State) :
    ofState table state [] = ⟨[], state.symbols, state.address, [], []⟩ := rfl

theorem placed_ofState_cons (table : InstructionSet) (state : State) (s : Statement)
    (rest : List Statement) :
    (ofState table state (s :: rest)).placed =
      (state.place table s).2.placed.toList ++
        (ofState table (state.place table s).1 rest).placed := rfl

theorem symbols_ofState_cons (table : InstructionSet) (state : State) (s : Statement)
    (rest : List Statement) :
    (ofState table state (s :: rest)).symbols =
      (ofState table (state.place table s).1 rest).symbols := rfl

theorem diagnostics_ofState_cons (table : InstructionSet) (state : State) (s : Statement)
    (rest : List Statement) :
    (ofState table state (s :: rest)).diagnostics =
      (state.place table s).2.diagnostics ++
        (ofState table (state.place table s).1 rest).diagnostics := rfl

/-- The state behind some statements. -/
def State.after (table : InstructionSet) (state : State) : List Statement → State
  | [] => state
  | s :: rest => State.after table (state.place table s).1 rest

theorem after_append (table : InstructionSet) (state : State) (statements others : List Statement) :
    state.after table (statements ++ others) = (state.after table statements).after table others := by
  induction statements generalizing state with
  | nil => rfl
  | cons s rest ih => exact ih (state.place table s).1

/-- A run ends with the symbols of the state behind it -/
theorem symbols_ofState (table : InstructionSet) (state : State) (statements : List Statement) :
    (ofState table state statements).symbols = (state.after table statements).symbols := by
  induction statements generalizing state with
  | nil => rfl
  | cons s rest ih => exact ih (state.place table s).1

/-- and with its address, -/
theorem endAddress_eq_address_after (table : InstructionSet) (state : State)
    (statements : List Statement) :
    (ofState table state statements).endAddress = (state.after table statements).address := by
  induction statements generalizing state with
  | nil => rfl
  | cons s rest ih => exact ih (state.place table s).1

/-- and it may be interrupted anywhere and taken up again there. -/
theorem ofState_append (table : InstructionSet) (state : State) (statements others : List Statement) :
    ofState table state (statements ++ others) =
      let front := ofState table state statements
      let back := ofState table (state.after table statements) others
      { back with
        placed := front.placed ++ back.placed
        diagnostics := front.diagnostics ++ back.diagnostics
        events := front.events ++ back.events } := by
  induction statements generalizing state with
  | nil => rfl
  | cons s rest ih =>
    rw [List.cons_append, ofState]
    simp only [ih, ofState, State.after, List.append_assoc]

/-- The running address at the end is the sum of all rooms above the first
    address, past the end of the address space as well. -/
theorem endAddress_ofState (table : InstructionSet) (state : State) (statements : List Statement) :
    (ofState table state statements).endAddress =
      state.address + (statements.map (Statement.room table)).sum := by
  induction statements generalizing state with
  | nil => simp
  | cons s rest ih =>
    -- one step adds the room of its statement, the rest is the hypothesis
    have hstep : (ofState table state (s :: rest)).endAddress =
        (ofState table (state.place table s).1 rest).endAddress := rfl
    rw [hstep, ih, address_place, List.map_cons, List.sum_cons, Nat.add_assoc]

theorem address_after (table : InstructionSet) (state : State) (statements : List Statement) :
    (state.after table statements).address =
      state.address + (statements.map (Statement.room table)).sum := by
  rw [← endAddress_eq_address_after, endAddress_ofState]

/-- Every diagnostic of a layout stands on the line of a statement. -/
theorem exists_line_of_mem_diagnostics {statements : List Statement} {d : Diagnostic}
    (hd : d ∈ (ofState table state statements).diagnostics) :
    ∃ s ∈ statements, d.line = s.line := by
  induction statements generalizing state with
  | nil => simp at hd
  | cons s rest ih =>
    rcases List.mem_append.mp hd with hd | hd
    · exact ⟨s, List.mem_cons_self, line_of_mem_place hd⟩
    · obtain ⟨t, ht, hline⟩ := ih hd
      exact ⟨t, List.mem_cons_of_mem s ht, hline⟩

end Layout

end Mos6502
