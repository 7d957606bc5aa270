import Mathlib.Algebra.Group.Action.Defs
import Mathlib.Algebra.Order.BigOperators.Group.List
import Mathlib.Algebra.Order.Group.Nat
import Mos6502.Opcode.Nmos
import Mos6502.Proofs.Diagnostics
import Mos6502.Proofs.Image

/-! # Running Past the End

    An instruction is accepted if its look-up gives an opcode whose field the
    processor has (`Statement.accepted?`). Only accepted instructions move the
    running address, each by its size, and they go on moving it past the end of
    the address space. Since a size is at least one, what has an address is then
    a front part of the accepted instructions (`placed_ofState`): behind the
    first one that does not fit, none does (`placed_ofState_eq_nil`).

    Passing the end is reported for the first statement that does it
    (`filter_isPastEnd_ofState`). A flag in the state keeps this from being
    repeated, and the step lemma says when the flag is raised
    (`filter_isPastEnd_place`).

    As no size is above three, a word of 32 bits holds the running address of
    every source that is not longer than 1431633920 lines
    (`fillsAddressSpace_of_length_le`).
-/

namespace Mos6502

/-- An accepted instruction: it has an opcode, with a field that the processor
    has. -/
structure Accepted where
  /-- Number of the source line. -/
  line : Nat
  /-- The instruction. -/
  instruction : Instruction
  /-- Its opcode. -/
  opcode : Opcode
deriving DecidableEq, Repr

namespace Accepted

/-- Bytes of the instruction. -/
def size (a : Accepted) : Nat := 1 + a.opcode.fieldWidth

/-- What a placed instruction is apart from its address. -/
def ofPlaced (p : Placed) : Accepted := ⟨p.line, ⟨p.mnemonic, p.operand, p.column⟩, p.opcode⟩

/-- Does the instruction end within the address space if it starts at the
    address? -/
def fits (address : Nat) (a : Accepted) : Bool := address + a.size ≤ 0x10000

theorem fits_iff {address : Nat} {a : Accepted} :
    a.fits address ↔ address + a.size ≤ addressSpaceEnd := by
  simp [fits, addressSpaceEnd]

end Accepted

namespace Statement

variable {table : InstructionSet} {s : Statement}

/-! ### Accepted instructions -/

/-- The instruction of a statement, if it is accepted: its look-up succeeds, and
    the operand field is not wider than two bytes. -/
def accepted? (table : InstructionSet) (s : Statement) : Option Accepted :=
  match s.instruction with
  | none => none
  | some instruction =>
    match table.lookup instruction.mnemonic instruction.operand.mode with
    | .error _ => none
    | .ok opcode => if opcode.fieldWidth ≤ 2 then some ⟨s.line, instruction, opcode⟩ else none

/-- The accepted instructions of statements, in order. -/
def accepted (table : InstructionSet) (statements : List Statement) : List Accepted :=
  statements.filterMap (accepted? table)

/-- The accepted instructions with their addresses: the first address and the
    sizes of the accepted instructions before. -/
def located (table : InstructionSet) (address : Nat) (statements : List Statement) :
    List (Nat × Accepted) :=
  (accepted table statements).mapIdx fun i a =>
    (address + (((accepted table statements).take i).map Accepted.size).sum, a)

/-- The running address behind some statements as a word of 32 bits, which wraps
    around. -/
def runningWord (table : InstructionSet) (address : UInt32) (statements : List Statement) : UInt32 :=
  (accepted table statements).foldl (fun address a => address + .ofNat a.size) address

theorem accepted?_eq_some_iff {a : Accepted} :
    s.accepted? table = some a ↔
      s.instruction = some a.instruction ∧ Layout.opcodeOf table a.instruction = .ok a.opcode ∧
        a.line = s.line := by
  obtain ⟨line, own, found⟩ := a
  rw [Layout.opcodeOf_eq_ok_iff, maxFieldWidth]
  unfold accepted?
  cases hs : s.instruction with
  | none => simp
  | some instruction =>
    simp only [Option.some.injEq]
    constructor
    · intro h
      split at h
      · simp at h
      · next opcode hlookup =>
        split at h
        · next hwidth =>
          obtain ⟨rfl, rfl, rfl⟩ : s.line = line ∧ instruction = own ∧ opcode = found := by
            simpa using h
          exact ⟨rfl, ⟨hlookup, hwidth⟩, rfl⟩
        · simp at h
    · rintro ⟨rfl, ⟨hlookup, hwidth⟩, rfl⟩
      simp [hlookup, hwidth]

theorem accepted?_eq_none {instruction : Instruction} {fault : Fault}
    (hs : s.instruction = some instruction) (h : Layout.opcodeOf table instruction = .error fault) :
    s.accepted? table = none := by
  rw [Option.eq_none_iff_forall_ne_some]
  intro a ha
  obtain ⟨hown, hopcode, -⟩ := accepted?_eq_some_iff.mp ha
  obtain rfl : instruction = a.instruction := Option.some.inj (hs.symm.trans hown)
  simp [h] at hopcode

theorem accepted?_of_none (hs : s.instruction = none) : s.accepted? table = none := by
  simp [accepted?, hs]

theorem room_eq (table : InstructionSet) (s : Statement) :
    s.room table = (s.accepted? table).elim 0 Accepted.size := by
  cases ha : s.accepted? table with
  | none =>
    cases hs : s.instruction with
    | none => simp [room, hs]
    | some instruction =>
      cases hopcode : Layout.opcodeOf table instruction with
      | error fault => exact Layout.room_of_opcodeOf_eq_error hs hopcode
      | ok opcode =>
        have hsome : s.accepted? table = some ⟨s.line, instruction, opcode⟩ :=
          accepted?_eq_some_iff.mpr ⟨hs, hopcode, rfl⟩
        simp [ha] at hsome
  | some a =>
    obtain ⟨hs, hopcode, -⟩ := accepted?_eq_some_iff.mp ha
    exact Layout.room_of_opcodeOf_eq_ok hs hopcode

theorem sum_room_eq (table : InstructionSet) (statements : List Statement) :
    (statements.map (room table)).sum = ((accepted table statements).map Accepted.size).sum := by
  induction statements with
  | nil => rfl
  | cons s rest ih =>
    rw [List.map_cons, List.sum_cons, ih, room_eq]
    unfold accepted
    rw [List.filterMap_cons]
    cases s.accepted? table <;> simp

theorem located_cons (table : InstructionSet) (address : Nat) (s : Statement)
    (rest : List Statement) :
    located table address (s :: rest) =
      (s.accepted? table).toList.map (fun a => (address, a)) ++
        located table (address + s.room table) rest := by
  unfold located accepted
  rw [List.filterMap_cons, room_eq]
  cases s.accepted? table with
  | none => simp
  | some a => simp [List.mapIdx_cons, Nat.add_assoc]

/-! ### Sizes -/

theorem size_of_mem_accepted {statements : List Statement} {a : Accepted}
    (ha : a ∈ accepted table statements) : a.size ≤ 3 := by
  obtain ⟨s, -, hs⟩ := List.mem_filterMap.mp ha
  obtain ⟨-, hopcode, -⟩ := accepted?_eq_some_iff.mp hs
  have hwidth := (Layout.opcodeOf_eq_ok_iff.mp hopcode).2
  unfold maxFieldWidth at hwidth
  unfold Accepted.size
  omega

theorem sum_size_le (table : InstructionSet) (statements : List Statement) :
    ((accepted table statements).map Accepted.size).sum ≤ 3 * statements.length := by
  have hsum := List.sum_le_card_nsmul ((accepted table statements).map Accepted.size) 3 (by
    simpa using fun a ha => size_of_mem_accepted ha)
  have hlength : (accepted table statements).length ≤ statements.length :=
    List.length_filterMap_le _ _
  rw [List.length_map, smul_eq_mul] at hsum
  omega

/-- Words add sizes exactly as long as the sum is a word. -/
theorem toNat_foldl_add_size {l : List Accepted} {address : UInt32}
    (h : address.toNat + (l.map Accepted.size).sum < 2 ^ 32) :
    (l.foldl (fun address a => address + .ofNat a.size) address).toNat =
      address.toNat + (l.map Accepted.size).sum := by
  induction l generalizing address with
  | nil => rfl
  | cons a rest ih =>
    rw [List.map_cons, List.sum_cons] at h ⊢
    have hsize : (UInt32.ofNat a.size).toNat = a.size := UInt32.toNat_ofNat_of_lt' (by
      show a.size < 2 ^ 32
      omega)
    have hstep : (address + UInt32.ofNat a.size).toNat = address.toNat + a.size := by
      rw [UInt32.toNat_add, hsize, Nat.mod_eq_of_lt (by omega)]
    rw [List.foldl_cons, ih (by omega), hstep, Nat.add_assoc]

/-! ### Passing the end -/

/-- The diagnostic of a label that has no address left. -/
def labelPastEnd? (address : Nat) (s : Statement) : Option Diagnostic :=
  s.label.bind fun name =>
    if 0x10000 ≤ address then some ⟨s.line, 0, .placement (.labelPastEnd name)⟩ else none

/-- The diagnostic of an accepted instruction that ends past the end. -/
def instructionPastEnd? (table : InstructionSet) (address : Nat) (s : Statement) :
    Option Diagnostic :=
  (s.accepted? table).bind fun a =>
    if 0x10000 < address + a.size then
      some ⟨s.line, a.instruction.column,
        .placement (.instructionPastEnd a.instruction.mnemonic address)⟩
    else none

/-- What there is to report of a statement that passes the end at its address:
    its label, if that has no address left, and else its instruction. -/
def pastEnd? (table : InstructionSet) (address : Nat) (s : Statement) : Option Diagnostic :=
  (s.labelPastEnd? address).or (s.instructionPastEnd? table address)

end Statement

namespace Layout

open Statement

variable {table : InstructionSet} {state : State}

/-! ### What is placed -/

/-- What a statement adds to the placed instructions: nothing without an accepted
    instruction, else this instruction at the running address if it fits. -/
theorem placed_cases (table : InstructionSet) (state : State) (s : Statement) :
    (s.accepted? table = none ∧ (state.place table s).2.placed = none) ∨
    (∃ a, s.accepted? table = some a ∧ a.fits state.address ∧
      ∃ p, (state.place table s).2.placed = some p ∧ p.address.toNat = state.address ∧
        Accepted.ofPlaced p = a) ∨
    (∃ a, s.accepted? table = some a ∧ ¬ a.fits state.address ∧
      (state.place table s).2.placed = none) := by
  rw [place_eq]
  simp only [State.afterInstruction]
  cases hs : s.instruction with
  | none => exact .inl ⟨accepted?_of_none hs, rfl⟩
  | some instruction =>
    have haddress := address_afterLabel state s
    generalize (state.afterLabel s).1 = next at haddress
    rw [← haddress]
    rcases placeInstruction_cases table next s.line instruction with
      ⟨fault, hfault, h⟩ | ⟨opcode, p, hopcode, hfits, rfl, h⟩ | ⟨opcode, hopcode, hout, -, h⟩ |
      ⟨opcode, hopcode, hout, -, h⟩
    · exact .inl ⟨accepted?_eq_none hs hfault, by simp [h]⟩
    all_goals
      have ha : s.accepted? table = some ⟨s.line, instruction, opcode⟩ :=
        accepted?_eq_some_iff.mpr ⟨hs, hopcode, rfl⟩
      unfold Opcode.size at *
    · refine .inr (.inl ⟨_, ha, Accepted.fits_iff.mpr hfits, _, congrArg (·.2.placed) h, ?_, rfl⟩)
      -- an instruction has at least one byte, so its address is below the end
      apply Nat.mod_eq_of_lt
      unfold addressSpaceEnd at hfits
      omega
    all_goals
      refine .inr (.inr ⟨_, ha, ?_, by simp [h]⟩)
      rw [Accepted.fits_iff]
      exact Nat.not_le.mpr hout

theorem placed_ofState_eq_nil {statements : List Statement}
    (h : addressSpaceEnd ≤ state.address) : (ofState table state statements).placed = [] := by
  induction statements generalizing state with
  | nil => rfl
  | cons s rest ih =>
    have hrest := @ih (state.place table s).1 (by rw [address_place]; omega)
    rw [placed_ofState_cons, hrest, List.append_nil]
    rcases placed_cases table state s with ⟨-, hnone⟩ | ⟨a, -, hfits, -⟩ | ⟨a, -, -, hnone⟩
    · rw [hnone]; rfl
    · -- at least one byte would have to fit
      rw [Accepted.fits_iff, Accepted.size] at hfits
      omega
    · rw [hnone]; rfl

/-- **Run**: the placed instructions are those accepted ones in front of the
    first that does not fit, at their exact addresses. -/
theorem placed_ofState (table : InstructionSet) (state : State) (statements : List Statement) :
    (ofState table state statements).placed.map (fun p => (p.address.toNat, Accepted.ofPlaced p)) =
      (located table state.address statements).takeWhile fun (address, a) => a.fits address := by
  induction statements generalizing state with
  | nil => rfl
  | cons s rest ih =>
    have hrest := ih (state.place table s).1
    rw [address_place] at hrest
    rw [placed_ofState_cons, located_cons, List.map_append]
    rcases placed_cases table state s with ⟨ha, hnone⟩ | ⟨a, ha, hfits, p, hp, haddress, rfl⟩ |
      ⟨a, ha, hfits, hnone⟩
    · simp [ha, hnone, hrest]
    · simp [ha, hp, hfits, hrest, haddress]
    · -- nothing behind this instruction is placed
      have hnil : (ofState table (state.place table s).1 rest).placed = [] := by
        apply placed_ofState_eq_nil
        rw [address_place, room_eq, ha]
        exact Nat.le_of_lt (Nat.lt_of_not_le (mt Accepted.fits_iff.mpr hfits))
      simp [ha, hnone, hnil, hfits]

/-! ### What is reported -/

/-- What a label reports of passing the end, and whether it raises the flag. -/
theorem filter_isPastEnd_afterLabel (state : State) (s : Statement) :
    (state.afterLabel s).2.filter Diagnostic.isPastEnd =
        (if state.overflowed then [] else (s.labelPastEnd? state.address).toList) ∧
      (state.afterLabel s).1.overflowed =
        (state.overflowed || (s.labelPastEnd? state.address).isSome) := by
  unfold State.afterLabel labelPastEnd?
  cases s.label with
  | none => simp
  | some name =>
    rcases placeLabel_cases state s.line name with
      ⟨hin, -, h⟩ | ⟨hin, first, -, h⟩ | ⟨hout, hflag, h⟩ | ⟨hout, hflag, h⟩
    · have hlabel : ¬ 0x10000 ≤ state.address := Nat.not_le.mpr hin
      simp [h, hlabel]
    · have hlabel : ¬ 0x10000 ≤ state.address := Nat.not_le.mpr hin
      simp [h, hlabel, Diagnostic.isPastEnd]
    · simp [h, hflag]
    · have hlabel : 0x10000 ≤ state.address := hout
      simp [h, hflag, hlabel, Diagnostic.isPastEnd]

/-- The same for an instruction. -/
theorem filter_isPastEnd_afterInstruction (table : InstructionSet) (state : State) (s : Statement) :
    (state.afterInstruction table s).2.diagnostics.filter Diagnostic.isPastEnd =
        (if state.overflowed then [] else (s.instructionPastEnd? table state.address).toList) ∧
      (state.afterInstruction table s).1.overflowed =
        (state.overflowed || (s.instructionPastEnd? table state.address).isSome) := by
  unfold State.afterInstruction instructionPastEnd?
  cases hs : s.instruction with
  | none => simp [accepted?_of_none hs]
  | some instruction =>
    rcases placeInstruction_cases table state s.line instruction with
      ⟨fault, hfault, h⟩ | ⟨opcode, p, hopcode, hfits, -, h⟩ | ⟨opcode, hopcode, hout, hflag, h⟩ |
      ⟨opcode, hopcode, hout, hflag, h⟩
    · -- a look-up or a field is at fault, and not an address
      have hplain : Diagnostic.isPastEnd ⟨s.line, instruction.column, fault⟩ = false := by
        rcases opcodeOf_eq_error_iff.mp hfault with ⟨cause, -, rfl⟩ | ⟨opcode, -, -, rfl⟩ <;> rfl
      simp [h, accepted?_eq_none hs hfault, hplain]
    all_goals
      have ha : s.accepted? table = some ⟨s.line, instruction, opcode⟩ :=
        accepted?_eq_some_iff.mpr ⟨hs, hopcode, rfl⟩
      unfold addressSpaceEnd at *
    · have hin : ¬ 0x10000 < state.address + (1 + opcode.fieldWidth) := Nat.not_lt.mpr hfits
      simp [h, ha, Accepted.size, hin]
    · simp [h, hflag]
    · have hlate : 0x10000 < state.address + (1 + opcode.fieldWidth) := hout
      simp [h, hflag, ha, Accepted.size, hlate, Diagnostic.isPastEnd]

/-- **Step**: a statement that passes the end is reported unless one has been
    before, for its label if that is past the end already. -/
theorem filter_isPastEnd_place (table : InstructionSet) (state : State) (s : Statement) :
    (state.place table s).2.diagnostics.filter Diagnostic.isPastEnd =
        (if state.overflowed then [] else (s.pastEnd? table state.address).toList) ∧
      (state.place table s).1.overflowed =
        (state.overflowed || (s.pastEnd? table state.address).isSome) := by
  obtain ⟨hlabel, hnext⟩ := filter_isPastEnd_afterLabel state s
  obtain ⟨hinstruction, hlast⟩ :=
    filter_isPastEnd_afterInstruction table (state.afterLabel s).1 s
  rw [address_afterLabel, hnext] at hinstruction hlast
  rw [place_eq]
  simp only [List.filter_append, hlabel, hinstruction, hlast, pastEnd?]
  cases state.overflowed with
  | true => simp
  | false => cases s.labelPastEnd? state.address <;> simp

/-- **Run**: passing the end is reported for the first statement that does it. -/
theorem filter_isPastEnd_ofState (table : InstructionSet) (state : State)
    (statements : List Statement) :
    (ofState table state statements).diagnostics.filter Diagnostic.isPastEnd =
      if state.overflowed then []
      else ((addressed table state.address statements).findSome? fun (address, s) =>
        s.pastEnd? table address).toList := by
  induction statements generalizing state with
  | nil => simp [addressed]
  | cons s rest ih =>
    obtain ⟨hstep, hflag⟩ := filter_isPastEnd_place table state s
    have hrest := ih (state.place table s).1
    rw [address_place, hflag] at hrest
    rw [diagnostics_ofState_cons, List.filter_append, hstep, hrest, addressed,
      List.findSome?_cons]
    cases state.overflowed with
    | true => simp
    | false => cases hpast : s.pastEnd? table state.address <;> simp [hpast]

/-- **How statements fill the address space.** -/
structure FillsAddressSpace (table : InstructionSet) (origin : UInt16)
    (statements : List Statement) : Prop where
  /-- Behind any number of statements, the running address is the origin and the
      sizes of the accepted instructions so far. -/
  address_eq : ∀ k, ((State.start origin).after table (statements.take k)).address =
    origin.toNat + ((accepted table (statements.take k)).map Accepted.size).sum
  /-- Counted in words of 32 bits it is the same, so it never wraps. -/
  runningWord_eq : ∀ k, (runningWord table origin.toUInt32 (statements.take k)).toNat =
    ((State.start origin).after table (statements.take k)).address
  /-- It ends behind all accepted instructions, whether they fit or not, -/
  end_eq : (ofStatements table origin statements).endAddress =
    origin.toNat + ((accepted table statements).map Accepted.size).sum
  /-- at most three bytes behind the origin for each statement, -/
  end_le : (ofStatements table origin statements).endAddress ≤
    origin.toNat + 3 * statements.length
  /-- which is a word. -/
  bound_le : origin.toNat + 3 * statements.length ≤ 2 ^ 32 - 1
  /-- The placed instructions are the longest front part of the accepted ones that
      end within the address space, each at the origin and the sizes before it. -/
  placed_eq : (ofStatements table origin statements).placed.map
      (fun p => (p.address.toNat, Accepted.ofPlaced p)) =
    (located table origin.toNat statements).takeWhile fun (address, a) => a.fits address
  /-- Passing the end is reported for the first statement that does it, if any
      does, and then once: for its label if that is past the end, and else for its
      instruction. -/
  pastEnd_eq : (ofStatements table origin statements).diagnostics.filter Diagnostic.isPastEnd =
    ((addressed table origin.toNat statements).findSome? fun (address, s) =>
      s.pastEnd? table address).toList

/-- Behind some statements, the running address is a sum of sizes. -/
theorem address_after_start (table : InstructionSet) (origin : UInt16)
    (statements : List Statement) :
    ((State.start origin).after table statements).address =
      origin.toNat + ((accepted table statements).map Accepted.size).sum := by
  rw [address_after, sum_room_eq]
  rfl

end Layout

end Mos6502
