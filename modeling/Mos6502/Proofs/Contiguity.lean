import Mathlib
import Mos6502.Opcode.Nmos
import Mos6502.Proofs.Acceptance

/-! # The Layout of a Program

    The instructions of a program lie one behind the other from the origin on
    (`Encoded.Contiguous`). So the address of each is the origin and the sizes
    of the instructions before it, which is where its bytes stand in the
    machine code, and the program ends where the last one does.

    That the instructions of an image are contiguous is an induction over its
    statements: the room that the layout reserves for a statement is the size
    of its encoded instruction (`Statement.Encodes`).
-/

namespace Mos6502

namespace Encoded

/-! ### Contiguous instructions -/

/-- The instructions follow each other without a gap, the first at the
    address. -/
def Contiguous : Nat → List Encoded → Prop
  | _, [] => True
  | address, e :: rest => e.address.toNat = address ∧ Contiguous (address + e.size) rest

theorem Contiguous.address_eq {address : Nat} {l : List Encoded} (h : Contiguous address l)
    {i : Nat} {e : Encoded} (he : l[i]? = some e) :
    e.address.toNat = address + ((l.take i).map size).sum := by
  induction l generalizing address i with
  | nil => simp at he
  | cons f rest ih =>
    -- behind the first instruction, its size has moved into the first address
    obtain ⟨hf, hrest⟩ := h
    cases i with
    | zero =>
      obtain rfl : f = e := by simpa using he
      simpa using hf
    | succ i =>
      rw [ih hrest (by simpa using he), List.take_succ_cons, List.map_cons, List.sum_cons,
        Nat.add_assoc]

theorem length_flatMap_bytes (l : List Encoded) :
    (l.flatMap bytes).length = (l.map size).sum := by
  induction l with
  | nil => rfl
  | cons e rest ih => rw [List.flatMap_cons, List.length_append, length_bytes, ih, List.map_cons,
      List.sum_cons]

/-- Each instruction begins where the one before it ends. -/
theorem Contiguous.next {address : Nat} {l : List Encoded} (h : Contiguous address l)
    {i : Nat} {e f : Encoded} (he : l[i]? = some e) (hf : l[i + 1]? = some f) :
    f.address.toNat = e.address.toNat + e.size := by
  rw [h.address_eq hf, h.address_eq he, List.take_add_one, he, List.map_append, List.sum_append]
  simp [Nat.add_assoc]

/-- The bytes of an instruction stand in the code at the distance of its
    address from the first one. -/
theorem Contiguous.slice {address : Nat} {l : List Encoded} (h : Contiguous address l)
    {e : Encoded} (he : e ∈ l) :
    address ≤ e.address.toNat ∧
      ((l.flatMap bytes).drop (e.address.toNat - address)).take e.size = e.bytes := by
  obtain ⟨before, after, rfl⟩ := List.append_of_mem he
  have haddress := h.address_eq (i := before.length) (e := e) (by simp)
  rw [List.take_left] at haddress
  refine ⟨by omega, ?_⟩
  -- the code before the instruction is as long as its distance
  have hlength : e.address.toNat - address = (before.flatMap bytes).length := by
    rw [length_flatMap_bytes]
    omega
  rw [hlength, List.flatMap_append, List.drop_left, List.flatMap_cons, ← length_bytes,
    List.take_left]

/-- Contiguous instructions end where the last one does. -/
theorem Contiguous.endAddress_getLast? {address : Nat} {l : List Encoded}
    (h : Contiguous address l) :
    address + (l.map size).sum = l.getLast?.elim address endAddress := by
  induction l generalizing address with
  | nil => rfl
  | cons e rest ih =>
    obtain ⟨he, hrest⟩ := h
    rw [List.map_cons, List.sum_cons, ← Nat.add_assoc, ih hrest]
    cases rest with
    | nil => simp [endAddress, he]
    | cons f rest =>
      rw [List.getLast?_cons_cons, List.getLast?_eq_some_getLast (List.cons_ne_nil f rest)]
      rfl

end Encoded

namespace Statement

variable {table : InstructionSet}

/-! ### The instructions of an image -/

/-- The instructions of admissible statements are contiguous, and they take up
    the rooms of the statements. -/
theorem contiguous_instructionsFrom {address : Nat} {statements : List Statement}
    (h : Admissible table address statements) :
    Encoded.Contiguous address (instructionsFrom table address statements) ∧
      ((instructionsFrom table address statements).map Encoded.size).sum =
        (statements.map (room table)).sum := by
  induction statements generalizing address with
  | nil => exact ⟨trivial, rfl⟩
  | cons s rest ih =>
    obtain ⟨hs, -, hrest⟩ := admissible_cons_iff.mp h
    obtain ⟨hcontiguous, hsum⟩ := ih hrest
    rw [instructionsFrom_cons, List.map_cons, List.sum_cons]
    rcases encodedAt_cases hs with ⟨-, hroom, hnone⟩ | ⟨e, hsome, he⟩
    · -- no instruction and no room: nothing changes
      rw [hroom, Nat.add_zero] at hcontiguous hsum
      rw [hnone, hroom, Nat.zero_add, Nat.add_zero]
      exact ⟨hcontiguous, hsum⟩
    · -- the next instruction starts behind the room, which is the size
      rw [hsome]
      refine ⟨⟨he.address_eq, ?_⟩, ?_⟩
      · rw [← he.room_eq]
        exact hcontiguous
      · rw [Option.toList_some, List.singleton_append, List.map_cons, List.sum_cons, hsum,
          he.room_eq]

/-- Admissible statements end within the address space if they begin there. -/
theorem sum_room_le {address : Nat} {statements : List Statement}
    (h : Admissible table address statements) (haddress : address ≤ 0x10000) :
    address + (statements.map (room table)).sum ≤ 0x10000 := by
  induction statements generalizing address with
  | nil => simpa using haddress
  | cons s rest ih =>
    obtain ⟨hs, -, hrest⟩ := admissible_cons_iff.mp h
    -- the bound holds behind every statement
    have hnext : address + s.room table ≤ 0x10000 := by
      rcases encodedAt_cases hs with ⟨-, hroom, -⟩ | ⟨e, -, he⟩
      · rwa [hroom]
      · rw [he.room_eq]
        exact he.within
    rw [List.map_cons, List.sum_cons, ← Nat.add_assoc]
    exact ih hrest hnext

/-- The instruction that a line reads as. -/
def instructionOf (line : Nat) (text : String) : Option Instruction :=
  match read line text with
  | .ok s => s.instruction
  | .error _ => none

/-- The encoded instructions are, line by line, those that the lines read as. -/
theorem map_instructionsFrom {first address : Nat} {lines : List String}
    {statements : List Statement} (hread : ReadAs first lines statements)
    (h : Admissible table address statements) :
    (instructionsFrom table address statements).map
        (fun e => (e.line, Instruction.mk e.mnemonic e.operand e.column)) =
      (lines.zipIdx first).filterMap fun (text, line) =>
        (instructionOf line text).map fun instruction => (line, instruction) := by
  induction lines generalizing first address statements with
  | nil =>
    rw [readAs_nil.mp hread]
    rfl
  | cons text lines ih =>
    obtain ⟨s, rest, rfl, hs, hrest⟩ := readAs_cons_iff.mp hread
    obtain ⟨hadmissible, -, hrest'⟩ := admissible_cons_iff.mp h
    rw [instructionsFrom_cons, List.map_append, ih hrest hrest', List.zipIdx_cons,
      List.filterMap_cons]
    have hline := line_of_read hs
    rcases encodedAt_cases hadmissible with ⟨hnone, -, hencoded⟩ | ⟨e, hencoded, he⟩
    · simp [hencoded, instructionOf, hs, hnone]
    · simp [hencoded, instructionOf, hs, he.instruction_eq, he.line_eq, hline]

theorem pairwise_line_instructionsFrom {address : Nat} {statements : List Statement}
    (h : Admissible table address statements)
    (hline : statements.Pairwise fun s t => s.line < t.line) :
    (instructionsFrom table address statements).Pairwise fun e f => e.line < f.line := by
  induction statements generalizing address with
  | nil => exact .nil
  | cons s rest ih =>
    obtain ⟨hs, -, hrest⟩ := admissible_cons_iff.mp h
    obtain ⟨hfirst, hline⟩ := List.pairwise_cons.mp hline
    rw [instructionsFrom_cons]
    rcases encodedAt_cases hs with ⟨-, -, hnone⟩ | ⟨e, hsome, he⟩
    · rw [hnone]
      exact ih hrest hline
    · rw [hsome]
      refine List.pairwise_cons.mpr ⟨?_, ih hrest hline⟩
      intro f hf
      obtain ⟨t, ht, at_, hencodes⟩ := exists_encodes_of_mem hrest hf
      rw [he.line_eq, hencodes.line_eq]
      exact hfirst t ht

end Statement

/-! ### Assembled programs -/

/-- **The layout of a program** that has been assembled from some lines. -/
structure Program.LaidOut (table : InstructionSet) (origin : UInt16) (lines : List String)
    (program : Program) : Prop where
  /-- The program starts at the origin, -/
  origin_eq : program.origin = origin
  /-- and so does its first instruction. -/
  first : ∀ e, program.instructions.head? = some e → e.address = program.origin
  /-- Each instruction begins where the one before it ends. -/
  next : ∀ i e f, program.instructions[i]? = some e → program.instructions[i + 1]? = some f →
    f.address.toNat = e.address.toNat + e.size
  /-- An instruction has the size that its opcode reserves, one to three bytes,
      and the bytes that its opcode encodes its operand in. -/
  encoding : ∀ e ∈ program.instructions, ∃ opcode,
    table.lookup e.mnemonic e.operand.mode = .ok opcode ∧
    e.size = 1 + opcode.fieldWidth ∧ 1 ≤ e.size ∧ e.size ≤ 3 ∧
    opcode.encode e.operand = .ok (e.opcode :: e.field)
  /-- Its bytes stand in the machine code at its distance from the origin. -/
  slice : ∀ e ∈ program.instructions, program.origin.toNat ≤ e.address.toNat ∧
    (program.bytes.drop (e.address.toNat - program.origin.toNat)).take e.size =
      e.opcode :: e.field
  /-- The program ends behind its code, -/
  end_eq : program.endAddress = program.origin.toNat + program.bytes.length
  /-- where its last instruction ends, if there is one, -/
  end_last : program.endAddress =
    program.instructions.getLast?.elim program.origin.toNat Encoded.endAddress
  /-- where the layout of its statements ends, -/
  end_layout : program.endAddress = (Layout.ofStatements table origin
    (Reading.statements (Reading.ofLines lines))).endAddress
  /-- within the address space. -/
  end_le : program.endAddress ≤ 0x10000
  /-- The instructions stand on ascending lines, -/
  ascending : program.instructions.Pairwise fun e f => e.line < f.line
  /-- which are those that read as an instruction, and they are what was read. -/
  read : program.instructions.map
      (fun e => (e.line, Instruction.mk e.mnemonic e.operand e.column)) =
    (lines.zipIdx 1).filterMap fun (text, line) =>
      (Statement.instructionOf line text).map fun instruction => (line, instruction)

/-- **Every assembled program is laid out without gaps**, as large as its layout
    has reserved, and within the address space. -/
theorem laidOut_of_assembleLines_eq_ok (table : InstructionSet) (options : Options)
    (lines : List String) (program : Program)
    (h : assembleLines table options lines = .ok program) :
    program.LaidOut table options.origin lines := by
  obtain ⟨statements, hread, hadmissible, himage⟩ := exists_image_of_assembleLines_eq_ok h
  obtain ⟨hcontiguous, hsum⟩ := Statement.contiguous_instructionsFrom hadmissible
  have hinstructions := himage.instructions_eq
  have horigin := himage.origin_eq
  rw [← hinstructions] at hcontiguous hsum
  have hend : program.endAddress =
      options.origin.toNat + (program.instructions.map Encoded.size).sum := by
    rw [Program.endAddress, himage.bytes_eq, Encoded.length_flatMap_bytes, horigin]
  exact
    { origin_eq := horigin
      first := by
        intro e he
        rw [List.head?_eq_getElem?] at he
        have haddress := hcontiguous.address_eq he
        -- no instruction stands before the first
        simp only [List.take_zero, List.map_nil, List.sum_nil, Nat.add_zero] at haddress
        rw [horigin]
        exact UInt16.toNat_inj.mp haddress
      next := by
        intro i e f he hf
        exact hcontiguous.next he hf
      encoding := by
        intro e he
        rw [hinstructions] at he
        obtain ⟨s, -, at_, hencodes⟩ := Statement.exists_encodes_of_mem hadmissible he
        obtain ⟨opcode, hlookup, hwide, hsize, hencode⟩ := hencodes.opcode_eq
        unfold Opcode.size at hsize
        exact ⟨opcode, hlookup, hsize, by omega, by omega, hencode⟩
      slice := by
        intro e he
        rw [horigin, himage.bytes_eq]
        exact hcontiguous.slice he
      end_eq := rfl
      end_last := by
        rw [hend, hcontiguous.endAddress_getLast?, horigin]
      end_layout := by
        -- both ends are the origin and the rooms of the statements
        rw [hend, hsum, Layout.ofStatements, Layout.endAddress_ofState, Reading.ofLines_eq,
          hread.readings.1]
        rfl
      end_le := by
        rw [hend, hsum]
        exact Statement.sum_room_le hadmissible (Nat.le_of_lt (UInt16.toNat_lt _))
      ascending := by
        rw [hinstructions]
        exact Statement.pairwise_line_instructionsFrom hadmissible hread.pairwise_line
      read := by
        rw [hinstructions]
        exact Statement.map_instructionsFrom hread hadmissible }

/-- Two instructions that end with the address space. -/
theorem laidOut_at_end_of_address_space :
    ∃ program, assembleLines .nmos { origin := 0xFFFB } ["LDA #$01", "here: sta $0200 ; store"] =
        .ok program ∧
      program.LaidOut .nmos 0xFFFB ["LDA #$01", "here: sta $0200 ; store"] := by
  obtain ⟨program, h⟩ : ∃ program, assembleLines .nmos { origin := 0xFFFB }
      ["LDA #$01", "here: sta $0200 ; store"] = .ok program := by
    refine ⟨?_, ?_⟩
    rotate_left
    · cbv
      rfl
  exact ⟨program, h, laidOut_of_assembleLines_eq_ok .nmos _ _ program h⟩

end Mos6502
