import Mos6502.Assembly
import Mos6502.Proofs.Layout
import Mos6502.Proofs.Reading
import Mos6502.Proofs.Scan

/-! # The Image of a Source

    Statements that have nothing wrong with them (`Admissible`) determine a
    program without any run: the address of each is the sum of the rooms
    before it (`addressed`), and from its address follow its symbol
    (`symbolAt`) and its encoded instruction (`encodedAt`). Such a program is
    the image of the statements (`Program.IsImage`).

    `exists_program_of_admissible` shows that assembly produces the image:
    the running address of the layout is the sum of the rooms, and what the
    encoding gives for a placed instruction has the size that was reserved.
-/

namespace Mos6502

namespace Statement

/-! ### Addresses -/

/-- Statements with their addresses, the first of which is given. -/
def addressed (table : InstructionSet) (address : Nat) : List Statement → List (Nat × Statement)
  | [] => []
  | s :: rest => (address, s) :: addressed table (address + s.room table) rest

/-- The address of the statement at an index: the first address and the rooms
    of the statements before it. -/
def addressOf (table : InstructionSet) (address : Nat) (statements : List Statement) (i : Nat) : Nat :=
  address + ((statements.take i).map (room table)).sum

@[simp] theorem addressOf_zero (table : InstructionSet) (address : Nat)
    (statements : List Statement) : addressOf table address statements 0 = address := by
  simp [addressOf]

@[simp] theorem addressOf_cons_succ (table : InstructionSet) (address : Nat) (s : Statement)
    (rest : List Statement) (i : Nat) :
    addressOf table address (s :: rest) (i + 1) =
      addressOf table (address + s.room table) rest i := by
  simp [addressOf, Nat.add_assoc]

/-- A statement with its address is one of the statements, and no address comes
    before the first. -/
theorem mem_of_mem_addressed {table : InstructionSet} {address : Nat} {statements : List Statement}
    {p : Nat × Statement} (h : p ∈ addressed table address statements) :
    p.2 ∈ statements ∧ address ≤ p.1 := by
  induction statements generalizing address with
  | nil => simp [addressed] at h
  | cons s rest ih =>
    rcases List.mem_cons.mp h with rfl | h
    · exact ⟨List.mem_cons_self, Nat.le_refl address⟩
    · obtain ⟨hmem, hle⟩ := ih h
      exact ⟨List.mem_cons_of_mem s hmem, by omega⟩

/-! ### Admissible statements -/

/-- **Admissible statements** have nothing wrong with them. The conditions on
    addresses are exact sums, not addresses that have been truncated. -/
structure Admissible (table : InstructionSet) (address : Nat) (statements : List Statement) :
    Prop where
  /-- No two statements carry the same label. -/
  labels_nodup : (statements.filterMap label).Nodup
  /-- Every instruction has an opcode whose field holds its payload and is not
      wider than two bytes. -/
  encodable : ∀ s ∈ statements, ∀ instruction, s.instruction = some instruction →
    ∃ opcode, table.lookup instruction.mnemonic instruction.operand.mode = .ok opcode ∧
      instruction.operand.mode.payloadWidth ≤ opcode.fieldWidth ∧ opcode.fieldWidth ≤ 2
  /-- Every label has an address of sixteen bits. -/
  label_within : ∀ i s, statements[i]? = some s → s.label ≠ none →
    addressOf table address statements i ≤ 0xFFFF
  /-- Every instruction ends within the address space. -/
  instruction_within : ∀ i s, statements[i]? = some s → s.instruction ≠ none →
    addressOf table address statements i + s.room table ≤ 0x10000

/-- What a single statement has to meet at its address. -/
structure AdmissibleAt (table : InstructionSet) (address : Nat) (s : Statement) : Prop where
  /-- Its label has an address of sixteen bits. -/
  label_within : s.label ≠ none → address ≤ 0xFFFF
  /-- Its instruction has a fitting opcode and ends within the address space. -/
  instruction_within : ∀ instruction, s.instruction = some instruction →
    ∃ opcode, table.lookup instruction.mnemonic instruction.operand.mode = .ok opcode ∧
      instruction.operand.mode.payloadWidth ≤ opcode.fieldWidth ∧ opcode.fieldWidth ≤ 2 ∧
      address + opcode.size ≤ 0x10000

variable {table : InstructionSet} {address : Nat}

theorem room_of_lookup {s : Statement} {instruction : Instruction} {opcode : Opcode}
    (hs : s.instruction = some instruction)
    (hlookup : table.lookup instruction.mnemonic instruction.operand.mode = .ok opcode)
    (hwide : opcode.fieldWidth ≤ 2) : s.room table = opcode.size :=
  Layout.room_of_opcodeOf_eq_ok hs (Layout.opcodeOf_eq_ok_iff.mpr ⟨hlookup, hwide⟩)

theorem admissible_nil (table : InstructionSet) (address : Nat) : Admissible table address [] where
  labels_nodup := .nil
  encodable := by simp
  label_within := by simp
  instruction_within := by simp

theorem nodup_labels_cons_iff {s : Statement} {rest : List Statement} :
    ((s :: rest).filterMap label).Nodup ↔
      (∀ name, s.label = some name → name ∉ rest.filterMap label) ∧
      (rest.filterMap label).Nodup := by
  rw [List.filterMap_cons]
  cases s.label <;> simp

theorem Admissible.head {s : Statement} {rest : List Statement}
    (h : Admissible table address (s :: rest)) : AdmissibleAt table address s where
  label_within := by
    intro hs
    simpa using h.label_within 0 s rfl hs
  instruction_within := by
    intro instruction hs
    obtain ⟨opcode, hlookup, hnarrow, hwide⟩ := h.encodable s List.mem_cons_self instruction hs
    have hfits := h.instruction_within 0 s rfl (by simp [hs])
    rw [room_of_lookup hs hlookup hwide, addressOf_zero] at hfits
    exact ⟨opcode, hlookup, hnarrow, hwide, hfits⟩

/-- The statements behind the first have their indices moved by one, and their
    addresses by its room. -/
theorem Admissible.tail {s : Statement} {rest : List Statement}
    (h : Admissible table address (s :: rest)) :
    Admissible table (address + s.room table) rest where
  labels_nodup := (nodup_labels_cons_iff.mp h.labels_nodup).2
  encodable := by
    intro t ht
    exact h.encodable t (List.mem_cons_of_mem s ht)
  label_within := by
    intro i t ht hlabel
    simpa using h.label_within (i + 1) t (by simpa using ht) hlabel
  instruction_within := by
    intro i t ht hinstruction
    simpa using h.instruction_within (i + 1) t (by simpa using ht) hinstruction

theorem AdmissibleAt.cons {s : Statement} {rest : List Statement}
    (hs : AdmissibleAt table address s)
    (hfresh : ∀ name, s.label = some name → name ∉ rest.filterMap label)
    (hrest : Admissible table (address + s.room table) rest) :
    Admissible table address (s :: rest) where
  labels_nodup := nodup_labels_cons_iff.mpr ⟨hfresh, hrest.labels_nodup⟩
  encodable := by
    intro t ht
    rcases List.mem_cons.mp ht with rfl | ht
    · intro instruction ht
      obtain ⟨opcode, hlookup, hnarrow, hwide, -⟩ := hs.instruction_within instruction ht
      exact ⟨opcode, hlookup, hnarrow, hwide⟩
    · exact hrest.encodable t ht
  label_within := by
    intro i t ht hlabel
    cases i with
    | zero =>
      obtain rfl : s = t := by simpa using ht
      simpa using hs.label_within hlabel
    | succ i => simpa using hrest.label_within i t (by simpa using ht) hlabel
  instruction_within := by
    intro i t ht hinstruction
    cases i with
    | zero =>
      obtain rfl : s = t := by simpa using ht
      obtain ⟨instruction, hi⟩ := Option.ne_none_iff_exists'.mp hinstruction
      obtain ⟨opcode, hlookup, -, hwide, hfits⟩ := hs.instruction_within instruction hi
      rwa [addressOf_zero, room_of_lookup hi hlookup hwide]
    | succ i => simpa using hrest.instruction_within i t (by simpa using ht) hinstruction

theorem admissible_cons_iff {s : Statement} {rest : List Statement} :
    Admissible table address (s :: rest) ↔
      AdmissibleAt table address s ∧
      (∀ name, s.label = some name → name ∉ rest.filterMap label) ∧
      Admissible table (address + s.room table) rest := by
  constructor
  · intro h
    exact ⟨h.head, (nodup_labels_cons_iff.mp h.labels_nodup).1, h.tail⟩
  · rintro ⟨hs, hfresh, hrest⟩
    exact hs.cons hfresh hrest

/-- Apart from the labels, statements are admissible one by one. -/
theorem admissible_iff {statements : List Statement} :
    Admissible table address statements ↔
      (statements.filterMap label).Nodup ∧
        ∀ p ∈ addressed table address statements, AdmissibleAt table p.1 p.2 := by
  induction statements generalizing address with
  | nil => simp [admissible_nil, addressed]
  | cons s rest ih =>
    rw [admissible_cons_iff, ih, addressed, List.forall_mem_cons, nodup_labels_cons_iff]
    constructor
    · rintro ⟨hs, hfresh, hnodup, hrest⟩
      exact ⟨⟨hfresh, hnodup⟩, hs, hrest⟩
    · rintro ⟨⟨hfresh, hnodup⟩, hs, hrest⟩
      exact ⟨hs, hfresh, hnodup, hrest⟩

/-- Each statement meets its conditions at its address. -/
theorem Admissible.admissibleAt {statements : List Statement}
    (h : Admissible table address statements) {p : Nat × Statement}
    (hp : p ∈ addressed table address statements) : AdmissibleAt table p.1 p.2 :=
  (admissible_iff.mp h).2 p hp

theorem mem_labels_cons {s : Statement} {rest : List Statement} {name : String} :
    name ∈ (s :: rest).filterMap label ↔ s.label = some name ∨ name ∈ rest.filterMap label := by
  simp [List.mem_filterMap]

/-! ### Symbols and instructions -/

/-- The symbol that a statement defines at its address. -/
def symbolAt (address : Nat) (s : Statement) : Option Symbol :=
  s.label.map fun name => ⟨name, .ofNat address, s.line⟩

/-- The instruction of a statement as it is encoded at its address. -/
def encodedAt (table : InstructionSet) (address : Nat) (s : Statement) : Option Encoded :=
  match s.instruction with
  | none => none
  | some instruction =>
    match table.lookup instruction.mnemonic instruction.operand.mode with
    | .error _ => none
    | .ok opcode => some
        { line := s.line
          column := instruction.column
          address := .ofNat address
          mnemonic := instruction.mnemonic
          operand := instruction.operand
          opcode := opcode.byte
          field := instruction.operand.payload ++
            List.replicate (opcode.fieldWidth - instruction.operand.mode.payloadWidth) 0 }

theorem line_of_symbolAt {address : Nat} {s : Statement} {symbol : Symbol}
    (h : symbolAt address s = some symbol) : symbol.line = s.line := by
  obtain ⟨name, -, rfl⟩ := Option.map_eq_some_iff.mp h
  rfl

theorem line_of_encodedAt {s : Statement} {e : Encoded} (h : encodedAt table address s = some e) :
    e.line = s.line := by
  unfold encodedAt at h
  split at h
  · simp at h
  · split at h
    · simp at h
    · rw [← Option.some.inj h]

/-- The symbols that statements define, in order. -/
def symbolsFrom (table : InstructionSet) (address : Nat) (statements : List Statement) : List Symbol :=
  (addressed table address statements).filterMap fun (address, s) => symbolAt address s

/-- The encoded instructions of statements, in order. -/
def instructionsFrom (table : InstructionSet) (address : Nat) (statements : List Statement) :
    List Encoded :=
  (addressed table address statements).filterMap fun (address, s) => encodedAt table address s

theorem symbolsFrom_cons (table : InstructionSet) (address : Nat) (s : Statement)
    (rest : List Statement) :
    symbolsFrom table address (s :: rest) =
      (symbolAt address s).toList ++ symbolsFrom table (address + s.room table) rest := by
  cases h : symbolAt address s <;> simp [symbolsFrom, addressed, h]

theorem instructionsFrom_cons (table : InstructionSet) (address : Nat) (s : Statement)
    (rest : List Statement) :
    instructionsFrom table address (s :: rest) =
      (encodedAt table address s).toList ++
        instructionsFrom table (address + s.room table) rest := by
  cases h : encodedAt table address s <;> simp [instructionsFrom, addressed, h]

/-- How an encoded instruction stands to its statement at an address. -/
structure Encodes (table : InstructionSet) (address : Nat) (s : Statement) (e : Encoded) : Prop where
  /-- It is the instruction of the statement, -/
  instruction_eq : s.instruction = some ⟨e.mnemonic, e.operand, e.column⟩
  /-- on the line of the statement, -/
  line_eq : e.line = s.line
  /-- at the exact address, -/
  address_eq : e.address.toNat = address
  /-- as large as the room of the statement, -/
  room_eq : s.room table = e.size
  /-- within the address space, -/
  within : address + e.size ≤ 0x10000
  /-- and with the bytes that its opcode encodes it in. -/
  opcode_eq : ∃ opcode, table.lookup e.mnemonic e.operand.mode = .ok opcode ∧
    opcode.fieldWidth ≤ 2 ∧ e.size = opcode.size ∧ opcode.encode e.operand = .ok e.bytes

theorem Encodes.size_le {s : Statement} {e : Encoded} (h : Encodes table address s e) :
    e.size ≤ 3 := by
  obtain ⟨opcode, -, hwide, hsize, -⟩ := h.opcode_eq
  rw [hsize, Opcode.size]
  omega

/-- At an admissible address, a statement without an instruction takes up no
    room, and any other one has its instruction encoded. -/
theorem encodedAt_cases {s : Statement} (h : AdmissibleAt table address s) :
    (s.instruction = none ∧ s.room table = 0 ∧ encodedAt table address s = none) ∨
      ∃ e, encodedAt table address s = some e ∧ Encodes table address s e := by
  cases hs : s.instruction with
  | none => exact .inl ⟨rfl, by simp [room, hs], by simp [encodedAt, hs]⟩
  | some instruction =>
    obtain ⟨opcode, hlookup, hnarrow, hwide, hfits⟩ := h.instruction_within instruction hs
    refine .inr ⟨_, by simp only [encodedAt, hs, hlookup]; rfl, ?_⟩
    have hsize : 1 + (instruction.operand.payload ++ List.replicate
        (opcode.fieldWidth - instruction.operand.mode.payloadWidth) (0 : UInt8)).length =
        opcode.size := by
      simp only [List.length_append, Operand.length_payload, List.length_replicate, Opcode.size]
      omega
    have hfield : instruction.operand.encode opcode.fieldWidth = .ok _ :=
      Operand.encode_eq_ok_iff.mpr ⟨hnarrow, hwide, rfl⟩
    -- an instruction has at least one byte, so its address is below the end
    have haddress : address < 2 ^ 16 := by
      unfold Opcode.size at hfits
      omega
    refine ⟨hs, rfl, Nat.mod_eq_of_lt haddress, ?_, ?_, opcode, hlookup, hwide, hsize, ?_⟩
    · rw [room_of_lookup hs hlookup hwide]
      exact hsize.symm
    · rw [Encoded.size, hsize]
      exact hfits
    · simp [Opcode.encode, hfield, Except.map, Encoded.bytes]

/-- An instruction that is encoded at an admissible address is that of its
    statement. -/
theorem encodes_of_encodedAt {s : Statement} (h : AdmissibleAt table address s) {e : Encoded}
    (he : encodedAt table address s = some e) : Encodes table address s e := by
  rcases encodedAt_cases h with ⟨-, -, hnone⟩ | ⟨f, hsome, hf⟩
  · simp [hnone] at he
  · obtain rfl : f = e := Option.some.inj (hsome.symm.trans he)
    exact hf

/-- Every encoded instruction of admissible statements is that of one of them
    at its address. -/
theorem exists_encodes_of_mem {statements : List Statement}
    (h : Admissible table address statements) {e : Encoded}
    (he : e ∈ instructionsFrom table address statements) :
    ∃ s ∈ statements, ∃ at_, Encodes table at_ s e := by
  obtain ⟨p, hp, hencoded⟩ := List.mem_filterMap.mp he
  exact ⟨p.2, (mem_of_mem_addressed hp).1, p.1, encodes_of_encodedAt (h.admissibleAt hp) hencoded⟩

end Statement

/-- **The image of statements**: the program that they determine. -/
structure Program.IsImage (table : InstructionSet) (origin : UInt16) (statements : List Statement)
    (program : Program) : Prop where
  /-- The program starts at the origin. -/
  origin_eq : program.origin = origin
  /-- Its instructions are those of the statements at their addresses. -/
  instructions_eq : program.instructions =
    Statement.instructionsFrom table origin.toNat statements
  /-- Its symbols are those of the statements at their addresses. -/
  symbols_eq : program.symbols.symbols = Statement.symbolsFrom table origin.toNat statements
  /-- Its code is that of its instructions. -/
  bytes_eq : program.bytes = program.instructions.flatMap Encoded.bytes
  /-- Its line table is that of its instructions. -/
  lineTable_eq : program.lineTable = .ofInstructions program.instructions

namespace Layout

open Statement

variable {table : InstructionSet} {state : State}

/-! ### Laying out admissible statements -/

/-- A fitting opcode encodes a placed instruction as the instruction of its
    statement. -/
theorem encode_eq_ok {s : Statement} {instruction : Instruction} {opcode : Opcode}
    (hs : s.instruction = some instruction)
    (hlookup : table.lookup instruction.mnemonic instruction.operand.mode = .ok opcode)
    (hnarrow : instruction.operand.mode.payloadWidth ≤ opcode.fieldWidth)
    (hwide : opcode.fieldWidth ≤ 2) (address : Nat) :
    ∃ encoded, (Placed.mk s.line instruction.column (.ofNat address) instruction.mnemonic
        instruction.operand opcode).encode = .ok encoded ∧
      encodedAt table address s = some encoded := by
  have hfield : instruction.operand.encode opcode.fieldWidth = .ok _ :=
    Operand.encode_eq_ok_iff.mpr ⟨hnarrow, hwide, rfl⟩
  refine ⟨_, ?_, by simp only [encodedAt, hs, hlookup]; rfl⟩
  simp [Placed.encode, hfield, Except.map]

/-- A new label that has an address is defined there. -/
theorem afterLabel_of_within {s : Statement}
    (hwithin : s.label ≠ none → state.address ≤ 0xFFFF)
    (hfresh : ∀ name, s.label = some name → name ∉ state.symbols.symbols.map Symbol.name) :
    ∃ symbols, state.afterLabel s = ({ state with symbols }, []) ∧
      symbols.symbols = state.symbols.symbols ++ (symbolAt state.address s).toList := by
  unfold State.afterLabel symbolAt
  cases hs : s.label with
  | none => exact ⟨state.symbols, rfl, by simp⟩
  | some name =>
    have hin : state.address < addressSpaceEnd := Nat.lt_succ_of_le (hwithin (by simp [hs]))
    have hfind := SymbolTable.find?_eq_none_iff.mpr (hfresh name hs)
    rcases placeLabel_cases state s.line name with
      ⟨-, -, h⟩ | ⟨-, first, hfirst, -⟩ | ⟨hout, -⟩ | ⟨hout, -⟩
    · exact ⟨_, h, SymbolTable.symbols_insertIfNew_of_find?_eq_none hfind⟩
    -- the label is new, and its address is not past the end
    · simp [hfind] at hfirst
    · exact absurd hin (Nat.not_lt.mpr hout)
    · exact absurd hin (Nat.not_lt.mpr hout)

/-- An instruction with a fitting opcode and enough room is placed, and what is
    placed can be encoded. -/
theorem afterInstruction_of_admissibleAt {s : Statement}
    (h : AdmissibleAt table state.address s) :
    ∃ step, state.afterInstruction table s =
        ({ state with address := state.address + s.room table }, step) ∧
      step.diagnostics = [] ∧
      step.placed.toList.filterMap (fun placed => placed.encode.toOption) =
        (encodedAt table state.address s).toList ∧
      step.placed.toList.filterMap Placed.diagnostic? = [] := by
  unfold State.afterInstruction
  cases hs : s.instruction with
  | none => exact ⟨⟨none, [], []⟩, by simp [Statement.room, hs], rfl, by simp [encodedAt, hs], rfl⟩
  | some instruction =>
    obtain ⟨opcode, hlookup, hnarrow, hwide, hfits⟩ := h.instruction_within instruction hs
    have hopcode := opcodeOf_eq_ok_iff.mpr ⟨hlookup, hwide⟩
    have hroom := room_of_lookup hs hlookup hwide
    obtain ⟨encoded, hencode, hencoded⟩ := encode_eq_ok hs hlookup hnarrow hwide state.address
    rcases placeInstruction_cases table state s.line instruction with
      ⟨fault, hfault, -⟩ | ⟨other, placed, hother, -, hplaced, hplace⟩ |
      ⟨other, hother, hout, -⟩ | ⟨other, hother, hout, -⟩
    · simp [hopcode] at hfault
    · obtain rfl : opcode = other := Except.ok.inj (hopcode.symm.trans hother)
      refine ⟨_, by rw [hroom]; exact hplace, rfl, ?_, ?_⟩
      · simp [hplaced, hencode, hencoded, Except.toOption]
      · simp [hplaced, Placed.diagnostic?, hencode]
    -- it does not run past the end
    all_goals
      obtain rfl : opcode = other := Except.ok.inj (hopcode.symm.trans hother)
      exact absurd hfits (Nat.not_le.mpr hout)

/-- **Run**: admissible statements with new labels are laid out without a
    diagnostic, everything placed can be encoded, and what comes out are the
    instructions and the symbols of the statements. -/
theorem ofState_of_admissible {statements : List Statement}
    (h : Admissible table state.address statements)
    (hfresh : ∀ name ∈ statements.filterMap label, name ∉ state.symbols.symbols.map Symbol.name) :
    (ofState table state statements).diagnostics = [] ∧
    (ofState table state statements).encodingDiagnostics = [] ∧
    (ofState table state statements).encoded =
      instructionsFrom table state.address statements ∧
    (ofState table state statements).symbols.symbols =
      state.symbols.symbols ++ symbolsFrom table state.address statements := by
  induction statements generalizing state with
  | nil => simp [encoded, Placed.encodingDiagnostics_eq, instructionsFrom, symbolsFrom, addressed]
  | cons s rest ih =>
    obtain ⟨hs, hnew, hrest⟩ := admissible_cons_iff.mp h
    have hfresh' : ∀ name, s.label = some name →
        name ∉ state.symbols.symbols.map Symbol.name := by
      intro name hname
      exact hfresh name (mem_labels_cons.mpr (.inl hname))
    obtain ⟨table', hlabel, hsymbols⟩ := afterLabel_of_within hs.label_within hfresh'
    obtain ⟨step, hstep, hdiagnostics, hencoded, hencoding⟩ :=
      @afterInstruction_of_admissibleAt table { state with symbols := table' } s hs
    have hplace : state.place table s =
        ({ state with address := state.address + s.room table, symbols := table' }, step) := by
      rw [place_eq, hlabel]
      simp only [hstep, List.nil_append]
    -- the labels to come are new to the symbols behind the statement as well
    have hfresh'' : ∀ name ∈ rest.filterMap label, name ∉ table'.symbols.map Symbol.name := by
      intro name hname
      rw [hsymbols, List.map_append, List.mem_append]
      rintro (hold | hlast)
      · exact hfresh name (mem_labels_cons.mpr (.inr hname)) hold
      · unfold symbolAt at hlast
        cases hl : s.label with
        | none => simp [hl] at hlast
        | some own =>
          obtain rfl : name = own := by simpa [hl] using hlast
          exact hnew name hl hname
    obtain ⟨hd, he, hi, hsym⟩ :=
      @ih { state with address := state.address + s.room table, symbols := table' }
        hrest hfresh''
    refine ⟨?_, ?_, ?_, ?_⟩
    · rw [diagnostics_ofState_cons, hplace, hdiagnostics, hd]
      rfl
    · rw [Placed.encodingDiagnostics_eq, placed_ofState_cons, hplace, List.filterMap_append,
        hencoding, ← Placed.encodingDiagnostics_eq, he]
      rfl
    · rw [encoded, placed_ofState_cons, hplace, List.filterMap_append, hencoded,
        instructionsFrom_cons, ← hi, encoded]
    · rw [symbols_ofState_cons, hplace, hsym, symbolsFrom_cons, hsymbols, List.append_assoc]

end Layout

/-! ### Assembling admissible statements -/

/-- **Admissible sources assemble**, and to the image of their statements. -/
theorem exists_program_of_admissible {table : InstructionSet} (options : Options)
    {lines : List String} {statements : List Statement}
    (hread : Statement.ReadAs 1 lines statements)
    (h : Statement.Admissible table options.origin.toNat statements) :
    ∃ program, assembleLines table options lines = .ok program ∧
      program.IsImage table options.origin statements := by
  obtain ⟨hstatements, hreported⟩ := hread.readings
  obtain ⟨hplacing, hencoding, hinstructions, hsymbols⟩ :=
    @Layout.ofState_of_admissible table (.start options.origin) statements h (by
      simp [Layout.State.start, SymbolTable.empty])
  have hfound : Assembly.found (Reading.ofLines lines) (Layout.ofStatements table options.origin
      (Reading.statements (Reading.ofLines lines))) = [] := by
    unfold Assembly.found Layout.ofStatements
    rw [Reading.ofLines_eq, hstatements, hreported, hplacing, hencoding]
    rfl
  refine ⟨_, by simp only [assembleLines, Assembly.run, hfound, List.isEmpty_nil, if_true]; rfl, ?_⟩
  rw [Reading.ofLines_eq, hstatements]
  exact
    { origin_eq := rfl
      instructions_eq := hinstructions
      symbols_eq := hsymbols
      bytes_eq := rfl
      lineTable_eq := rfl }

end Mos6502
