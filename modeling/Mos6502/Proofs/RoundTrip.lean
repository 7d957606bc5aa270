import Mos6502.Opcode.Nmos
import Mos6502.Proofs.Acceptance
import Mos6502.Proofs.Rows

/-! # Assembling a Listing

    The source lines that a listing shows assemble to the program that is
    listed (`assembleLines_sourceLines_listing`), and the program is listed in
    the same way again.

    A listing has one row for each label and for each instruction. So a
    statement is taken apart (`Statement.parts`), and it loses its number, its
    column and its comment (`Statement.bare`). The proof has two halves that
    meet at these parts: the rows of the statements read back as the parts
    (`exists_readAs_text_rows`), and the parts stand at the addresses of
    their statements (`addressed_of_parts`). Symbols, instructions and rows are
    read off one statement at its address, and so they are the same.
-/

namespace Mos6502

namespace Statement

variable {table : InstructionSet}

/-! ### The parts of a statement -/

/-- What a statement says, wherever it stands. -/
def bare (s : Statement) : Statement :=
  ⟨0, s.label, s.instruction.map fun i => ⟨i.mnemonic, i.operand, 0⟩, none⟩

/-- A statement that consists of a label. -/
def ofLabel (label : String) : Statement := ⟨0, some label, none, none⟩

/-- A statement that consists of an instruction. -/
def ofInstruction (mnemonic : String) (operand : Operand) : Statement :=
  ⟨0, none, some ⟨mnemonic, operand, 0⟩, none⟩

/-- The label and the instruction of a statement, each by itself. -/
def parts (s : Statement) : List Statement :=
  s.label.toList.map ofLabel ++ s.instruction.toList.map fun i => ofInstruction i.mnemonic i.operand

@[simp] theorem room_bare (s : Statement) : s.bare.room table = s.room table := by
  cases hs : s.instruction <;> simp [room, bare, hs]

@[simp] theorem room_ofLabel (label : String) : (ofLabel label).room table = 0 := rfl

theorem room_ofInstruction {s : Statement} {i : Instruction} (hs : s.instruction = some i) :
    (ofInstruction i.mnemonic i.operand).room table = s.room table := by
  simp [room, ofInstruction, hs]

theorem addressed_map_bare (address : Nat) (statements : List Statement) :
    addressed table address (statements.map bare) =
      (addressed table address statements).map fun (address, s) => (address, s.bare) := by
  induction statements generalizing address with
  | nil => rfl
  | cons s rest ih => rw [List.map_cons, addressed, room_bare, ih, addressed, List.map_cons]

theorem addressed_parts_append (address : Nat) (s : Statement) (rest : List Statement) :
    addressed table address (s.parts ++ rest) =
      (s.parts.map fun part => (address, part)) ++
        addressed table (address + s.room table) rest := by
  have hinstruction : addressed table address
      ((s.instruction.toList.map fun i => ofInstruction i.mnemonic i.operand) ++ rest) =
      ((s.instruction.toList.map fun i => ofInstruction i.mnemonic i.operand).map
        fun part => (address, part)) ++ addressed table (address + s.room table) rest := by
    cases hs : s.instruction with
    | none => simp [room, hs]
    | some i => simp [addressed, room_ofInstruction hs]
  -- a label in front takes up no room
  unfold parts
  cases s.label with
  | none => exact hinstruction
  | some label => simpa [addressed] using hinstruction

/-- **The parts stand at the addresses of their statements.** -/
theorem addressed_of_parts {statements listed : List Statement}
    (h : listed.map bare = statements.flatMap parts) (address : Nat) :
    ((addressed table address listed).map fun (address, s) => (address, s.bare)) =
      (addressed table address statements).flatMap fun (address, s) =>
        s.parts.map fun part => (address, part) := by
  rw [← addressed_map_bare, h]
  clear h
  induction statements generalizing address with
  | nil => rfl
  | cons s rest ih => rw [List.flatMap_cons, addressed_parts_append, ih, addressed,
      List.flatMap_cons]

/-! ### The image of the parts -/

theorem symbolAt_bare (address : Nat) (s : Statement) :
    symbolAt address s.bare = (symbolAt address s).map fun symbol => { symbol with line := 0 } := by
  cases hs : s.label <;> simp [symbolAt, bare, hs]

theorem encodedAt_bare (address : Nat) (s : Statement) :
    encodedAt table address s.bare =
      (encodedAt table address s).map fun e => { e with line := 0, column := 0 } := by
  cases hi : s.instruction with
  | none => simp [encodedAt, bare, hi]
  | some i =>
    cases hlookup : table.lookup i.mnemonic i.operand.mode <;>
      simp [encodedAt, bare, hi, hlookup]

/-- What is read off a statement at its address: something about its symbol, and
    then something about its instruction. -/
def viewAt {α : Type} (table : InstructionSet) (ofSymbol : Symbol → List α)
    (ofEncoded : Encoded → List α) (address : Nat) (s : Statement) : List α :=
  (symbolAt address s).toList.flatMap ofSymbol ++
    (encodedAt table address s).toList.flatMap ofEncoded

section Views

variable {α : Type} {ofSymbol : Symbol → List α} {ofEncoded : Encoded → List α}
  {statements listed : List Statement}

/-- A view that looks at neither lines nor columns does not tell a statement
    from a bare one. -/
theorem viewAt_bare (hsymbol : ∀ symbol, ofSymbol { symbol with line := 0 } = ofSymbol symbol)
    (hencoded : ∀ e, ofEncoded { e with line := 0, column := 0 } = ofEncoded e)
    (address : Nat) (s : Statement) :
    viewAt table ofSymbol ofEncoded address s.bare =
      viewAt table ofSymbol ofEncoded address s := by
  rw [viewAt, viewAt, symbolAt_bare, encodedAt_bare]
  cases symbolAt address s <;> cases encodedAt table address s <;> simp [hsymbol, hencoded]

theorem flatMap_viewAt_parts (address : Nat) (s : Statement) :
    s.parts.flatMap (viewAt table ofSymbol ofEncoded address) =
      viewAt table ofSymbol ofEncoded address s.bare := by
  cases hs : s.label <;> cases hi : s.instruction <;>
    simp [viewAt, parts, ofLabel, ofInstruction, symbolAt, encodedAt, bare, hs, hi]

/-- Whatever is read off statements at their addresses, but for lines and
    columns, is the same for the parts. -/
theorem flatMap_addressed_of_parts
    (hsymbol : ∀ symbol, ofSymbol { symbol with line := 0 } = ofSymbol symbol)
    (hencoded : ∀ e, ofEncoded { e with line := 0, column := 0 } = ofEncoded e)
    (h : listed.map bare = statements.flatMap parts) (address : Nat) :
    ((addressed table address listed).flatMap fun (address, s) =>
        viewAt table ofSymbol ofEncoded address s) =
      (addressed table address statements).flatMap fun (address, s) =>
        viewAt table ofSymbol ofEncoded address s := by
  have hbare := @viewAt_bare table α ofSymbol ofEncoded hsymbol hencoded
  calc (addressed table address listed).flatMap
          (fun (address, s) => viewAt table ofSymbol ofEncoded address s)
      = ((addressed table address listed).map fun (address, s) => (address, s.bare)).flatMap
          (fun (address, s) => viewAt table ofSymbol ofEncoded address s) := by
        rw [List.flatMap_map]
        simp only [hbare]
    _ = (addressed table address statements).flatMap (fun (address, s) =>
          s.parts.flatMap (viewAt table ofSymbol ofEncoded address)) := by
        rw [addressed_of_parts h, List.flatMap_assoc]
        simp only [List.flatMap_map]
    _ = (addressed table address statements).flatMap
          (fun (address, s) => viewAt table ofSymbol ofEncoded address s) := by
        simp only [flatMap_viewAt_parts, hbare]

private theorem flatMap_fun_nil {α β : Type} (l : List α) :
    (l.flatMap fun _ => ([] : List β)) = [] :=
  List.flatMap_eq_nil_iff.mpr fun _ _ => rfl

theorem symbolsFrom_of_parts (table : InstructionSet)
    (h : listed.map bare = statements.flatMap parts) (address : Nat) :
    (symbolsFrom table address listed).map (fun symbol => (symbol.name, symbol.address)) =
      (symbolsFrom table address statements).map fun symbol => (symbol.name, symbol.address) := by
  have hview : ∀ l, (symbolsFrom table address l).map
        (fun symbol => (symbol.name, symbol.address)) =
      (addressed table address l).flatMap fun (address, s) =>
        viewAt table (fun symbol => [(symbol.name, symbol.address)]) (fun _ => []) address s := by
    intro l
    simp [symbolsFrom, viewAt, List.filterMap_eq_flatMap_toList, List.map_flatMap,
      ← List.map_eq_flatMap, flatMap_fun_nil]
  rw [hview, hview]
  exact flatMap_addressed_of_parts (fun _ => rfl) (fun _ => rfl) h address

theorem instructionsFrom_of_parts (table : InstructionSet)
    (h : listed.map bare = statements.flatMap parts) (address : Nat) :
    (instructionsFrom table address listed).map
        (fun e => (e.address, e.mnemonic, e.operand, e.opcode, e.field)) =
      (instructionsFrom table address statements).map
        fun e => (e.address, e.mnemonic, e.operand, e.opcode, e.field) := by
  have hview : ∀ l, (instructionsFrom table address l).map
        (fun e => (e.address, e.mnemonic, e.operand, e.opcode, e.field)) =
      (addressed table address l).flatMap fun (address, s) =>
        viewAt table (fun _ => [])
          (fun e => [(e.address, e.mnemonic, e.operand, e.opcode, e.field)]) address s := by
    intro l
    simp [instructionsFrom, viewAt, List.filterMap_eq_flatMap_toList, List.map_flatMap,
      ← List.map_eq_flatMap, flatMap_fun_nil]
  rw [hview, hview]
  exact flatMap_addressed_of_parts (fun _ => rfl) (fun _ => rfl) h address

theorem rowsFrom_of_parts (table : InstructionSet)
    (h : listed.map bare = statements.flatMap parts) (address : Nat) :
    (Listing.rowsFrom table address listed).map Listing.Row.render =
      (Listing.rowsFrom table address statements).map Listing.Row.render := by
  have hview : ∀ l, (Listing.rowsFrom table address l).map Listing.Row.render =
      (addressed table address l).flatMap fun (address, s) =>
        viewAt table (fun symbol => [(Listing.Row.ofSymbol symbol).render])
          (fun e => [(Listing.Row.ofInstruction e).render]) address s := by
    intro l
    simp [Listing.rowsFrom, Listing.rowsAt, viewAt, List.map_flatMap, ← List.map_eq_flatMap]
    rfl
  rw [hview, hview]
  exact flatMap_addressed_of_parts (fun _ => rfl) (fun _ => rfl) h address

theorem labels_of_parts (h : listed.map bare = statements.flatMap parts) :
    listed.filterMap label = statements.filterMap label := by
  have hparts : ∀ s : Statement, s.parts.filterMap label = s.label.toList := by
    intro s
    cases hs : s.label <;> cases hi : s.instruction <;>
      simp [parts, ofLabel, ofInstruction, hs, hi]
  calc listed.filterMap label
      = (listed.map bare).filterMap label := by
        rw [List.filterMap_map]
        rfl
    _ = statements.filterMap label := by
        rw [h, List.filterMap_flatMap]
        simp only [hparts, List.filterMap_eq_flatMap_toList]

theorem AdmissibleAt.of_bare_mem_parts {address : Nat} {s t : Statement}
    (h : AdmissibleAt table address s) (ht : t.bare ∈ s.parts) : AdmissibleAt table address t := by
  rcases List.mem_append.mp ht with ht | ht
  · obtain ⟨label, hlabel, heq⟩ := List.mem_map.mp ht
    have htlabel : t.label = some label := (congrArg Statement.label heq).symm
    have htnone : t.instruction = none :=
      Option.map_eq_none_iff.mp (congrArg Statement.instruction heq).symm
    constructor
    · intro _
      exact h.label_within (by simp [Option.mem_toList.mp hlabel])
    · simp [htnone]
  · obtain ⟨i, hi, heq⟩ := List.mem_map.mp ht
    have htlabel : t.label = none := (congrArg Statement.label heq).symm
    have htsome := congrArg Statement.instruction heq
    refine ⟨by simp [htlabel], ?_⟩
    intro instruction hinstruction
    simp only [ofInstruction, bare, hinstruction, Option.map_some, Option.some.injEq,
      Instruction.mk.injEq] at htsome
    rw [← htsome.1, ← htsome.2.1]
    exact h.instruction_within i (Option.mem_toList.mp hi)

theorem admissible_of_parts (h : listed.map bare = statements.flatMap parts) {address : Nat}
    (hadmissible : Admissible table address statements) : Admissible table address listed := by
  rw [admissible_iff] at hadmissible ⊢
  obtain ⟨hnodup, hat⟩ := hadmissible
  refine ⟨by rwa [labels_of_parts h], ?_⟩
  intro p hp
  -- the listed statement is a part of one that stands at the same address
  have hmem : (p.1, p.2.bare) ∈
      (addressed table address listed).map fun (address, s) => (address, s.bare) :=
    List.mem_map_of_mem hp
  rw [addressed_of_parts h] at hmem
  obtain ⟨q, hq, hmem⟩ := List.mem_flatMap.mp hmem
  obtain ⟨part, hpart, heq⟩ := List.mem_map.mp hmem
  obtain ⟨hfirst, hsecond⟩ := Prod.mk.inj heq
  rw [← hfirst]
  exact (hat q hq).of_bare_mem_parts (hsecond ▸ hpart)

end Views

/-! ### Reading the rows -/

/-- The line that a part is listed as. -/
def text (part : Statement) : String :=
  match part.label, part.instruction with
  | some label, _ => label ++ ":"
  | none, some i => Instruction.format i.mnemonic i.operand
  | none, none => ""

/-- A well-formed part is read back from its line. -/
theorem exists_read_text {s part : Statement} (hs : s.WellFormed) (hpart : part ∈ s.parts)
    (n : Nat) : ∃ t, read n part.text = .ok t ∧ t.bare = part := by
  rcases List.mem_append.mp hpart with hpart | hpart
  · obtain ⟨label, hlabel, rfl⟩ := List.mem_map.mp hpart
    exact ⟨_, read_label n (hs.label label (Option.mem_toList.mp hlabel)), rfl⟩
  · obtain ⟨i, hi, rfl⟩ := List.mem_map.mp hpart
    have hmnemonic := hs.mnemonic i (Option.mem_toList.mp hi)
    have hread := read_format n hmnemonic.1 i.operand
    rw [hmnemonic.upper_eq] at hread
    exact ⟨_, hread, rfl⟩

theorem exists_readAs_text {parts : List Statement}
    (h : ∀ part ∈ parts, ∀ n, ∃ t, read n part.text = .ok t ∧ t.bare = part) (first : Nat) :
    ∃ listed, ReadAs first (parts.map text) listed ∧ listed.map bare = parts := by
  induction parts generalizing first with
  | nil => exact ⟨[], by simp, rfl⟩
  | cons part rest ih =>
    obtain ⟨t, hread, hbare⟩ := h part List.mem_cons_self first
    obtain ⟨listed, hrest, hparts⟩ :=
      ih (fun p hp => h p (List.mem_cons_of_mem part hp)) (first + 1)
    exact ⟨t :: listed, readAs_cons_iff.mpr ⟨t, listed, rfl, hread, hrest⟩, by
      rw [List.map_cons, hbare, hparts]⟩

theorem text_rowsAt {address : Nat} {s : Statement} (h : AdmissibleAt table address s) :
    (Listing.rowsAt table address s).map Listing.Row.text = s.parts.map text := by
  rcases encodedAt_cases h with ⟨hi, -, hnone⟩ | ⟨e, hsome, he⟩
  · rw [Listing.rowsAt, parts, symbolAt, hnone, hi]
    cases s.label <;> rfl
  · rw [Listing.rowsAt, parts, symbolAt, hsome, he.instruction_eq]
    cases s.label <;> rfl

theorem text_rowsFrom {address : Nat} {statements : List Statement}
    (h : Admissible table address statements) :
    (Listing.rowsFrom table address statements).map Listing.Row.text =
      (statements.flatMap parts).map text := by
  induction statements generalizing address with
  | nil => rfl
  | cons s rest ih =>
    obtain ⟨hs, -, hrest⟩ := admissible_cons_iff.mp h
    rw [Listing.rowsFrom_cons, List.map_append, text_rowsAt hs, ih hrest, List.flatMap_cons,
      List.map_append]

end Statement

/-! ### The program of a listing -/

/-- Two programs that can only be told apart by their sources. -/
structure Program.Alike (p q : Program) : Prop where
  /-- They have the same code, -/
  bytes_eq : p.bytes = q.bytes
  /-- which ends at the same address. -/
  endAddress_eq : p.endAddress = q.endAddress
  /-- Their instructions are the same, and encoded in the same way. -/
  instructions_eq :
    p.instructions.map (fun e => (e.address, e.mnemonic, e.operand, e.opcode, e.field)) =
      q.instructions.map fun e => (e.address, e.mnemonic, e.operand, e.opcode, e.field)
  /-- Their symbols are the same. -/
  symbols_eq : p.symbols.symbols.map (fun symbol => (symbol.name, symbol.address)) =
    q.symbols.symbols.map fun symbol => (symbol.name, symbol.address)
  /-- They are listed in the same way. -/
  listing_eq : p.listing = q.listing

/-- The parts of statements have the same image. -/
theorem Program.IsImage.alike {table : InstructionSet} {origin : UInt16}
    {statements listed : List Statement} {p q : Program}
    (hp : p.IsImage table origin listed) (hq : q.IsImage table origin statements)
    (h : listed.map Statement.bare = statements.flatMap Statement.parts)
    (hlisted : listed.Pairwise fun s t => s.line < t.line)
    (hstatements : statements.Pairwise fun s t => s.line < t.line) : p.Alike q := by
  have hinstructions := Statement.instructionsFrom_of_parts table h origin.toNat
  rw [← hp.instructions_eq, ← hq.instructions_eq] at hinstructions
  -- the code is read off the opcodes and the fields
  have hbytes : p.bytes = q.bytes := by
    have hcode := congrArg (List.flatMap fun
      (_, _, _, opcode, field) => opcode :: field) hinstructions
    rw [hp.bytes_eq, hq.bytes_eq]
    rw [List.flatMap_map, List.flatMap_map] at hcode
    exact hcode
  refine ⟨hbytes, ?_, hinstructions, ?_, ?_⟩
  · rw [Program.endAddress, Program.endAddress, hbytes, hp.origin_eq, hq.origin_eq]
  · rw [hp.symbols_eq, hq.symbols_eq]
    exact Statement.symbolsFrom_of_parts table h origin.toNat
  · have hrows := congrArg (List.flatMap fun row => row ++ ['\n'])
      (Statement.rowsFrom_of_parts table h origin.toNat)
    rw [Program.listing, Program.listing, Listing.rows_eq hp hlisted,
      Listing.rows_eq hq hstatements]
    simpa only [List.flatMap_map, String.ofList_inj] using hrows

/-- **Listings round-trip**: the source lines in the listing of a program
    assemble to the same code, the same instructions and the same symbols, and
    the program that they assemble to has the same listing. -/
theorem assembleLines_sourceLines_listing (table : InstructionSet) (options : Options)
    (limit : Option Nat) (lines : List String) (program : Program)
    (h : assembleLines table options lines = .ok program) :
    ∃ again, assembleLines table ⟨options.origin, limit⟩ (Listing.sourceLines program.listing) =
        .ok again ∧ again.Alike program := by
  obtain ⟨statements, hread, hadmissible, himage⟩ := exists_image_of_assembleLines_eq_ok h
  have hwell := hread.wellFormed
  have hsource : Listing.sourceLines program.listing =
      (statements.flatMap Statement.parts).map Statement.text := by
    rw [Listing.sourceLines_listing himage hread.pairwise_line hwell hadmissible,
      Statement.text_rowsFrom hadmissible]
  -- the first half: every row is read back as the part that it shows
  have hback : ∀ part ∈ statements.flatMap Statement.parts, ∀ n,
      ∃ t, Statement.read n part.text = .ok t ∧ t.bare = part := by
    intro part hpart
    obtain ⟨s, hs, hpart⟩ := List.mem_flatMap.mp hpart
    exact Statement.exists_read_text (hwell s hs) hpart
  obtain ⟨listed, hlisted, hparts⟩ := Statement.exists_readAs_text hback 1
  rw [← hsource] at hlisted
  -- the second half: the parts have the image of the statements
  obtain ⟨again, hagain, himage'⟩ :=
    exists_program_of_admissible ⟨options.origin, limit⟩ hlisted
      (Statement.admissible_of_parts hparts hadmissible)
  exact ⟨again, hagain, himage'.alike himage hparts hlisted.pairwise_line hread.pairwise_line⟩

/-- A source with two labels in front of an instruction and one behind the
    last. -/
theorem assembleLines_sourceLines_listing_loop :
    ∃ program, assembleLines .nmos { origin := 0x0600 }
        ["start:", "loop: dex ; count", "  bne *-3", "end:"] = .ok program ∧
      ∃ again, assembleLines .nmos { origin := 0x0600 } (Listing.sourceLines program.listing) =
        .ok again ∧ again.Alike program := by
  obtain ⟨program, h⟩ : ∃ program, assembleLines .nmos { origin := 0x0600 }
      ["start:", "loop: dex ; count", "  bne *-3", "end:"] = .ok program := by
    refine ⟨?_, ?_⟩
    rotate_left
    · cbv
      rfl
  exact ⟨program, h, assembleLines_sourceLines_listing .nmos { origin := 0x0600 } none _ program h⟩

end Mos6502
