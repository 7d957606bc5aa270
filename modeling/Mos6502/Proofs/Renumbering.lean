import Mathlib.Order.Monotone.Basic
import Mathlib.Order.Nat
import Mos6502.Listing
import Mos6502.Proofs.Acceptance

/-! # Renumbered Lines

    The number of a line is handed on to everything that comes from it, and
    nothing but the wording of a diagnostic depends on it. So a source that is
    numbered in another way is read as the same statements with other numbers
    (`Statement.ReadAs.renumber`), which are laid out at the same addresses and
    define the same symbols and instructions, again with other numbers. The same
    faults are found in it (`Scan.atReading_renumber`).

    A program knows its lines in their order. It is the renumbered program if
    the numbers are replaced in ascending order
    (`Program.IsImage.isImage_renumber`).
-/

namespace Mos6502

/-- The symbol with the number of its line replaced. -/
def Symbol.renumber (number : Nat → Nat) (symbol : Symbol) : Symbol :=
  { symbol with line := number symbol.line }

/-- The instruction with the number of its line replaced. -/
def Encoded.renumber (number : Nat → Nat) (e : Encoded) : Encoded :=
  { e with line := number e.line }

namespace Statement

/-- The statement with the number of its line replaced. -/
def renumber (number : Nat → Nat) (s : Statement) : Statement :=
  { s with line := number s.line }

variable {table : InstructionSet} {number : Nat → Nat}

@[simp] theorem label_renumber (number : Nat → Nat) (s : Statement) :
    (s.renumber number).label = s.label := rfl

@[simp] theorem room_renumber (number : Nat → Nat) (s : Statement) :
    (s.renumber number).room table = s.room table := rfl

/-! ### Reading -/

theorem read_renumber {n : Nat} {text : String} {s : Statement} (h : read n text = .ok s)
    (k : Nat) : read k text = .ok { s with line := k } := by
  rcases read_eq_ok_cases h with ⟨label, comment, hfields, rfl⟩ |
    ⟨label, operation, comment, operand, hfields, hoperand, rfl⟩
  · rw [read, hfields]
    rfl
  · rw [read, hfields]
    simp [ofFields, readInstruction, hoperand, Except.map]

/-- A source is read from another number on as the same statements, with their
    numbers moved on. -/
theorem ReadAs.renumber {first : Nat} {lines : List String} {statements : List Statement}
    (h : ReadAs first lines statements) (k : Nat) :
    ReadAs (first + k) lines (statements.map (Statement.renumber (· + k))) := by
  induction lines generalizing first statements with
  | nil =>
    rw [readAs_nil.mp h]
    exact readAs_nil.mpr rfl
  | cons text lines ih =>
    obtain ⟨s, rest, rfl, hs, hrest⟩ := readAs_cons_iff.mp h
    have hnext := ih hrest
    rw [Nat.add_right_comm] at hnext
    have hread : read (first + k) text = .ok (s.renumber (· + k)) := by
      rw [Statement.renumber, line_of_read hs]
      exact read_renumber hs (first + k)
    exact readAs_cons_iff.mpr ⟨_, _, rfl, hread, hnext⟩

/-- Whether all lines can be read does not depend on the first number. -/
theorem ReadAs.exists_readAs {first : Nat} {lines : List String} {statements : List Statement}
    (h : ReadAs first lines statements) (k : Nat) : ∃ others, ReadAs k lines others := by
  induction lines generalizing first k statements with
  | nil => exact ⟨[], readAs_nil.mpr rfl⟩
  | cons text lines ih =>
    obtain ⟨s, rest, -, hs, hrest⟩ := readAs_cons_iff.mp h
    obtain ⟨others, hothers⟩ := ih hrest (k + 1)
    exact ⟨_, readAs_cons_iff.mpr ⟨_, others, rfl, read_renumber hs k, hothers⟩⟩

/-- So the statements of a source that is numbered on are those of the source by
    itself with their numbers moved on. -/
theorem readAs_add_iff {first k : Nat} {lines : List String} {statements : List Statement} :
    ReadAs (first + k) lines statements ↔
      ∃ others, statements = others.map (Statement.renumber (· + k)) ∧
        ReadAs first lines others := by
  constructor
  · intro h
    obtain ⟨others, hothers⟩ := h.exists_readAs first
    exact ⟨others, h.unique (hothers.renumber k), hothers⟩
  · intro ⟨others, heq, hothers⟩
    rw [heq]
    exact hothers.renumber k

/-! ### Addresses -/

theorem addressed_renumber (number : Nat → Nat) (address : Nat) (statements : List Statement) :
    addressed table address (statements.map (renumber number)) =
      (addressed table address statements).map fun (address, s) => (address, s.renumber number) := by
  induction statements generalizing address with
  | nil => rfl
  | cons s rest ih => rw [List.map_cons, addressed, room_renumber, ih, addressed, List.map_cons]

theorem labels_renumber (number : Nat → Nat) (statements : List Statement) :
    (statements.map (renumber number)).filterMap label = statements.filterMap label :=
  List.filterMap_map

theorem admissibleAt_renumber_iff {address : Nat} {s : Statement} :
    AdmissibleAt table address (s.renumber number) ↔ AdmissibleAt table address s := by
  constructor
  · intro h
    exact ⟨h.label_within, h.instruction_within⟩
  · intro h
    exact ⟨h.label_within, h.instruction_within⟩

/-- Numbers have nothing to do with what is admissible. -/
theorem admissible_renumber_iff {address : Nat} {statements : List Statement} :
    Admissible table address (statements.map (renumber number)) ↔
      Admissible table address statements := by
  rw [admissible_iff, admissible_iff, labels_renumber, addressed_renumber, List.forall_mem_map]
  simp only [admissibleAt_renumber_iff]

/-! ### Symbols and instructions -/

theorem symbolAt_renumber (number : Nat → Nat) (address : Nat) (s : Statement) :
    symbolAt address (s.renumber number) = (symbolAt address s).map (Symbol.renumber number) := by
  unfold symbolAt
  rw [label_renumber]
  cases s.label <;> rfl

theorem encodedAt_renumber (number : Nat → Nat) (address : Nat) (s : Statement) :
    encodedAt table address (s.renumber number) =
      (encodedAt table address s).map (Encoded.renumber number) := by
  unfold encodedAt renumber
  cases s.instruction with
  | none => rfl
  | some instruction =>
    simp only
    cases table.lookup instruction.mnemonic instruction.operand.mode <;> rfl

theorem symbolsFrom_renumber (number : Nat → Nat) (address : Nat) (statements : List Statement) :
    symbolsFrom table address (statements.map (renumber number)) =
      (symbolsFrom table address statements).map (Symbol.renumber number) := by
  induction statements generalizing address with
  | nil => rfl
  | cons s rest ih =>
    rw [List.map_cons, symbolsFrom_cons, symbolsFrom_cons, List.map_append, symbolAt_renumber,
      room_renumber, ih]
    cases symbolAt address s <;> rfl

theorem instructionsFrom_renumber (number : Nat → Nat) (address : Nat)
    (statements : List Statement) :
    instructionsFrom table address (statements.map (renumber number)) =
      (instructionsFrom table address statements).map (Encoded.renumber number) := by
  induction statements generalizing address with
  | nil => rfl
  | cons s rest ih =>
    rw [List.map_cons, instructionsFrom_cons, instructionsFrom_cons, List.map_append,
      encodedAt_renumber, room_renumber, ih]
    cases encodedAt table address s <;> rfl

end Statement

/-! ### Diagnostics -/

/-- The fault with the number of the line in it replaced. -/
def PlacementFault.renumber (number : Nat → Nat) : PlacementFault → PlacementFault
  | .duplicateLabel label firstLine => .duplicateLabel label (number firstLine)
  | .labelPastEnd label => .labelPastEnd label
  | .instructionPastEnd mnemonic address => .instructionPastEnd mnemonic address

/-- The fault with the number of the line in it replaced. -/
def Fault.renumber (number : Nat → Nat) : Fault → Fault
  | .placement fault => .placement (fault.renumber number)
  | fault => fault

/-- The diagnostic with the numbers of lines replaced. -/
def Diagnostic.renumber (number : Nat → Nat) (d : Diagnostic) : Diagnostic :=
  { d with line := number d.line, fault := d.fault.renumber number }

@[simp] theorem Diagnostic.kind_renumber (number : Nat → Nat) (d : Diagnostic) :
    (d.renumber number).kind = d.kind := by
  obtain ⟨line, column, fault⟩ := d
  cases fault with
  | placement fault => cases fault <;> rfl
  | _ => rfl

namespace Reading

/-- What came of a line, with the number of the line replaced. -/
def renumber (number : Nat → Nat) (reading : Reading) : Reading where
  statement := reading.statement.map (Statement.renumber number)
  diagnostic := reading.diagnostic.map (Diagnostic.renumber number)

theorem read_renumber_of_eq_error {n : Nat} {text : String} {d : Diagnostic}
    (h : Statement.read n text = .error d) (number : Nat → Nat) :
    Statement.read (number n) text = .error (d.renumber number) := by
  rcases Statement.read_eq_error_cases h with ⟨error, hfields, rfl⟩ |
    ⟨label, operation, comment, fault, hfields, hoperand, rfl⟩
  · rw [Statement.read, hfields]
    rfl
  · rw [Statement.read, hfields]
    simp [Statement.ofFields, Statement.readInstruction, hoperand, Except.map, Diagnostic.renumber,
      Fault.renumber]

theorem ofLine_renumber (number : Nat → Nat) (n : Nat) (text : String) :
    ofLine (number n) text = (ofLine n text).renumber number := by
  rcases ofLine_cases n text with ⟨s, hread, hline⟩ | ⟨d, hread, hline⟩
  · have hread' := Statement.read_renumber hread (number n)
    rw [hline, ofLine, hread', ← Statement.line_of_read hread]
    rfl
  · have hread' := read_renumber_of_eq_error hread number
    rw [hline, ofLine, hread', Statement.recover, Statement.recover]
    cases Fields.leadingLabel text <;> rfl

end Reading

namespace Scan

variable {table : InstructionSet}

/-- The scan with the numbers of the lines behind it replaced. -/
def renumber (number : Nat → Nat) (scan : Scan) : Scan :=
  { scan with labels := scan.labels.map fun (name, line) => (name, number line) }

theorem firstLine?_renumber (number : Nat → Nat) (scan : Scan) (name : String) :
    (scan.renumber number).firstLine? name = (scan.firstLine? name).map number := by
  unfold firstLine? renumber
  rw [List.find?_map, Option.map_map, Option.map_map]
  rfl

theorem atLabel_renumber (number : Nat → Nat) (scan : Scan) (line : Nat) (name : String) :
    (scan.renumber number).atLabel (number line) name =
      ((scan.atLabel line name).1.renumber number,
        (scan.atLabel line name).2.map (Diagnostic.renumber number)) := by
  unfold atLabel
  rw [firstLine?_renumber]
  by_cases hin : scan.address ≤ 0xFFFF
  · cases hfirst : scan.firstLine? name <;>
      simp [renumber, hin, Diagnostic.renumber, Fault.renumber, PlacementFault.renumber]
  · cases hflag : scan.overflowed <;>
      simp [renumber, hin, hflag, Diagnostic.renumber, Fault.renumber, PlacementFault.renumber]

theorem atInstruction_renumber (number : Nat → Nat) (scan : Scan) (line : Nat)
    (instruction : Instruction) :
    (scan.renumber number).atInstruction table (number line) instruction =
      ((scan.atInstruction table line instruction).1.renumber number,
        (scan.atInstruction table line instruction).2.map (Diagnostic.renumber number)) := by
  unfold atInstruction renumber
  simp only
  cases table.lookup instruction.mnemonic instruction.operand.mode with
  | error fault => rfl
  | ok opcode =>
    simp only
    -- neither the width of the field nor the address depends on the line
    split
    · rfl
    · split
      · split <;> rfl
      · split <;> rfl

theorem afterLabel_renumber (number : Nat → Nat) (scan : Scan) (s : Statement) :
    (scan.renumber number).afterLabel (s.renumber number) =
      ((scan.afterLabel s).1.renumber number,
        (scan.afterLabel s).2.map (Diagnostic.renumber number)) := by
  unfold afterLabel
  rw [Statement.label_renumber]
  cases s.label with
  | none => rfl
  | some name => exact atLabel_renumber number scan s.line name

theorem afterInstruction_renumber (number : Nat → Nat) (scan : Scan) (s : Statement) :
    (scan.renumber number).afterInstruction table (s.renumber number) =
      ((scan.afterInstruction table s).1.renumber number,
        (scan.afterInstruction table s).2.map (Diagnostic.renumber number)) := by
  unfold afterInstruction Statement.renumber
  cases s.instruction with
  | none => rfl
  | some instruction => exact atInstruction_renumber number scan s.line instruction

/-- **A renumbered line** has the same faults, and leaves the same behind. -/
theorem atReading_renumber (number : Nat → Nat) (scan : Scan) (reading : Reading) :
    (scan.renumber number).atReading table (reading.renumber number) =
      ((scan.atReading table reading).1.renumber number,
        (scan.atReading table reading).2.map (Diagnostic.renumber number)) := by
  obtain ⟨statement, diagnostic⟩ := reading
  cases statement with
  | none => simp [atReading, Reading.renumber, Option.toList_map]
  | some s =>
    simp [atReading, Reading.renumber, atStatement, afterLabel_renumber, afterInstruction_renumber,
      Option.toList_map]

end Scan

/-! ### Programs -/

/-- The symbols with the numbers of their lines replaced. Their names stay as
    they are. -/
def SymbolTable.renumber (number : Nat → Nat) (table : SymbolTable) : SymbolTable where
  symbols := table.symbols.map (Symbol.renumber number)
  distinct := by
    rw [List.map_map]
    exact table.distinct

theorem SymbolTable.eq_of_symbols_eq {table other : SymbolTable}
    (h : table.symbols = other.symbols) : table = other := by
  cases table
  cases other
  exact (SymbolTable.mk.injEq ..).mpr h

/-- The location with the number of its line replaced. -/
def Location.renumber (number : Nat → Nat) (location : Location) : Location :=
  { location with line := number location.line }

/-- The table with the numbers of lines replaced. -/
def LineTable.renumber (number : Nat → Nat) (table : LineTable) : LineTable where
  byAddress := table.byAddress.map fun (range, location) => (range, location.renumber number)
  byLine := table.byLine.map fun entry => (number entry.1, entry.2)

/-- The row with the number of its line replaced. -/
def Listing.Row.renumber (number : Nat → Nat) (row : Listing.Row) : Listing.Row :=
  { row with line := number row.line }

/-- The program with the numbers of its lines replaced. -/
def Program.renumber (number : Nat → Nat) (program : Program) : Program :=
  { program with
    instructions := program.instructions.map (Encoded.renumber number)
    symbols := program.symbols.renumber number
    lineTable := program.lineTable.renumber number }

variable {number : Nat → Nat}

/-- Line tables are in the order of the lines, so they are renumbered entry by
    entry if the order stays the same. -/
theorem LineTable.ofInstructions_renumber (hnumber : StrictMono number)
    (instructions : List Encoded) :
    ofInstructions (instructions.map (Encoded.renumber number)) =
      (ofInstructions instructions).renumber number := by
  have haddress := @List.map_mergeSort _ _ (fun a b => decide (a.1.start ≤ b.1.start))
    (fun a b => decide (a.1.start ≤ b.1.start))
    (fun (range, location) => (range, Location.renumber number location))
    (instructions.map fun e => (rangeOf e, locationOf e)) (fun _ _ _ _ => rfl)
  have hline := @List.map_mergeSort _ _ (fun a b => decide (a.1 ≤ b.1))
    (fun a b => decide (a.1 ≤ b.1)) (fun entry => (number entry.1, entry.2))
    (instructions.map fun e => (e.line, rangeOf e))
    (fun a _ b _ => by simp only [hnumber.le_iff_le])
  rw [List.map_map] at haddress hline
  simp only [ofInstructions, index, renumber, haddress, hline, List.map_map]
  rfl

namespace Program

/-- An address is found on the renumbered line, -/
theorem location?_renumber (number : Nat → Nat) (program : Program) (address : UInt16) :
    (program.renumber number).location? address =
      (program.location? address).map (Location.renumber number) := by
  -- the entries in front of the address are the same ones
  have hpoint : Bisection.partitionPoint (fun entry => entry.1.start ≤ address)
      (program.lineTable.renumber number).byAddress =
        Bisection.partitionPoint (fun entry => entry.1.start ≤ address)
          program.lineTable.byAddress :=
    Bisection.partitionPoint_map _ _ _
  show (program.lineTable.renumber number).location? address = _
  unfold location? LineTable.location?
  rw [hpoint]
  cases Bisection.partitionPoint (fun entry => entry.1.start ≤ address)
      program.lineTable.byAddress with
  | zero => rfl
  | succ last =>
    simp only [LineTable.renumber, List.getElem?_map]
    cases program.lineTable.byAddress[last]? with
    | none => rfl
    | some entry => cases h : entry.1.contains address <;> simp [h]

/-- a renumbered line has the same addresses, -/
theorem range?_renumber (hnumber : StrictMono number) (program : Program) (line : Nat) :
    (program.renumber number).range? (number line) = program.range? line := by
  unfold range? LineTable.range? renumber LineTable.renumber
  -- a line is before or behind another one under any numbers
  have hside : (fun entry : Nat × AddressRange => compare entry.1 (number line)) ∘
      (fun entry : Nat × AddressRange => (number entry.1, entry.2)) =
        fun entry => compare entry.1 line := by
    funext entry
    have hcompare := hnumber.cmp_map_eq entry.1 line
    rwa [cmp_eq_compare, cmp_eq_compare] at hcompare
  rw [Bisection.search_map, hside]
  cases Bisection.search (fun entry => compare entry.1 line) program.lineTable.byLine with
  | error index => rfl
  | ok index =>
    simp only [List.getElem?_map, Option.map_map]
    rfl

/-- no other line has any, -/
theorem range?_renumber_eq_none (number : Nat → Nat) (program : Program) {n : Nat}
    (hn : ∀ line, number line ≠ n) : (program.renumber number).range? n = none := by
  unfold range? LineTable.range? renumber LineTable.renumber
  rw [Bisection.search_map]
  cases hsearch : Bisection.search _ program.lineTable.byLine with
  | error index => rfl
  | ok index =>
    obtain ⟨entry, -, hline⟩ := Bisection.exists_of_search_eq_ok hsearch
    exact absurd (Nat.compare_eq_eq.mp hline) (hn entry.1)

/-- and the listing is the same, row by row. -/
theorem listing_renumber (hnumber : StrictMono number) (program : Program) :
    (program.renumber number).listing = program.listing := by
  have hrows : Listing.rows (program.renumber number) =
      (Listing.rows program).map (Listing.Row.renumber number) := by
    unfold Listing.rows
    rw [List.map_mergeSort (s := Listing.Row.le)]
    · rw [List.map_append, List.map_map, List.map_map]
      show (List.map _ (List.map _ _) ++ List.map _ (List.map _ _)).mergeSort _ = _
      rw [List.map_map, List.map_map]
      rfl
    · intro a _ b _
      simp [Listing.Row.le, Listing.Row.renumber, hnumber.lt_iff_lt, hnumber.injective.eq_iff]
  unfold listing
  rw [hrows, List.flatMap_map]
  rfl

/-- **What renumbering leaves as it is**: the code, the listing, and what is
    looked up, on the renumbered lines. -/
structure Renumbered (number : Nat → Nat) (program whole : Program) : Prop where
  /-- The code is the same, -/
  bytes_eq : whole.bytes = program.bytes
  /-- and so is the listing. -/
  listing_eq : whole.listing = program.listing
  /-- An address comes from the renumbered line. -/
  location?_eq : ∀ address,
    whole.location? address = (program.location? address).map (Location.renumber number)
  /-- A renumbered line has the same addresses, -/
  range?_eq : ∀ line, whole.range? (number line) = program.range? line
  /-- and a line with another number has none. -/
  range?_eq_none : ∀ n, (∀ line, number line ≠ n) → whole.range? n = none

theorem renumbered_renumber (hnumber : StrictMono number) (program : Program) :
    Renumbered number program (program.renumber number) where
  bytes_eq := rfl
  listing_eq := listing_renumber hnumber program
  location?_eq := location?_renumber number program
  range?_eq := range?_renumber hnumber program
  range?_eq_none := fun _ hn => range?_renumber_eq_none number program hn

end Program

namespace Program.IsImage

variable {table : InstructionSet} {origin : UInt16} {statements : List Statement}
  {program other : Program}

/-- Statements have one image. -/
theorem unique (h : program.IsImage table origin statements)
    (h' : other.IsImage table origin statements) : program = other := by
  have horigin : program.origin = other.origin := by rw [h.origin_eq, h'.origin_eq]
  have hinstructions : program.instructions = other.instructions := by
    rw [h.instructions_eq, h'.instructions_eq]
  have hbytes : program.bytes = other.bytes := by rw [h.bytes_eq, h'.bytes_eq, hinstructions]
  have hsymbols : program.symbols = other.symbols :=
    SymbolTable.eq_of_symbols_eq (h.symbols_eq.trans h'.symbols_eq.symm)
  have hlineTable : program.lineTable = other.lineTable := by
    rw [h.lineTable_eq, h'.lineTable_eq, hinstructions]
  cases program
  cases other
  exact (Program.mk.injEq ..).mpr ⟨horigin, hbytes, hinstructions, hsymbols, hlineTable⟩

/-- **The image of renumbered statements** is the renumbered program. -/
theorem isImage_renumber (hnumber : StrictMono number)
    (h : program.IsImage table origin statements) :
    (program.renumber number).IsImage table origin
      (statements.map (Statement.renumber number)) := by
  refine ⟨h.origin_eq, ?_, ?_, ?_, ?_⟩
  · rw [Statement.instructionsFrom_renumber, ← h.instructions_eq]
    rfl
  · rw [Statement.symbolsFrom_renumber, ← h.symbols_eq]
    rfl
  · show program.bytes = (program.instructions.map (Encoded.renumber number)).flatMap Encoded.bytes
    rw [h.bytes_eq, List.flatMap_map]
    rfl
  · show program.lineTable.renumber number = _
    rw [h.lineTable_eq, ← LineTable.ofInstructions_renumber hnumber]
    rfl

end Program.IsImage

end Mos6502
