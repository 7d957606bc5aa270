import Mos6502.Proofs.Diagnostics
import Mos6502.Proofs.Image

/-! # Which Sources Assemble

    A source assembles exactly when all of its lines can be read and their
    statements are admissible. One half is `exists_program_of_admissible`; the
    other one is read off the scan, which finds nothing only in an admissible
    source (`diagnostics_eq_nil_iff`). So a source that assembles has the image
    of its statements as its program, and its code is the code of the
    statements one after the other.
-/

namespace Mos6502

namespace Scan

open Statement

variable {table : InstructionSet} {scan : Scan}

/-! ### What a statement leaves behind -/

theorem address_afterLabel (scan : Scan) (s : Statement) :
    (scan.afterLabel s).1.address = scan.address := by
  unfold afterLabel
  cases s.label <;> simp

/-- An instruction moves the running address by its room and adds no label. -/
theorem afterInstruction_fst (table : InstructionSet) (scan : Scan) (s : Statement) :
    (scan.afterInstruction table s).1.address = scan.address + s.room table ∧
      (scan.afterInstruction table s).1.labels = scan.labels := by
  unfold afterInstruction
  cases hs : s.instruction with
  | none => simp [room, hs]
  | some instruction =>
    simp only [atInstruction, room, hs]
    cases table.lookup instruction.mnemonic instruction.operand.mode with
    | error fault => simp
    | ok opcode => grind

theorem address_atStatement (table : InstructionSet) (scan : Scan) (s : Statement) :
    (scan.atStatement table s).1.address = scan.address + s.room table := by
  rw [atStatement, (afterInstruction_fst table _ s).1, address_afterLabel]

theorem labels_atStatement (table : InstructionSet) (scan : Scan) (s : Statement) :
    (scan.atStatement table s).1.labels.map Prod.fst =
      scan.labels.map Prod.fst ++ s.label.toList := by
  rw [atStatement, (afterInstruction_fst table _ s).2, afterLabel]
  cases s.label <;> simp

/-! ### Nothing found -/

/-- A label is accepted if it is new and has an address. -/
theorem afterLabel_snd_eq_nil_iff (hflag : scan.overflowed = false) {s : Statement} :
    (scan.afterLabel s).2 = [] ↔
      ∀ name, s.label = some name →
        scan.address ≤ 0xFFFF ∧ name ∉ scan.labels.map Prod.fst := by
  unfold afterLabel
  cases s.label with
  | none => simp
  | some name =>
    have hnew := @firstLine?_eq_none_iff scan name
    simp only [Option.some.injEq, forall_eq', ← hnew, atLabel]
    by_cases hin : scan.address ≤ 0xFFFF
    · cases scan.firstLine? name <;> simp [hin]
    · simp [hin, hflag]

/-- An instruction is accepted if it has a fitting opcode and ends within the
    address space. -/
theorem afterInstruction_snd_eq_nil_iff (hflag : scan.overflowed = false) {s : Statement} :
    (scan.afterInstruction table s).2 = [] ↔
      ∀ instruction, s.instruction = some instruction →
        ∃ opcode, table.lookup instruction.mnemonic instruction.operand.mode = .ok opcode ∧
          instruction.operand.mode.payloadWidth ≤ opcode.fieldWidth ∧ opcode.fieldWidth ≤ 2 ∧
          scan.address + opcode.size ≤ 0x10000 := by
  unfold afterInstruction
  cases s.instruction with
  | none => simp
  | some instruction =>
    simp only [Option.some.injEq, forall_eq', atInstruction, maxFieldWidth]
    cases table.lookup instruction.mnemonic instruction.operand.mode with
    | error fault => simp
    | ok opcode =>
      -- the three ways to fail, in the order in which they are looked for
      by_cases hwide : 2 < opcode.fieldWidth
      · simp only [hwide, if_true, List.cons_ne_nil, Except.ok.injEq, false_iff]
        rintro ⟨other, rfl, -, hle, -⟩
        omega
      · by_cases hfits : scan.address + opcode.size ≤ 0x10000
        · by_cases hnarrow : opcode.fieldWidth < instruction.operand.mode.payloadWidth
          · simp [hwide, hfits, hnarrow]
          · simp [hwide, hfits, hnarrow, Nat.le_of_not_lt hnarrow, Nat.le_of_not_lt hwide]
        · simp [hwide, hfits, hflag]

/-- If nothing is found, running past the end has not been reported. -/
theorem overflowed_of_snd_eq_nil (hflag : scan.overflowed = false) {s : Statement}
    (h : (scan.atStatement table s).2 = []) :
    (scan.atStatement table s).1.overflowed = false := by
  have hbudget := countP_isPastEnd_atStatement table scan s
  rw [h] at hbudget
  simpa [budget, hflag] using hbudget

/-- Nothing is found in a statement that is admissible at its address and has a
    new label, and in no other one. -/
theorem atStatement_snd_eq_nil_iff (hflag : scan.overflowed = false) {s : Statement} :
    (scan.atStatement table s).2 = [] ↔
      AdmissibleAt table scan.address s ∧
        ∀ name, s.label = some name → name ∉ scan.labels.map Prod.fst := by
  rw [atStatement, List.append_eq_nil_iff, afterLabel_snd_eq_nil_iff hflag]
  -- behind an accepted label, running past the end is still unreported
  have hnext : (∀ name, s.label = some name →
      scan.address ≤ 0xFFFF ∧ name ∉ scan.labels.map Prod.fst) →
      (scan.afterLabel s).1.overflowed = false := by
    intro h
    unfold afterLabel
    cases hs : s.label with
    | none => exact hflag
    | some name => simpa [hflag] using (h name hs).1
  constructor
  · rintro ⟨hlabel, hinstruction⟩
    rw [afterInstruction_snd_eq_nil_iff (hnext hlabel), address_afterLabel] at hinstruction
    refine ⟨⟨?_, hinstruction⟩, ?_⟩
    · intro hs
      obtain ⟨name, hs⟩ := Option.ne_none_iff_exists'.mp hs
      exact (hlabel name hs).1
    · intro name hs
      exact (hlabel name hs).2
  · rintro ⟨hs, hfresh⟩
    have hlabel : ∀ name, s.label = some name →
        scan.address ≤ 0xFFFF ∧ name ∉ scan.labels.map Prod.fst := by
      intro name hname
      exact ⟨hs.label_within (by simp [hname]), hfresh name hname⟩
    refine ⟨hlabel, ?_⟩
    rw [afterInstruction_snd_eq_nil_iff (hnext hlabel), address_afterLabel]
    exact hs.instruction_within

/-- **Nothing is found exactly in admissible sources**: every line can be read
    and the statements are admissible with labels that are all new. -/
theorem diagnostics_eq_nil_iff (hflag : scan.overflowed = false) {first : Nat}
    {lines : List String} :
    diagnostics table scan (Reading.ofLinesFrom first lines) = [] ↔
      ∃ statements, ReadAs first lines statements ∧ Admissible table scan.address statements ∧
        ∀ name ∈ statements.filterMap Statement.label, name ∉ scan.labels.map Prod.fst := by
  induction lines generalizing scan first with
  | nil => simp [diagnostics, admissible_nil]
  | cons text lines ih =>
    rw [Reading.ofLinesFrom_cons, diagnostics, List.append_eq_nil_iff]
    rcases Reading.ofLine_cases first text with ⟨s, hread, h⟩ | ⟨d, hread, h⟩
    · have hstep : scan.atReading table (.ofLine first text) = scan.atStatement table s := by
        rw [h]
        rfl
      rw [hstep]
      constructor
      · -- the labels that the scan remembers are those of the statements before
        rintro ⟨hnil, hrest⟩
        obtain ⟨hs, hfresh⟩ := (atStatement_snd_eq_nil_iff hflag).mp hnil
        obtain ⟨rest, hreads, hadmissible, hnew⟩ :=
          (ih (overflowed_of_snd_eq_nil hflag hnil)).mp hrest
        rw [address_atStatement] at hadmissible
        simp only [labels_atStatement, List.mem_append, not_or] at hnew
        refine ⟨s :: rest, readAs_cons_iff.mpr ⟨s, rest, rfl, hread, hreads⟩,
          admissible_cons_iff.mpr ⟨hs, ?_, hadmissible⟩, ?_⟩
        · intro name hname hmem
          exact (hnew name hmem).2 (by simp [hname])
        · intro name hmem
          rcases mem_labels_cons.mp hmem with hname | hmem
          · exact hfresh name hname
          · exact (hnew name hmem).1
      · rintro ⟨statements, hreads, hadmissible, hnew⟩
        obtain ⟨t, rest, rfl, ht, hrest⟩ := readAs_cons_iff.mp hreads
        obtain rfl : s = t := Except.ok.inj (hread.symm.trans ht)
        obtain ⟨hs, hdistinct, hadmissible⟩ := admissible_cons_iff.mp hadmissible
        have hnil := (atStatement_snd_eq_nil_iff hflag).mpr
          ⟨hs, fun name hname => hnew name (mem_labels_cons.mpr (.inl hname))⟩
        refine ⟨hnil, (ih (overflowed_of_snd_eq_nil hflag hnil)).mpr ⟨rest, hrest, ?_, ?_⟩⟩
        · rwa [address_atStatement]
        · intro name hmem
          rw [labels_atStatement, List.mem_append, not_or]
          refine ⟨hnew name (mem_labels_cons.mpr (.inr hmem)), ?_⟩
          intro hown
          exact hdistinct name (Option.mem_toList.mp hown) hmem
    · -- a line that cannot be read is reported, and it has no statement
      constructor
      · rintro ⟨hnil, -⟩
        rw [h, atReading] at hnil
        cases hrecover : Statement.recover first text <;> simp [hrecover] at hnil
      · rintro ⟨statements, hreads, -⟩
        obtain ⟨s, rest, -, hs, -⟩ := readAs_cons_iff.mp hreads
        rw [hread] at hs
        simp at hs

theorem ofLines_eq_nil_iff (table : InstructionSet) (origin : UInt16) (lines : List String) :
    ofLines table origin lines = [] ↔
      ∃ statements, ReadAs 1 lines statements ∧
        Admissible table origin.toNat statements := by
  rw [ofLines, Reading.ofLines_eq, diagnostics_eq_nil_iff rfl]
  simp [start]

end Scan

/-! ### Sources that assemble -/

/-- **A source that assembles is admissible**, and its program is the image of
    its statements. -/
theorem exists_image_of_assembleLines_eq_ok {table : InstructionSet} {options : Options}
    {lines : List String} {program : Program}
    (h : assembleLines table options lines = .ok program) :
    ∃ statements, Statement.ReadAs 1 lines statements ∧
      Statement.Admissible table options.origin.toNat statements ∧
      program.IsImage table options.origin statements := by
  -- there is a program only if no stage has found anything
  have hfound : Assembly.found (Reading.ofLines lines) (Layout.ofStatements table options.origin
      (Reading.statements (Reading.ofLines lines))) = [] := by
    simp only [assembleLines, Assembly.run] at h
    split at h
    · rename_i hempty
      exact List.isEmpty_iff.mp hempty
    · simp at h
  rw [Assembly.found_eq_nil_iff, Scan.ofLines_eq_nil_iff] at hfound
  obtain ⟨statements, hread, hadmissible⟩ := hfound
  obtain ⟨other, hother, himage⟩ := exists_program_of_admissible options hread hadmissible
  -- so it is the program that admissible statements are assembled to
  obtain rfl : program = other := Except.ok.inj (h.symm.trans hother)
  exact ⟨statements, hread, hadmissible, himage⟩

namespace Statement

/-- The machine code of a statement: its opcode byte, its payload, and zero
    bytes up to the width of the operand field. -/
def code (table : InstructionSet) (s : Statement) : List UInt8 :=
  match s.instruction with
  | none => []
  | some instruction =>
    match table.lookup instruction.mnemonic instruction.operand.mode with
    | .error _ => []
    | .ok opcode =>
      opcode.byte :: (instruction.operand.payload ++
        List.replicate (opcode.fieldWidth - instruction.operand.mode.payloadWidth) 0)

/-- The code of the instructions is that of their statements. -/
theorem flatMap_bytes_instructionsFrom (table : InstructionSet) (address : Nat)
    (statements : List Statement) :
    (instructionsFrom table address statements).flatMap Encoded.bytes =
      statements.flatMap (code table) := by
  induction statements generalizing address with
  | nil => rfl
  | cons s rest ih =>
    have hs : (encodedAt table address s).toList.flatMap Encoded.bytes = s.code table := by
      cases hs : s.instruction with
      | none => simp [encodedAt, code, hs]
      | some instruction =>
        cases hlookup : table.lookup instruction.mnemonic instruction.operand.mode <;>
          simp [encodedAt, code, hs, hlookup, Encoded.bytes]
    rw [instructionsFrom_cons, List.flatMap_append, hs, ih, List.flatMap_cons]

end Statement

/-- A source in which the scan finds nothing assembles to the code of its
    statements. Both can be computed without assembling it. -/
theorem exists_program_of_ofLines_eq_nil {table : InstructionSet} (options : Options)
    {lines : List String} (h : Scan.ofLines table options.origin lines = []) :
    ∃ program, assembleLines table options lines = .ok program ∧
      program.bytes =
        (Reading.statements (Reading.ofLines lines)).flatMap (Statement.code table) := by
  obtain ⟨statements, hread, hadmissible⟩ := (Scan.ofLines_eq_nil_iff table _ lines).mp h
  obtain ⟨program, hprogram, himage⟩ := exists_program_of_admissible options hread hadmissible
  refine ⟨program, hprogram, ?_⟩
  rw [himage.bytes_eq, himage.instructions_eq, Statement.flatMap_bytes_instructionsFrom,
    Reading.ofLines_eq, hread.readings.1]

/-- **Success of an assembly.** A source assembles exactly when all of its lines
    can be read and their statements are admissible; its code is then that of
    the statements, one after the other, with operands low byte first and in
    two's complement. Any other source is refused, whatever limit is set on the
    diagnostics. -/
theorem assembleLines_eq_ok_iff_admissible (table : InstructionSet) (options : Options)
    (lines : List String) :
    ((∃ program, assembleLines table options lines = .ok program) ↔
      ∃ statements, Statement.ReadAs 1 lines statements ∧
        Statement.Admissible table options.origin.toNat statements) ∧
    (∀ program statements, assembleLines table options lines = .ok program →
      Statement.ReadAs 1 lines statements →
      program.bytes = statements.flatMap (Statement.code table)) ∧
    (∀ operand : Operand, operand.payload.map (fun byte => (byte.toNat : Int)) =
      (List.range operand.mode.payloadWidth).map fun i : Nat =>
        operand.value >>> (8 * i) % 256) ∧
    ((∃ diagnostics, assembleLines table options lines = .error diagnostics) ↔
      ¬ ∃ statements, Statement.ReadAs 1 lines statements ∧
        Statement.Admissible table options.origin.toNat statements) := by
  have hok : (∃ program, assembleLines table options lines = .ok program) ↔
      ∃ statements, Statement.ReadAs 1 lines statements ∧
        Statement.Admissible table options.origin.toNat statements := by
    constructor
    · rintro ⟨program, h⟩
      obtain ⟨statements, hread, hadmissible, -⟩ := exists_image_of_assembleLines_eq_ok h
      exact ⟨statements, hread, hadmissible⟩
    · rintro ⟨statements, hread, hadmissible⟩
      obtain ⟨program, h, -⟩ := exists_program_of_admissible options hread hadmissible
      exact ⟨program, h⟩
  refine ⟨hok, ?_, Operand.toNat_payload, ?_⟩
  · intro program statements h hread
    obtain ⟨others, hothers, -, himage⟩ := exists_image_of_assembleLines_eq_ok h
    rw [hread.unique hothers, himage.bytes_eq, himage.instructions_eq,
      Statement.flatMap_bytes_instructionsFrom]
  · -- an assembly has a program or diagnostics, never both
    rw [← hok]
    cases assembleLines table options lines <;> simp

end Mos6502
