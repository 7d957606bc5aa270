import Mos6502.Proofs.Diagnostics

/-! # What Is Found on a Line

    A diagnostic comes from one line. Either it says why the line cannot be
    read, or it is about the label or the instruction of the statement on the
    line (`Statement.Finding`), and then it carries the number of the line, and
    column zero for a label and the column of its mnemonic for an instruction.
-/

namespace Mos6502

/-- Does the diagnostic say why a line cannot be read? -/
def Diagnostic.isReading (d : Diagnostic) : Bool :=
  match d.fault with
  | .fields _ | .operand _ => true
  | .lookup _ | .width _ | .placement _ => false

/-- What can be found in a statement when it is laid out and encoded. -/
inductive Statement.Finding (table : InstructionSet) (s : Statement) : Diagnostic → Prop
  | duplicateLabel {name : String} (hlabel : s.label = some name) (first : Nat) :
      s.Finding table ⟨s.line, 0, .placement (.duplicateLabel name first)⟩
  | labelPastEnd {name : String} (hlabel : s.label = some name) :
      s.Finding table ⟨s.line, 0, .placement (.labelPastEnd name)⟩
  | lookup {instruction : Instruction} (hinstruction : s.instruction = some instruction)
      {fault : LookupFault}
      (hlookup : table.lookup instruction.mnemonic instruction.operand.mode = .error fault) :
      s.Finding table ⟨s.line, instruction.column, .lookup fault⟩
  | width {instruction : Instruction} (hinstruction : s.instruction = some instruction)
      (fault : WidthFault) : s.Finding table ⟨s.line, instruction.column, .width fault⟩
  | instructionPastEnd {instruction : Instruction}
      (hinstruction : s.instruction = some instruction) (address : Nat) :
      s.Finding table ⟨s.line, instruction.column,
        .placement (.instructionPastEnd instruction.mnemonic address)⟩

theorem Statement.Finding.line_eq {table : InstructionSet} {s : Statement} {d : Diagnostic}
    (h : s.Finding table d) : d.line = s.line := by
  cases h <;> rfl

theorem Statement.Finding.isReading_eq_false {table : InstructionSet} {s : Statement}
    {d : Diagnostic} (h : s.Finding table d) : d.isReading = false := by
  cases h <;> rfl

theorem Statement.isReading_of_read {n : Nat} {text : String} {d : Diagnostic}
    (h : read n text = .error d) : d.isReading = true := by
  unfold Diagnostic.isReading
  rcases (line_of_read_eq_error h).2 with ⟨fault, hfault⟩ | ⟨fault, hfault⟩ <;> rw [hfault]

namespace Scan

variable {table : InstructionSet} {scan : Scan} {s : Statement} {d : Diagnostic}

theorem finding_of_mem_afterLabel (hd : d ∈ (scan.afterLabel s).2) : s.Finding table d := by
  unfold afterLabel at hd
  cases hlabel : s.label with
  | none => simp [hlabel] at hd
  | some name =>
    simp only [hlabel, atLabel] at hd
    by_cases hin : scan.address ≤ 0xFFFF
    · cases hfirst : scan.firstLine? name with
      | none => simp [hin, hfirst] at hd
      | some first =>
        simp only [hin, hfirst, if_true, List.mem_singleton] at hd
        rw [hd]
        exact .duplicateLabel hlabel first
    · cases hflag : scan.overflowed with
      | true => simp [hin, hflag] at hd
      | false =>
        simp only [hin, hflag, if_false, Bool.false_eq_true, List.mem_singleton] at hd
        rw [hd]
        exact .labelPastEnd hlabel

theorem finding_of_mem_afterInstruction (hd : d ∈ (scan.afterInstruction table s).2) :
    s.Finding table d := by
  unfold afterInstruction at hd
  cases hinstruction : s.instruction with
  | none => simp [hinstruction] at hd
  | some instruction =>
    simp only [hinstruction, atInstruction] at hd
    cases hlookup : table.lookup instruction.mnemonic instruction.operand.mode with
    | error fault =>
      simp only [hlookup, List.mem_singleton] at hd
      rw [hd]
      exact .lookup hinstruction hlookup
    | ok opcode =>
      simp only [hlookup] at hd
      -- the field is too wide or too narrow, or the instruction does not fit
      split at hd
      · rw [List.mem_singleton.mp hd]
        exact .width hinstruction _
      · split at hd
        · split at hd
          · rw [List.mem_singleton.mp hd]
            exact .width hinstruction _
          · simp at hd
        · split at hd
          · simp at hd
          · rw [List.mem_singleton.mp hd]
            exact .instructionPastEnd hinstruction _

/-- A line has its reason why it cannot be read, and the findings of its
    statement. -/
theorem mem_atReading {reading : Reading} (hd : d ∈ (scan.atReading table reading).2) :
    reading.diagnostic = some d ∨ ∃ s, reading.statement = some s ∧ s.Finding table d := by
  unfold atReading at hd
  cases hs : reading.statement with
  | none =>
    simp only [hs] at hd
    exact .inl (Option.mem_toList.mp hd)
  | some s =>
    simp only [hs] at hd
    rcases List.mem_append.mp hd with hd | hd
    · exact .inl (Option.mem_toList.mp hd)
    · rcases List.mem_append.mp hd with hd | hd
      · exact .inr ⟨s, rfl, finding_of_mem_afterLabel hd⟩
      · exact .inr ⟨s, rfl, finding_of_mem_afterInstruction hd⟩

/-- Whatever is found in a source is found on one of its lines. -/
theorem exists_reading_of_mem_diagnostics {readings : List Reading}
    (hd : d ∈ diagnostics table scan readings) :
    ∃ reading ∈ readings, reading.diagnostic = some d ∨
      ∃ s, reading.statement = some s ∧ s.Finding table d := by
  induction readings generalizing scan with
  | nil => simp [diagnostics] at hd
  | cons reading readings ih =>
    rcases List.mem_append.mp hd with hd | hd
    · exact ⟨reading, List.mem_cons_self, mem_atReading hd⟩
    · obtain ⟨other, hmem, hfound⟩ := ih hd
      exact ⟨other, List.mem_cons_of_mem reading hmem, hfound⟩

/-- What is found in a source carries the number of one of its lines, and it is
    the reason why the line cannot be read or a finding in its statement. -/
theorem exists_line_of_mem_ofLines {origin : UInt16} {lines : List String}
    (hd : d ∈ ofLines table origin lines) :
    1 ≤ d.line ∧ ∃ text, lines[d.line - 1]? = some text ∧
      (Statement.read d.line text = .error d ∨
        ∃ s, (Reading.ofLine d.line text).statement = some s ∧ s.Finding table d) := by
  obtain ⟨reading, hmem, hfound⟩ := exists_reading_of_mem_diagnostics hd
  obtain ⟨⟨text, n⟩, hentry, rfl⟩ := List.mem_map.mp hmem
  obtain ⟨hle, htext⟩ := List.mk_mem_zipIdx_iff_le_and_getElem?_sub.mp hentry
  rcases hfound with hreport | ⟨s, hs, hfinding⟩
  · obtain rfl := Reading.line_of_diagnostic hreport
    exact ⟨hle, text, htext, .inl (Reading.read_of_diagnostic hreport)⟩
  · obtain rfl : d.line = n := hfinding.line_eq.trans (Reading.line_of_statement hs)
    exact ⟨hle, text, htext, .inr ⟨s, hs, hfinding⟩⟩

end Scan

end Mos6502
