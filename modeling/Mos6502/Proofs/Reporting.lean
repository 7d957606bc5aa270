import Mos6502.Opcode.Nmos
import Mos6502.Proofs.Acceptance

/-! # Which Defects Come to Light

    Two defects of a line are there whatever the other lines look like: its
    label has been used before, or its operand does not fit into the field of
    its opcode. No assembly of such a line succeeds, but whether the defect is
    among the diagnostics depends on the room that the earlier lines take up:

      * a duplicate is looked for among labels that have an address, and
      * a narrow field is found when the instruction is encoded, which happens
        only to instructions that have been placed.

    So both defects come to light exactly within the address space. A line
    beyond it is silent about them, and all that is then reported is that the
    end has been passed, once, on this line or an earlier one.

    The proofs stop the scan in front of the line (`Scan.before`), look at the
    one step that takes it in, and let the budget for running past the end
    speak for the lines so far (`exists_isPastEnd_of_overflowed`).
-/

namespace Mos6502

/-- The running address behind some lines: above the origin, the sum of their
    rooms. -/
def addressBehind (table : InstructionSet) (origin : UInt16) (lines : List String) : Nat :=
  origin.toNat + ((Reading.statements (Reading.ofLines lines)).map (Statement.room table)).sum

namespace Scan

variable {table : InstructionSet} {scan : Scan} {origin : UInt16}

/-! ### The scan in front of a line -/

theorem address_atReading (table : InstructionSet) (scan : Scan) (reading : Reading) :
    (scan.atReading table reading).1.address =
      scan.address + (reading.statement.toList.map (Statement.room table)).sum := by
  unfold atReading
  cases reading.statement with
  | none => simp
  | some s => simp [address_atStatement]

theorem address_after (table : InstructionSet) (scan : Scan) (readings : List Reading) :
    (scan.after table readings).address =
      scan.address + ((Reading.statements readings).map (Statement.room table)).sum := by
  induction readings generalizing scan with
  | nil => simp [after]
  | cons reading readings ih =>
    rw [after, ih, address_atReading, Reading.statements_cons, List.map_append, List.sum_append,
      Nat.add_assoc]

theorem mem_labels_after {readings : List Reading} {name : String}
    (h : name ∈ scan.labels.map Prod.fst) :
    name ∈ (scan.after table readings).labels.map Prod.fst := by
  induction readings generalizing scan with
  | nil => exact h
  | cons reading readings ih =>
    apply ih
    unfold atReading
    cases reading.statement with
    | none => exact h
    | some s =>
      show name ∈ (scan.atStatement table s).1.labels.map Prod.fst
      rw [labels_atStatement]
      exact List.mem_append_left _ h

/-- Every line that starts with a label makes the scan remember it. -/
theorem mem_labels_after_ofLinesFrom {first : Nat} {lines : List String} {text name : String}
    (hmem : text ∈ lines) (hlabel : Fields.leadingLabel text = some name) :
    name ∈ (scan.after table (Reading.ofLinesFrom first lines)).labels.map Prod.fst := by
  induction lines generalizing scan first with
  | nil => simp at hmem
  | cons other lines ih =>
    rw [Reading.ofLinesFrom_cons, after]
    rcases List.mem_cons.mp hmem with heq | hmem
    · -- the line itself, whose label the later lines leave in place
      apply mem_labels_after
      rw [← heq]
      obtain ⟨s, hs, -, hname⟩ := @Reading.exists_statement_of_leadingLabel first _ _ hlabel
      simp only [atReading, hs, labels_atStatement, hname]
      simp
    · exact ih hmem

/-- The scan in front of a line, which is given by its index. -/
def before (table : InstructionSet) (origin : UInt16) (lines : List String) (i : Nat) : Scan :=
  (start origin).after table (Reading.ofLines (lines.take i))

/-- What taking in the line leaves to the next one, and what it finds. -/
def atLine (table : InstructionSet) (origin : UInt16) (lines : List String) (i : Nat)
    (text : String) : Scan × List Diagnostic :=
  (before table origin lines i).atReading table (.ofLine (i + 1) text)

theorem address_before (table : InstructionSet) (origin : UInt16) (lines : List String) (i : Nat) :
    (before table origin lines i).address = addressBehind table origin (lines.take i) := by
  rw [before, address_after]
  rfl

/-- An earlier line that starts with a label has left it in the scan. -/
theorem firstLine?_before_ne_none {lines : List String} {i j : Nat} {earlier name : String}
    (hj : j < i) (hearlier : lines[j]? = some earlier)
    (hlabel : Fields.leadingLabel earlier = some name) :
    (before table origin lines i).firstLine? name ≠ none := by
  intro hnone
  have hget : (lines.take i)[j]? = some earlier := by
    rw [List.getElem?_take_of_lt hj, hearlier]
  have hmem : earlier ∈ lines.take i := List.mem_of_getElem? hget
  exact firstLine?_eq_none_iff.mp hnone (mem_labels_after_ofLinesFrom hmem hlabel)

variable {lines : List String} {i : Nat} {text : String}

/-- A scan comes to the line, takes it in, and goes on behind it. -/
theorem ofLines_eq_append (table : InstructionSet) (origin : UInt16)
    (hline : lines[i]? = some text) :
    ofLines table origin lines =
      ofLines table origin (lines.take i) ++ ((atLine table origin lines i text).2 ++
        diagnostics table (atLine table origin lines i text).1
          (Reading.ofLinesFrom (i + 2) (lines.drop (i + 1)))) := by
  obtain ⟨hlt, hget⟩ := List.getElem?_eq_some_iff.mp hline
  have hlength : (lines.take i).length = i := List.length_take_of_le (Nat.le_of_lt hlt)
  have hsplit : lines = lines.take i ++ text :: lines.drop (i + 1) := by
    rw [← hget, List.getElem_cons_drop, List.take_append_drop]
  have hreadings : Reading.ofLines lines =
      Reading.ofLines (lines.take i) ++
        .ofLine (i + 1) text :: Reading.ofLinesFrom (i + 2) (lines.drop (i + 1)) := by
    calc Reading.ofLines lines
        = Reading.ofLinesFrom 1 (lines.take i ++ text :: lines.drop (i + 1)) :=
          congrArg (Reading.ofLinesFrom 1) hsplit
      _ = Reading.ofLinesFrom 1 (lines.take i) ++
            Reading.ofLinesFrom (1 + i) (text :: lines.drop (i + 1)) := by
          rw [Reading.ofLinesFrom_append, hlength]
      _ = _ := by rw [Nat.add_comm 1 i]; rfl
  rw [ofLines, hreadings, diagnostics_append, diagnostics]
  rfl

/-- What is found on the line is found when the scan takes it in. -/
theorem exists_mem_ofLines_iff (hline : lines[i]? = some text) (defect : Diagnostic → Prop) :
    (∃ d ∈ ofLines table origin lines, d.line = i + 1 ∧ defect d) ↔
      ∃ d ∈ (atLine table origin lines i text).2, defect d := by
  rw [ofLines_eq_append table origin hline]
  constructor
  · intro h
    obtain ⟨d, hd, hnumber, hdefect⟩ := h
    rcases List.mem_append.mp hd with hfront | hd
    · -- earlier lines have smaller numbers
      have hlt := line_lt_of_mem_diagnostics hfront
      have hle := List.length_take_le i lines
      omega
    · rcases List.mem_append.mp hd with hstep | hrest
      · exact ⟨d, hstep, hdefect⟩
      · -- and later ones larger
        have hle := le_line_of_mem_diagnostics hrest
        omega
  · intro h
    obtain ⟨d, hd, hdefect⟩ := h
    have hnumber := (atReading_ofLine table _ (i + 1) text).2 d hd
    exact ⟨d, List.mem_append_right _ (List.mem_append_left _ hd), hnumber, hdefect⟩

/-- **Silence beyond the end is explained**: if running past the end has been
    reported once the line is taken in, the diagnostic stands on it or on an
    earlier line. -/
theorem exists_isPastEnd_of_overflowed (hline : lines[i]? = some text)
    (hflag : (atLine table origin lines i text).1.overflowed = true) :
    ∃ d ∈ ofLines table origin lines, d.line ≤ i + 1 ∧ d.isPastEnd = true := by
  -- the budget of one has been spent by the lines so far
  have hfront := countP_isPastEnd_diagnostics table (start origin) 1 (lines.take i)
  have hstep : (atLine table origin lines i text).2.countP Diagnostic.isPastEnd +
      (atLine table origin lines i text).1.budget = (before table origin lines i).budget :=
    countP_isPastEnd_atReading table (before table origin lines i) (i + 1) text
  have hspent : (atLine table origin lines i text).1.budget = 0 := by simp [budget, hflag]
  have hcount : 0 < (ofLines table origin (lines.take i) ++
      (atLine table origin lines i text).2).countP Diagnostic.isPastEnd := by
    have hone : (start origin).budget = 1 := rfl
    have hbefore : ((start origin).after table
      (Reading.ofLinesFrom 1 (lines.take i))).budget = (before table origin lines i).budget := rfl
    rw [List.countP_append]
    show 0 < (diagnostics table (start origin)
      (Reading.ofLinesFrom 1 (lines.take i))).countP Diagnostic.isPastEnd + _
    omega
  obtain ⟨d, hd, hpast⟩ := List.countP_pos_iff.mp hcount
  refine ⟨d, ?_, ?_, hpast⟩
  · rw [ofLines_eq_append table origin hline, ← List.append_assoc]
    exact List.mem_append_left _ hd
  · rcases List.mem_append.mp hd with hd | hd
    · have hlt := line_lt_of_mem_diagnostics hd
      have hle := List.length_take_le i lines
      omega
    · exact Nat.le_of_eq ((atReading_ofLine table _ (i + 1) text).2 d hd)

/-! ### Duplicates -/

theorem overflowed_afterInstruction (h : scan.overflowed = true) (s : Statement) :
    (scan.afterInstruction table s).1.overflowed = true := by
  have hbudget := countP_isPastEnd_afterInstruction table scan s
  cases hflag : (scan.afterInstruction table s).1.overflowed with
  | true => rfl
  | false => simp [budget, h, hflag] at hbudget

theorem kind_ne_of_mem_afterInstruction {s : Statement} {d : Diagnostic}
    (hd : d ∈ (scan.afterInstruction table s).2) : d.kind ≠ .duplicateLabel := by
  unfold afterInstruction at hd
  cases hs : s.instruction with
  | none => simp [hs] at hd
  | some instruction =>
    simp only [hs, atInstruction] at hd
    cases hlookup : table.lookup instruction.mnemonic instruction.operand.mode with
    | error fault =>
      simp only [hlookup, List.mem_singleton] at hd
      rw [hd]
      cases fault <;> simp [Diagnostic.kind, Fault.kind, LookupFault.kind]
    | ok opcode =>
      simp only [hlookup] at hd
      grind [Diagnostic.kind, Fault.kind, WidthFault.kind, PlacementFault.kind]

theorem kind_ne_of_diagnostic {n : Nat} {d : Diagnostic}
    (hd : (Reading.ofLine n text).diagnostic = some d) : d.kind ≠ .duplicateLabel := by
  have hread := Reading.read_of_diagnostic hd
  rcases (Statement.line_of_read_eq_error hread).2 with ⟨fault, hfault⟩ | ⟨fault, hfault⟩
  · simp [Diagnostic.kind, hfault, Fault.kind, FieldFault.kind]
  · cases fault <;> simp [Diagnostic.kind, hfault, Fault.kind, OperandFault.kind]

/-- A label that has been used before is a duplicate within the address space
    and not beyond it. -/
theorem exists_duplicate_atLabel_iff {name : String} (hfirst : scan.firstLine? name ≠ none)
    (line : Nat) :
    (∃ d ∈ (scan.atLabel line name).2, d.kind = .duplicateLabel) ↔ scan.address ≤ 0xFFFF := by
  obtain ⟨first, hfirst⟩ := Option.ne_none_iff_exists'.mp hfirst
  unfold atLabel
  by_cases hin : scan.address ≤ 0xFFFF
  · simp [hin, hfirst, Diagnostic.kind, Fault.kind, PlacementFault.kind]
  · cases scan.overflowed <;> simp [hin, Diagnostic.kind, Fault.kind, PlacementFault.kind]

theorem exists_duplicate_atReading_iff {n : Nat} {name : String}
    (hlabel : Fields.leadingLabel text = some name) (hfirst : scan.firstLine? name ≠ none) :
    (∃ d ∈ (scan.atReading table (.ofLine n text)).2, d.kind = .duplicateLabel) ↔
      scan.address ≤ 0xFFFF := by
  obtain ⟨s, hs, -, hname⟩ := @Reading.exists_statement_of_leadingLabel n text name hlabel
  rw [← exists_duplicate_atLabel_iff hfirst s.line]
  simp only [atReading, hs, atStatement, afterLabel, hname]
  constructor
  · intro h
    obtain ⟨d, hd, hkind⟩ := h
    rcases List.mem_append.mp hd with hd | hd
    · exact absurd hkind (kind_ne_of_diagnostic (Option.mem_toList.mp hd))
    · rcases List.mem_append.mp hd with hd | hd
      · exact ⟨d, hd, hkind⟩
      · exact absurd hkind (kind_ne_of_mem_afterInstruction hd)
  · intro h
    obtain ⟨d, hd, hkind⟩ := h
    exact ⟨d, List.mem_append_right _ (List.mem_append_left _ hd), hkind⟩

theorem overflowed_atReading_of_leadingLabel {n : Nat} {name : String}
    (hlabel : Fields.leadingLabel text = some name) (hout : 0xFFFF < scan.address) :
    (scan.atReading table (.ofLine n text)).1.overflowed = true := by
  obtain ⟨s, hs, -, hname⟩ := @Reading.exists_statement_of_leadingLabel n text name hlabel
  simp only [atReading, hs, atStatement, afterLabel, hname]
  apply overflowed_afterInstruction
  simp [hout]

/-! ### Narrow fields -/

variable {s : Statement} {instruction : Instruction} {opcode : Opcode}

/-- A narrow field is reported for an instruction that ends within the address
    space, and behind any other one running past the end has been reported. -/
theorem atInstruction_of_narrow
    (hlookup : table.lookup instruction.mnemonic instruction.operand.mode = .ok opcode)
    (hnarrow : opcode.fieldWidth < instruction.operand.mode.payloadWidth) (line : Nat) :
    ((∃ d ∈ (scan.atInstruction table line instruction).2,
        d.fault = .width (.tooNarrow instruction.operand.mode
          instruction.operand.mode.payloadWidth opcode.fieldWidth)) ↔
      scan.address + opcode.size ≤ 0x10000) ∧
    (0x10000 < scan.address + opcode.size →
      (scan.atInstruction table line instruction).1.overflowed = true) := by
  have hpayload : instruction.operand.mode.payloadWidth ≤ maxFieldWidth := by
    cases instruction.operand.mode <;> decide
  have hwide : ¬ maxFieldWidth < opcode.fieldWidth := by omega
  simp only [atInstruction, hlookup, hwide, if_false, hnarrow, if_true]
  by_cases hfits : scan.address + opcode.size ≤ 0x10000
  · simp [hfits, Nat.not_lt.mpr hfits]
  · cases scan.overflowed <;> simp [hfits]

theorem atReading_of_narrow {n : Nat} (hread : Statement.read n text = .ok s)
    (hs : s.instruction = some instruction)
    (hlookup : table.lookup instruction.mnemonic instruction.operand.mode = .ok opcode)
    (hnarrow : opcode.fieldWidth < instruction.operand.mode.payloadWidth) :
    ((∃ d ∈ (scan.atReading table (.ofLine n text)).2,
        d.fault = .width (.tooNarrow instruction.operand.mode
          instruction.operand.mode.payloadWidth opcode.fieldWidth)) ↔
      scan.address + opcode.size ≤ 0x10000) ∧
    (0x10000 < scan.address + opcode.size →
      (scan.atReading table (.ofLine n text)).1.overflowed = true) := by
  have hstep := @atInstruction_of_narrow table (scan.afterLabel s).1 _ _ hlookup hnarrow s.line
  rw [address_afterLabel] at hstep
  obtain ⟨hfound, hflag⟩ := hstep
  have hreading : Reading.ofLine n text = ⟨some s, none⟩ := by simp [Reading.ofLine, hread]
  simp only [hreading, atReading, atStatement, afterInstruction, hs, Option.toList_none,
    List.nil_append]
  refine ⟨?_, hflag⟩
  rw [← hfound]
  constructor
  · intro h
    obtain ⟨d, hd, hfault⟩ := h
    rcases List.mem_append.mp hd with hd | hd
    · -- the label has no width
      rcases afterLabel_snd_cases scan s with hnil | ⟨fault, hlabel⟩
      · simp [hnil] at hd
      · rw [hlabel, List.mem_singleton] at hd
        simp [hd] at hfault
    · exact ⟨d, hd, hfault⟩
  · intro h
    obtain ⟨d, hd, hfault⟩ := h
    exact ⟨d, List.mem_append_right _ hd, hfault⟩

end Scan

/-! ### Assemblies -/

/-- A defect of a line is reported under a condition: there is no program, the
    defect is among the diagnostics of the line exactly under the condition, and
    else the line or an earlier one is reported for having passed the end. -/
def ReportedIff (table : InstructionSet) (options : Options) (lines : List String) (line : Nat)
    (defect : Diagnostic → Prop) (condition : Prop) : Prop :=
  ∃ diagnostics, assembleLines table options lines = .error diagnostics ∧
    ((∃ d ∈ diagnostics, d.line = line ∧ defect d) ↔ condition) ∧
    (¬ condition → ∃ d ∈ diagnostics, d.line ≤ line ∧ d.isPastEnd = true)

/-- It is enough to look at the step that takes in the line. -/
theorem reportedIff_of_atLine {table : InstructionSet} {options : Options} {lines : List String}
    {i : Nat} {text : String} {defect : Diagnostic → Prop} {condition : Prop}
    (hlimit : options.maxDiagnostics = none) (hline : lines[i]? = some text)
    (hfound : (∃ d ∈ (Scan.atLine table options.origin lines i text).2, defect d) ↔ condition)
    (hflag : ¬ condition → (Scan.atLine table options.origin lines i text).1.overflowed = true) :
    ReportedIff table options lines (i + 1) defect condition := by
  have hiff : (∃ d ∈ Scan.ofLines table options.origin lines, d.line = i + 1 ∧ defect d) ↔
      condition := (Scan.exists_mem_ofLines_iff hline defect).trans hfound
  have hpast : ¬ condition →
      ∃ d ∈ Scan.ofLines table options.origin lines, d.line ≤ i + 1 ∧ d.isPastEnd = true :=
    fun h => Scan.exists_isPastEnd_of_overflowed hline (hflag h)
  refine ⟨_, assembleLines_eq_error_ofLines hlimit ?_, hiff, hpast⟩
  -- something is found in either case
  by_cases h : condition
  · obtain ⟨d, hd, -⟩ := hiff.mpr h
    exact List.ne_nil_of_mem hd
  · obtain ⟨d, hd, -⟩ := hpast h
    exact List.ne_nil_of_mem hd

/-- **Where duplicates and narrow fields come to light.** An assembly without a
    limit on its diagnostics refuses every source in which a line starts with a
    label that an earlier line starts with, or holds an instruction whose
    operand does not fit into the field of its opcode. The duplicate is reported
    on its line if and only if the label has an address, and the narrow field if
    and only if the instruction ends within the address space. -/
theorem reportedIff_within_address_space (table : InstructionSet) (options : Options)
    (lines : List String) (i : Nat) (text : String)
    (hlimit : options.maxDiagnostics = none) (hline : lines[i]? = some text) :
    let address := addressBehind table options.origin (lines.take i)
    (∀ j earlier name, j < i → lines[j]? = some earlier →
      Fields.leadingLabel earlier = some name → Fields.leadingLabel text = some name →
      ReportedIff table options lines (i + 1) (fun d => d.kind = .duplicateLabel)
        (address ≤ 0xFFFF)) ∧
    (∀ s instruction opcode, Statement.read (i + 1) text = .ok s →
      s.instruction = some instruction →
      table.lookup instruction.mnemonic instruction.operand.mode = .ok opcode →
      opcode.fieldWidth < instruction.operand.mode.payloadWidth →
      ReportedIff table options lines (i + 1)
        (fun d => d.fault = .width (.tooNarrow instruction.operand.mode
          instruction.operand.mode.payloadWidth opcode.fieldWidth))
        (address + opcode.size ≤ 0x10000)) := by
  intro address
  have haddress : (Scan.before table options.origin lines i).address = address :=
    Scan.address_before table options.origin lines i
  rw [← haddress]
  constructor
  · intro j earlier name hj hearlier hfirst hlabel
    have hknown := @Scan.firstLine?_before_ne_none table options.origin lines i j earlier name
      hj hearlier hfirst
    apply reportedIff_of_atLine hlimit hline
    · exact Scan.exists_duplicate_atReading_iff hlabel hknown
    · intro hout
      exact Scan.overflowed_atReading_of_leadingLabel hlabel (Nat.lt_of_not_le hout)
  · intro s instruction opcode hread hs hlookup hnarrow
    obtain ⟨hfound, hflag⟩ := @Scan.atReading_of_narrow table
      (Scan.before table options.origin lines i) text s _ _ (i + 1) hread hs hlookup hnarrow
    apply reportedIff_of_atLine hlimit hline hfound
    intro hout
    exact hflag (Nat.lt_of_not_le hout)

/-- An instruction set whose `LDA` has no field for its operand. -/
def InstructionSet.narrow : InstructionSet :=
  OpcodeTable.ofRows [⟨"NOP", .implicit, 0xEA, 0⟩, ⟨"LDA", .immediate, 0xA9, 0⟩]

/-- On the last byte of the address space both defects of a line are reported. -/
theorem reportedIff_at_last_address :
    ReportedIff .narrow { origin := 0xFFFF } ["x:", "x: LDA #$01"] 2
      (fun d => d.kind = .duplicateLabel) (65535 ≤ 0xFFFF) ∧
    ReportedIff .narrow { origin := 0xFFFF } ["x:", "x: LDA #$01"] 2
      (fun d => d.fault = .width (.tooNarrow .immediate 1 0)) (65535 + 1 ≤ 0x10000) := by
  obtain ⟨hduplicate, hnarrow⟩ := reportedIff_within_address_space .narrow { origin := 0xFFFF }
    ["x:", "x: LDA #$01"] 1 "x: LDA #$01" rfl rfl
  refine ⟨hduplicate 0 "x:" "x" (by decide) rfl (by decide +kernel) (by decide +kernel), ?_⟩
  exact hnarrow ⟨2, some "x", some ⟨"LDA", .immediate 1, 3⟩, none⟩ ⟨"LDA", .immediate 1, 3⟩
    ⟨0xA9, 0⟩ (by rfl) rfl (by rfl) (by decide)

/-- One byte further on neither is, even though the first `x` has an address:
    the only diagnostic is that of line 2. -/
theorem duplicate_and_narrow_hidden_past_end :
    assembleLines .nmos { origin := 0xFFFF } ["x: NOP", "y:", "x:"] =
      .error [⟨2, 0, .placement (.labelPastEnd "y")⟩] ∧
    assembleLines .narrow { origin := 0xFFFF } ["x: NOP", "y:", "x: LDA #$01"] =
      .error [⟨2, 0, .placement (.labelPastEnd "y")⟩] := by
  have hduplicate : Scan.ofLines .nmos 0xFFFF ["x: NOP", "y:", "x:"] =
      [⟨2, 0, .placement (.labelPastEnd "y")⟩] := by decide +kernel
  have hnarrow : Scan.ofLines .narrow 0xFFFF ["x: NOP", "y:", "x: LDA #$01"] =
      [⟨2, 0, .placement (.labelPastEnd "y")⟩] := by decide +kernel
  constructor
  · rw [assembleLines_eq_error_ofLines rfl (by simp [hduplicate]), hduplicate]
  · rw [assembleLines_eq_error_ofLines rfl (by simp [hnarrow]), hnarrow]

end Mos6502
