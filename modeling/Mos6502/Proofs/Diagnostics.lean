import Mos6502.Proofs.Scan
import Mos6502.Proofs.StableSort

/-! # The Order of Diagnostics

    An assembly collects the diagnostics of its three stages one stage after
    the other and then sorts them by line. `report_found` says that what comes
    out is the list that one scan over the lines finds: the three stages agree
    with the scan on every single line, and sorting brings the lines together.

    From the scan it is read off that no line has more than two diagnostics
    and that running past the end of the address space is reported once.
-/

namespace Mos6502

/-- Is it reported that the end of the address space has been passed? -/
def Diagnostic.isPastEnd (d : Diagnostic) : Bool :=
  match d.fault with
  | .placement (.labelPastEnd _) | .placement (.instructionPastEnd _ _) => true
  | _ => false

namespace Scan

open StableSort

variable {table : InstructionSet} {scan : Scan} {state : Layout.State}

/-! ### The diagnostics of one line -/

/-- A label has at most one diagnostic, on its line. -/
theorem afterLabel_snd_cases (scan : Scan) (s : Statement) :
    (scan.afterLabel s).2 = [] ∨
      ∃ fault, (scan.afterLabel s).2 = [⟨s.line, 0, .placement fault⟩] := by
  unfold afterLabel
  cases s.label with
  | none => exact .inl rfl
  | some name =>
    simp only [atLabel]
    by_cases hin : scan.address ≤ 0xFFFF
    · cases scan.firstLine? name <;> simp [hin]
    · cases scan.overflowed <;> simp [hin]

theorem afterInstruction_snd_cases (table : InstructionSet) (scan : Scan) (s : Statement) :
    (scan.afterInstruction table s).2 = [] ∨
      ∃ instruction fault, s.instruction = some instruction ∧
        (scan.afterInstruction table s).2 = [⟨s.line, instruction.column, fault⟩] := by
  unfold afterInstruction
  cases s.instruction with
  | none => exact .inl rfl
  | some instruction =>
    simp only [atInstruction]
    cases table.lookup instruction.mnemonic instruction.operand.mode with
    | error fault => exact .inr ⟨instruction, _, rfl, rfl⟩
    | ok opcode => grind

/-- A statement has at most two diagnostics, at most one if it has no
    instruction, and all of them are on its line. -/
theorem atStatement_snd (table : InstructionSet) (scan : Scan) (s : Statement) :
    (scan.atStatement table s).2.length ≤ 2 ∧
    (s.instruction = none → (scan.atStatement table s).2.length ≤ 1) ∧
    ∀ d ∈ (scan.atStatement table s).2, d.line = s.line := by
  unfold atStatement
  rcases afterLabel_snd_cases scan s with hl | ⟨fault, hl⟩ <;>
    rcases afterInstruction_snd_cases table (scan.afterLabel s).1 s with
      hi | ⟨instruction, fault', hs, hi⟩ <;>
    simp [hl, hi]
  all_goals simp [hs]

/-- A line has at most two diagnostics, and they carry its number. If it cannot
    be read, at most its label is left to have the second one. -/
theorem atReading_ofLine (table : InstructionSet) (scan : Scan) (line : Nat) (text : String) :
    (scan.atReading table (.ofLine line text)).2.length ≤ 2 ∧
      ∀ d ∈ (scan.atReading table (.ofLine line text)).2, d.line = line := by
  rcases Reading.ofLine_cases line text with ⟨s, hread, h⟩ | ⟨e, hread, h⟩
  · obtain ⟨hlength, -, hline⟩ := atStatement_snd table scan s
    rw [h]
    simp only [atReading, Option.toList_none, List.nil_append]
    refine ⟨hlength, ?_⟩
    intro d hd
    rw [hline d hd, Statement.line_of_read hread]
  · have hreport := (Statement.line_of_read_eq_error hread).1
    rw [h]
    cases hrecover : Statement.recover line text with
    | none => simp [atReading, hreport]
    | some s =>
      -- one diagnostic for the line, and one at most for the label
      obtain ⟨hs, hnone⟩ := Statement.recover_eq_some hrecover
      obtain ⟨-, hlength, hline⟩ := atStatement_snd table scan s
      simp only [atReading, Option.toList_some, List.singleton_append, List.length_cons]
      refine ⟨Nat.succ_le_succ (hlength hnone), ?_⟩
      intro d hd
      rcases List.mem_cons.mp hd with rfl | hd
      · exact hreport
      · rw [hline d hd, hs]

/-! ### The diagnostics of all lines -/

/-- The scan behind some lines. -/
def after (table : InstructionSet) (scan : Scan) : List Reading → Scan
  | [] => scan
  | reading :: readings => after table (scan.atReading table reading).1 readings

theorem diagnostics_append (table : InstructionSet) (scan : Scan) (readings others : List Reading) :
    diagnostics table scan (readings ++ others) =
      diagnostics table scan readings ++ diagnostics table (scan.after table readings) others := by
  induction readings generalizing scan with
  | nil => rfl
  | cons reading readings ih =>
    rw [List.cons_append, diagnostics, diagnostics, ih, List.append_assoc, after]

theorem le_line_of_mem_diagnostics {first : Nat} {lines : List String} {d : Diagnostic}
    (hd : d ∈ diagnostics table scan (Reading.ofLinesFrom first lines)) : first ≤ d.line := by
  induction lines generalizing scan first with
  | nil => simp [diagnostics] at hd
  | cons text lines ih =>
    rcases List.mem_append.mp hd with hd | hd
    · exact Nat.le_of_eq ((atReading_ofLine table scan first text).2 d hd).symm
    · exact Nat.le_of_succ_le (ih hd)

theorem line_lt_of_mem_diagnostics {first : Nat} {lines : List String} {d : Diagnostic}
    (hd : d ∈ diagnostics table scan (Reading.ofLinesFrom first lines)) :
    d.line < first + lines.length := by
  induction lines generalizing scan first with
  | nil => simp [diagnostics] at hd
  | cons text lines ih =>
    rw [List.length_cons]
    rcases List.mem_append.mp hd with hd | hd
    · have hline := (atReading_ofLine table scan first text).2 d hd
      omega
    · have hrest := ih hd
      omega

/-- A scan finds its diagnostics in the order of their lines. -/
theorem pairwise_line_diagnostics (table : InstructionSet) (scan : Scan) (first : Nat)
    (lines : List String) :
    (diagnostics table scan (Reading.ofLinesFrom first lines)).Pairwise
      fun a b => a.line ≤ b.line := by
  induction lines generalizing scan first with
  | nil => exact .nil
  | cons text lines ih =>
    have hline := (atReading_ofLine table scan first text).2
    -- within a line all numbers are the same, and later lines have larger ones
    refine List.pairwise_append.mpr ⟨?_, ih _ _, ?_⟩
    · apply List.pairwise_of_forall_mem_list
      intro a ha b hb
      exact Nat.le_of_eq ((hline a ha).trans (hline b hb).symm)
    · intro a ha b hb
      rw [hline a ha]
      exact Nat.le_of_succ_le (le_line_of_mem_diagnostics hb)

/-- The diagnostics on a line are those that the scan finds when it comes to
    the line, so there are at most two. -/
theorem length_filter_line_diagnostics_le (table : InstructionSet) (scan : Scan) (first : Nat)
    (lines : List String) (n : Nat) :
    ((diagnostics table scan (Reading.ofLinesFrom first lines)).filter
      fun d => d.line = n).length ≤ 2 := by
  induction lines generalizing scan first with
  | nil => simp [diagnostics]
  | cons text lines ih =>
    obtain ⟨hlength, hline⟩ := atReading_ofLine table scan first text
    rw [Reading.ofLinesFrom_cons, diagnostics, List.filter_append, List.length_append]
    by_cases hn : first = n
    · -- this is the line, and nothing that comes later is on it
      have hrest : (diagnostics table (scan.atReading table (.ofLine first text)).1
          (Reading.ofLinesFrom (first + 1) lines)).filter (fun d => d.line = n) = [] := by
        apply filter_eq_nil_of_forall_ne
        intro d hd
        have hle := le_line_of_mem_diagnostics hd
        omega
      have hfilter := List.length_filter_le (fun d : Diagnostic => d.line = n)
        (scan.atReading table (.ofLine first text)).2
      rw [hrest, List.length_nil]
      omega
    · -- this is another line
      have hhead : (scan.atReading table (.ofLine first text)).2.filter
          (fun d => d.line = n) = [] := by
        apply filter_eq_nil_of_forall_ne
        intro d hd
        rw [hline d hd]
        exact hn
      rw [hhead, List.length_nil, Nat.zero_add]
      exact ih _ _

/-! ### Running past the end -/

/-- How often running past the end may still be reported. -/
def budget (scan : Scan) : Nat := if scan.overflowed then 0 else 1

/-- A label spends the budget when it reports running past the end. -/
theorem countP_isPastEnd_atLabel (scan : Scan) (line : Nat) (name : String) :
    (scan.atLabel line name).2.countP Diagnostic.isPastEnd + (scan.atLabel line name).1.budget =
      scan.budget := by
  unfold atLabel budget
  by_cases hin : scan.address ≤ 0xFFFF
  · cases scan.firstLine? name <;> simp [hin, Diagnostic.isPastEnd]
  · cases scan.overflowed <;> simp [hin, Diagnostic.isPastEnd]

theorem countP_isPastEnd_atInstruction (table : InstructionSet) (scan : Scan) (line : Nat)
    (instruction : Instruction) :
    (scan.atInstruction table line instruction).2.countP Diagnostic.isPastEnd +
        (scan.atInstruction table line instruction).1.budget = scan.budget := by
  simp only [atInstruction, budget]
  cases table.lookup instruction.mnemonic instruction.operand.mode with
  | error fault => simp [Diagnostic.isPastEnd]
  | ok opcode =>
    by_cases hwide : maxFieldWidth < opcode.fieldWidth
    · simp [hwide, Diagnostic.isPastEnd]
    · by_cases hfits : scan.address + opcode.size ≤ 0x10000
      · by_cases hnarrow : opcode.fieldWidth < instruction.operand.mode.payloadWidth <;>
          simp [hwide, hfits, hnarrow, Diagnostic.isPastEnd]
      · cases scan.overflowed <;> simp [hwide, hfits, Diagnostic.isPastEnd]

theorem countP_isPastEnd_afterInstruction (table : InstructionSet) (scan : Scan) (s : Statement) :
    (scan.afterInstruction table s).2.countP Diagnostic.isPastEnd +
        (scan.afterInstruction table s).1.budget = scan.budget := by
  unfold afterInstruction
  cases s.instruction with
  | none => simp
  | some instruction => exact countP_isPastEnd_atInstruction table scan s.line instruction

theorem countP_isPastEnd_atStatement (table : InstructionSet) (scan : Scan) (s : Statement) :
    (scan.atStatement table s).2.countP Diagnostic.isPastEnd +
        (scan.atStatement table s).1.budget = scan.budget := by
  have hlabel : (scan.afterLabel s).2.countP Diagnostic.isPastEnd +
      (scan.afterLabel s).1.budget = scan.budget := by
    unfold afterLabel
    cases s.label with
    | none => simp
    | some name => exact countP_isPastEnd_atLabel scan s.line name
  -- what the label leaves of the budget is what the instruction may spend
  have hrest := countP_isPastEnd_afterInstruction table (scan.afterLabel s).1 s
  simp only [atStatement, List.countP_append]
  omega

theorem countP_isPastEnd_atReading (table : InstructionSet) (scan : Scan) (line : Nat)
    (text : String) :
    (scan.atReading table (.ofLine line text)).2.countP Diagnostic.isPastEnd +
        (scan.atReading table (.ofLine line text)).1.budget = scan.budget := by
  rcases Reading.ofLine_cases line text with ⟨s, -, h⟩ | ⟨e, hread, h⟩
  · rw [h]
    simpa [atReading] using countP_isPastEnd_atStatement table scan s
  · -- a line that cannot be read has nothing to do with addresses
    have hfault : e.isPastEnd = false := by
      unfold Diagnostic.isPastEnd
      rcases (Statement.line_of_read_eq_error hread).2 with ⟨fault, hf⟩ | ⟨fault, hf⟩ <;> rw [hf]
    rw [h]
    cases hrecover : Statement.recover line text with
    | none => simp [atReading, hfault]
    | some s => simpa [atReading, hfault] using countP_isPastEnd_atStatement table scan s

theorem countP_isPastEnd_diagnostics (table : InstructionSet) (scan : Scan) (first : Nat)
    (lines : List String) :
    (diagnostics table scan (Reading.ofLinesFrom first lines)).countP Diagnostic.isPastEnd +
        (scan.after table (Reading.ofLinesFrom first lines)).budget = scan.budget := by
  induction lines generalizing scan first with
  | nil => simp [diagnostics, after]
  | cons text lines ih =>
    have hstep := countP_isPastEnd_atReading table scan first text
    have hrest := ih (scan.atReading table (.ofLine first text)).1 (first + 1)
    rw [Reading.ofLinesFrom_cons, diagnostics, after, List.countP_append]
    omega

/-- Running past the end of the address space is reported at most once. -/
theorem countP_isPastEnd_diagnostics_le (table : InstructionSet) (scan : Scan) (first : Nat)
    (lines : List String) :
    (diagnostics table scan (Reading.ofLinesFrom first lines)).countP Diagnostic.isPastEnd ≤
      scan.budget := by
  rw [← countP_isPastEnd_diagnostics table scan first lines]
  exact Nat.le_add_right _ _

end Scan

namespace Assembly

open StableSort

variable {table : InstructionSet} {scan : Scan} {state : Layout.State}

/-! ### Three stages, one scan -/

/-- The parts of one line may be taken out of the three lists and put in front,
    since nothing that follows them is on the line. -/
private theorem filter_line_gather {n : Nat} {r a l b e c : List Diagnostic}
    (hl : ∀ d ∈ l, d.line = n) (he : ∀ d ∈ e, d.line = n)
    (ha : ∀ d ∈ a, n < d.line) (hb : ∀ d ∈ b, n < d.line) (k : Nat) :
    ((r ++ a) ++ (l ++ b) ++ (e ++ c)).filter (fun d => d.line = k) =
      ((r ++ (l ++ e)) ++ (a ++ b ++ c)).filter (fun d => d.line = k) := by
  have hnone : ∀ m : List Diagnostic, (∀ d ∈ m, d.line ≠ k) →
      m.filter (fun d => d.line = k) = [] := fun m hm => filter_eq_nil_of_forall_ne hm
  by_cases hk : n = k
  · have ha' : a.filter (fun d => d.line = k) = [] := by
      apply hnone
      intro d hd
      have hlater := ha d hd
      omega
    have hb' : b.filter (fun d => d.line = k) = [] := by
      apply hnone
      intro d hd
      have hlater := hb d hd
      omega
    simp only [List.filter_append, ha', hb', List.nil_append, List.append_assoc]
  · have hl' : l.filter (fun d => d.line = k) = [] := by
      apply hnone
      intro d hd
      rwa [hl d hd]
    have he' : e.filter (fun d => d.line = k) = [] := by
      apply hnone
      intro d hd
      rwa [he d hd]
    simp only [List.filter_append, hl', he', List.nil_append, List.append_assoc]

/-- Scan and stages find the same on every line, in the same order. -/
theorem filter_line_diagnostics (h : scan.Follows state) (table : InstructionSet) (first : Nat)
    (lines : List String) (k : Nat) :
    (Scan.diagnostics table scan (Reading.ofLinesFrom first lines)).filter (fun d => d.line = k) =
      (found (Reading.ofLinesFrom first lines) (Layout.ofState table state
        (Reading.statements (Reading.ofLinesFrom first lines)))).filter (fun d => d.line = k) := by
  induction lines generalizing scan state first with
  | nil => rfl
  | cons text lines ih =>
    rw [Reading.ofLinesFrom_cons, Scan.diagnostics, Reading.statements_cons]
    cases hs : (Reading.ofLine first text).statement with
    | none =>
      -- nothing is laid out for this line
      have hrest := ih h (first + 1)
      simp only [found, Scan.atReading, hs, Reading.diagnostics_cons, Option.toList_none,
        List.nil_append, List.filter_append, List.append_assoc] at hrest ⊢
      rw [hrest]
    | some s =>
      -- scan and layout are in step behind the statement, which carries the induction
      obtain ⟨hnext, hsnd⟩ := Scan.atStatement_follows h table s
      have hline := Reading.line_of_statement hs
      have hrest := ih hnext (first + 1)
      simp only [found, Scan.atReading, hs, Reading.diagnostics_cons, Option.toList_some,
        List.singleton_append, Placed.encodingDiagnostics_eq, Layout.placed_ofState_cons,
        Layout.diagnostics_ofState_cons, List.filterMap_append] at hrest ⊢
      rw [filter_line_gather (n := first), hsnd, List.filter_append, hrest, ← List.filter_append]
      -- what layout and encoding find for the statement is on the line
      · intro d hd
        rw [Layout.line_of_mem_place hd, hline]
      · intro d hd
        obtain ⟨placed, hmem, hd⟩ := List.mem_filterMap.mp hd
        rw [Placed.line_of_diagnostic?_eq_some hd,
          Layout.line_of_placed_place (Option.mem_toList.mp hmem), hline]
      -- and what is left of both lists is on later lines
      · intro d hd
        exact Reading.le_line_of_mem_diagnostics hd
      · intro d hd
        obtain ⟨t, ht, hd⟩ := Layout.exists_line_of_mem_diagnostics hd
        rw [hd]
        exact Reading.le_line_of_mem_statements ht

/-- **Sorting the three stages gives the scan.** -/
theorem report_found (table : InstructionSet) (origin : UInt16) (lines : List String) :
    report none (found (Reading.ofLines lines)
        (Layout.ofStatements table origin (Reading.statements (Reading.ofLines lines)))) =
      Scan.ofLines table origin lines :=
  @mergeSort_eq_of_filter_eq Diagnostic Diagnostic.line _ _
    (Scan.pairwise_line_diagnostics table (.start origin) 1 lines)
    (filter_line_diagnostics (Scan.follows_start origin) table 1 lines)

theorem found_eq_nil_iff (table : InstructionSet) (origin : UInt16) (lines : List String) :
    found (Reading.ofLines lines)
        (Layout.ofStatements table origin (Reading.statements (Reading.ofLines lines))) = [] ↔
      Scan.ofLines table origin lines = [] := by
  rw [← report_found]
  constructor
  · intro h
    rw [h, report, List.mergeSort_nil]
  · intro h
    exact List.nil_perm.mp (h ▸ List.mergeSort_perm _ _)

end Assembly

/-- What is wrong with a source: the diagnostics of its assembly, and none if
    there is a program. -/
def diagnosticsOf (outcome : Except (List Diagnostic) Program) : List Diagnostic :=
  match outcome with
  | .ok _ => []
  | .error diagnostics => diagnostics

theorem diagnosticsOf_assembleLines (table : InstructionSet) (origin : UInt16)
    (lines : List String) :
    diagnosticsOf (assembleLines table { origin } lines) = Scan.ofLines table origin lines := by
  have hreport := Assembly.report_found table origin lines
  unfold assembleLines Assembly.run
  cases hfound : Assembly.found (Reading.ofLines lines)
      (Layout.ofStatements table origin (Reading.statements (Reading.ofLines lines))) with
  | nil =>
    have hscan := (Assembly.found_eq_nil_iff table origin lines).mp hfound
    simp [hfound, hscan, diagnosticsOf]
  | cons d rest =>
    rw [hfound] at hreport
    simp [hfound, hreport, diagnosticsOf]

/-- A source is refused if the scan finds anything, and then with what it finds,
    up to the limit. -/
theorem assembleLines_eq_error_iff {table : InstructionSet} {options : Options} {lines : List String}
    {diagnostics : List Diagnostic} :
    assembleLines table options lines = .error diagnostics ↔
      Scan.ofLines table options.origin lines ≠ [] ∧
        diagnostics = match options.maxDiagnostics with
          | none => Scan.ofLines table options.origin lines
          | some limit => (Scan.ofLines table options.origin lines).take limit := by
  have hnil := Assembly.found_eq_nil_iff table options.origin lines
  have hreport := Assembly.report_found table options.origin lines
  unfold assembleLines Assembly.run
  cases hfound : Assembly.found (Reading.ofLines lines)
      (Layout.ofStatements table options.origin (Reading.statements (Reading.ofLines lines))) with
  | nil =>
    have hscan := hnil.mp hfound
    simp [hfound, hscan]
  | cons d rest =>
    have hscan : Scan.ofLines table options.origin lines ≠ [] := by
      intro h
      rw [hnil.mpr h] at hfound
      simp at hfound
    rw [hfound] at hreport
    cases options.maxDiagnostics with
    | none => simp [hfound, hscan, hreport, eq_comm]
    | some limit =>
      -- the limit cuts off the end of the sorted list
      have hcut : Assembly.report (some limit) (d :: rest) =
          (Assembly.report none (d :: rest)).take limit := rfl
      simp [hfound, hscan, hcut, hreport, eq_comm]

/-- Without a limit, everything that the scan finds is given. -/
theorem assembleLines_eq_error_ofLines {table : InstructionSet} {options : Options}
    {lines : List String} (hlimit : options.maxDiagnostics = none)
    (hne : Scan.ofLines table options.origin lines ≠ []) :
    assembleLines table options lines = .error (Scan.ofLines table options.origin lines) := by
  refine assembleLines_eq_error_iff.mpr ⟨hne, ?_⟩
  rw [hlimit]

end Mos6502
