import Mos6502.Proofs.Findings
import Mos6502.Proofs.LineText
import Mos6502.Proofs.Substance

/-! # Recovery from Malformed Lines

    A line that cannot be read is reported, and the assembly goes on as if it
    held the label it starts with and nothing else. `repairLines` puts that in
    place of every such line. The repaired source has the same layout, and its
    diagnostics are those of the source itself except for the reports that
    lines cannot be read (`assembleLines_repairLines`).

    The reason is that these reports are collected first. What is found behind
    them depends on the substance of the statements alone, which is the same for
    both sources, and sorting by line keeps the reports in front on each line.
-/

namespace Mos6502

namespace Reading

/-- The line itself if it can be read; else the label it starts with, or nothing
    if there is none. -/
def repairLine (line : Nat) (text : String) : String :=
  match Statement.read line text with
  | .ok _ => text
  | .error _ =>
    match Fields.leadingLabel text with
    | some label => label ++ ":"
    | none => ""

/-- The lines of a source, numbered from `first` on, with every line repaired. -/
def repairLinesFrom (first : Nat) (lines : List String) : List String :=
  (lines.zipIdx first).map fun (text, line) => repairLine line text

@[simp] theorem repairLinesFrom_cons (first : Nat) (text : String) (lines : List String) :
    repairLinesFrom first (text :: lines) =
      repairLine first text :: repairLinesFrom (first + 1) lines := rfl

/-- A repaired line can be read, and its statement counts like the one that is
    recovered from the line. -/
theorem exists_ofLine_repairLine (n : Nat) (text : String) :
    ∃ s, ofLine n (repairLine n text) = ⟨some s, none⟩ ∧
      Statement.substance [s] = Statement.substance (ofLine n text).statement.toList := by
  rcases ofLine_cases n text with ⟨s, hread, hline⟩ | ⟨d, hread, hline⟩
  · have hrepair : repairLine n text = text := by simp [repairLine, hread]
    rw [hrepair, hline]
    exact ⟨s, rfl, rfl⟩
  · rw [hline]
    cases hlabel : Fields.leadingLabel text with
    | none =>
      have hrepair : repairLine n text = "" := by simp [repairLine, hread, hlabel]
      rw [hrepair]
      refine ⟨⟨n, none, none, none⟩, rfl, ?_⟩
      simp [Statement.recover, hlabel, Statement.substance_singleton_of_isIdle, Statement.isIdle]
    | some label =>
      have hrepair : repairLine n text = label ++ ":" := by simp [repairLine, hread, hlabel]
      obtain ⟨-, -, -, -, hword⟩ := Fields.leadingLabel_eq_some_iff.mp hlabel
      rw [hrepair, ofLine, Statement.read_label n hword]
      refine ⟨_, rfl, ?_⟩
      simp [Statement.recover, hlabel]

/-- No line of a repaired source is reported, and the statements count like
    those of the source. -/
theorem readings_repairLinesFrom (first : Nat) (lines : List String) :
    diagnostics (ofLinesFrom first (repairLinesFrom first lines)) = [] ∧
      Statement.substance (statements (ofLinesFrom first (repairLinesFrom first lines))) =
        Statement.substance (statements (ofLinesFrom first lines)) := by
  induction lines generalizing first with
  | nil => exact ⟨rfl, rfl⟩
  | cons text lines ih =>
    obtain ⟨hdiagnostics, hsubstance⟩ := ih (first + 1)
    obtain ⟨s, hline, hs⟩ := exists_ofLine_repairLine first text
    rw [repairLinesFrom_cons, ofLinesFrom_cons, ofLinesFrom_cons, hline]
    refine ⟨by simp [hdiagnostics], ?_⟩
    simp only [statements_cons, Option.toList_some, Statement.substance_append, hs, hsubstance]

/-- The reports on the line that has `front` before it are the one of the line
    itself, if there is one. -/
theorem filter_line_diagnostics (first : Nat) (front : List String) (text : String)
    (back : List String) :
    (diagnostics (ofLinesFrom first (front ++ text :: back))).filter
        (fun d => d.line = first + front.length) =
      (ofLine (first + front.length) text).diagnostic.toList := by
  induction front generalizing first with
  | nil =>
    have hself : ∀ d ∈ (ofLine first text).diagnostic.toList, d.line = first :=
      fun d hd => line_of_diagnostic (Option.mem_toList.mp hd)
    have hback : ∀ d ∈ diagnostics (ofLinesFrom (first + 1) back), d.line ≠ first := by
      intro d hd
      have hle := le_line_of_mem_diagnostics hd
      omega
    simp only [List.nil_append, List.length_nil, Nat.add_zero, ofLinesFrom_cons, diagnostics_cons,
      List.filter_append, StableSort.filter_eq_nil_of_forall_ne hback, List.append_nil]
    rw [List.filter_eq_self.mpr (by simpa using hself)]
  | cons other front ih =>
    have hother : ∀ d ∈ (ofLine first other).diagnostic.toList,
        d.line ≠ first + (front.length + 1) := by
      intro d hd
      have hline := line_of_diagnostic (Option.mem_toList.mp hd)
      omega
    have hrest := ih (first + 1)
    rw [Nat.add_assoc, Nat.add_comm 1] at hrest
    simp only [List.cons_append, List.length_cons, ofLinesFrom_cons, diagnostics_cons,
      List.filter_append, StableSort.filter_eq_nil_of_forall_ne hother, List.nil_append, hrest]

end Reading

namespace Layout

variable {table : InstructionSet} {state : State} {name : String} {symbol : Symbol}

theorem find?_afterLabel (h : state.symbols.find? name = some symbol) (s : Statement) :
    (state.afterLabel s).1.symbols.find? name = some symbol := by
  unfold State.afterLabel
  cases s.label with
  | none => exact h
  | some other =>
    rcases placeLabel_cases state s.line other with
      ⟨-, hnew, hplace⟩ | ⟨-, first, -, hplace⟩ | ⟨-, -, hplace⟩ | ⟨-, -, hplace⟩
    · simp only [hplace]
      rw [SymbolTable.find?_insertIfNew_of_find?_eq_none hnew, h, Option.some_or]
    all_goals simpa only [hplace] using h

theorem find?_after (h : state.symbols.find? name = some symbol) (statements : List Statement) :
    (state.after table statements).symbols.find? name = some symbol := by
  induction statements generalizing state with
  | nil => exact h
  | cons s rest ih =>
    apply ih
    rw [symbols_place]
    exact find?_afterLabel h s

/-- What is recovered from a line takes no room and places nothing, -/
theorem ofState_recover (table : InstructionSet) (state : State) (n : Nat) (text : String) :
    (ofState table state (Statement.recover n text).toList).placed = [] ∧
      (ofState table state (Statement.recover n text).toList).endAddress = state.address := by
  unfold Statement.recover
  cases Fields.leadingLabel text with
  | none => exact ⟨rfl, rfl⟩
  | some label =>
    refine ⟨rfl, ?_⟩
    rw [endAddress_ofState]
    rfl

/-- and it defines its label at the running address, if the label is new. -/
theorem find?_after_recover {n : Nat} {text : String} (hlabel : Fields.leadingLabel text = some name)
    (hin : state.address < addressSpaceEnd) (hnew : state.symbols.find? name = none) :
    (state.after table (Statement.recover n text).toList).symbols.find? name =
      some ⟨name, .ofNat state.address, n⟩ := by
  have hplace : state.placeLabel n name =
      ({ state with
          symbols := state.symbols.insertIfNew ⟨name, .ofNat state.address, n⟩ }, []) := by
    simp [State.placeLabel, hin, SymbolTable.define, hnew]
  have hafter : state.after table (Statement.recover n text).toList =
      (state.placeLabel n name).1 := by
    unfold Statement.recover
    rw [hlabel]
    rfl
  rw [hafter, hplace]
  show (state.symbols.insertIfNew _).find? name = _
  rw [SymbolTable.find?_insertIfNew_of_find?_eq_none hnew, hnew]
  simp

end Layout

/-- The source with every line repaired. -/
def repairLines (lines : List String) : List String := Reading.repairLinesFrom 1 lines

/-- The layout of the lines of a source. -/
def layoutOf (table : InstructionSet) (origin : UInt16) (lines : List String) : Layout :=
  Layout.ofStatements table origin (Reading.statements (Reading.ofLines lines))

variable {table : InstructionSet} {origin : UInt16}

/-- Repairing a source does not change its layout. -/
theorem layoutOf_repairLines (table : InstructionSet) (origin : UInt16) (lines : List String) :
    layoutOf table origin (repairLines lines) = layoutOf table origin lines := by
  unfold layoutOf repairLines Layout.ofStatements
  rw [Reading.ofLines_eq, Reading.ofLines_eq, ← Layout.ofState_substance,
    (Reading.readings_repairLinesFrom 1 lines).2, Layout.ofState_substance]

/-- **A line that counts for its label only.** Between the lines before it and
    those behind it, it takes no room, and a new label that it starts with
    stands for the address up to which the lines before it reach. -/
structure LeavesLabel (table : InstructionSet) (origin : UInt16) (front : List String)
    (text : String) (back : List String) : Prop where
  /-- Nothing is placed for the line, -/
  placed_eq : (layoutOf table origin (front ++ [text])).placed = (layoutOf table origin front).placed
  /-- it takes no room, -/
  endAddress_eq : (layoutOf table origin (front ++ [text])).endAddress =
    (layoutOf table origin front).endAddress
  /-- and it defines the label. -/
  find?_eq : ∀ name, Fields.leadingLabel text = some name →
    (layoutOf table origin front).endAddress < addressSpaceEnd →
    (layoutOf table origin front).symbols.find? name = none →
    (layoutOf table origin (front ++ text :: back)).symbols.find? name =
      some ⟨name, .ofNat (layoutOf table origin front).endAddress, front.length + 1⟩

theorem leavesLabel_of_read_eq_error {front : List String} {text : String} {d : Diagnostic}
    (h : Statement.read (front.length + 1) text = .error d) (back : List String) :
    LeavesLabel table origin front text back := by
  have hline : (Reading.ofLine (1 + front.length) text).statement =
      Statement.recover (1 + front.length) text := by
    rw [Nat.add_comm, Reading.ofLine, h]
  -- the statements of the lines before it, the recovered one, and those behind it
  have hsplit : ∀ rest, Reading.statements (Reading.ofLines (front ++ text :: rest)) =
      Reading.statements (Reading.ofLines front) ++
        ((Statement.recover (1 + front.length) text).toList ++
          Reading.statements (Reading.ofLinesFrom (1 + front.length + 1) rest)) := by
    intro rest
    rw [Reading.ofLines_eq, Reading.ofLinesFrom_append, Reading.statements_append,
      Reading.ofLinesFrom_cons, Reading.statements_cons, hline]
    rfl
  have hlast := hsplit []
  rw [Reading.ofLinesFrom_nil, Reading.statements_nil, List.append_nil] at hlast
  obtain ⟨hplaced, haddress⟩ := Layout.ofState_recover table
    ((Layout.State.start origin).after table (Reading.statements (Reading.ofLines front)))
    (1 + front.length) text
  constructor
  · unfold layoutOf Layout.ofStatements
    rw [hlast, Layout.ofState_append]
    simp only [hplaced, List.append_nil]
  · unfold layoutOf Layout.ofStatements
    rw [hlast, Layout.ofState_append]
    simp only [haddress, Layout.endAddress_eq_address_after]
  · unfold layoutOf Layout.ofStatements
    intro name hlabel hin hnew
    rw [Layout.endAddress_eq_address_after] at hin ⊢
    rw [Layout.symbols_ofState] at hnew
    rw [hsplit back, Layout.symbols_ofState, Layout.after_append, Layout.after_append,
      Nat.add_comm front.length]
    exact Layout.find?_after (Layout.find?_after_recover hlabel hin hnew) _

/-! ### Diagnostics -/

/-- What is wrong with a layout and with the encoding of what it has placed. -/
def Layout.found (layout : Layout) : List Diagnostic :=
  layout.diagnostics ++ layout.encodingDiagnostics

/-- The diagnostics of a source are the reports of its lines and what is found
    behind them, sorted by line. -/
theorem diagnosticsOf_eq_mergeSort (table : InstructionSet) (origin : UInt16) (lines : List String) :
    diagnosticsOf (assembleLines table { origin } lines) =
      (Reading.diagnostics (Reading.ofLines lines) ++ (layoutOf table origin lines).found).mergeSort
        (StableSort.byKey Diagnostic.line) := by
  rw [diagnosticsOf_assembleLines, ← Assembly.report_found]
  unfold Assembly.report Assembly.found Layout.found
  rw [List.append_assoc]
  rfl

/-- Those of the repaired source are only what is found behind the reports. -/
theorem diagnosticsOf_repairLines (table : InstructionSet) (origin : UInt16) (lines : List String) :
    diagnosticsOf (assembleLines table { origin } (repairLines lines)) =
      (layoutOf table origin lines).found.mergeSort (StableSort.byKey Diagnostic.line) := by
  have hnone : Reading.diagnostics (Reading.ofLines (repairLines lines)) = [] :=
    (Reading.readings_repairLinesFrom 1 lines).1
  rw [diagnosticsOf_eq_mergeSort, hnone, layoutOf_repairLines, List.nil_append]

/-- All reports say that a line cannot be read, -/
theorem Reading.isReading_of_mem_diagnostics {first : Nat} {lines : List String} {d : Diagnostic}
    (hd : d ∈ diagnostics (ofLinesFrom first lines)) : d.isReading = true := by
  obtain ⟨reading, hmem, hreport⟩ := List.mem_filterMap.mp hd
  obtain ⟨⟨text, n⟩, -, rfl⟩ := List.mem_map.mp hmem
  exact Statement.isReading_of_read (read_of_diagnostic hreport)

/-- and nothing behind them says so. -/
theorem isReading_eq_false_of_mem_found {lines : List String} {d : Diagnostic}
    (hd : d ∈ (layoutOf table origin lines).found) : d.isReading = false := by
  rw [← (List.mergeSort_perm _ (StableSort.byKey Diagnostic.line)).mem_iff,
    ← diagnosticsOf_repairLines, diagnosticsOf_assembleLines] at hd
  obtain ⟨reading, hmem, hreport | ⟨s, -, hfinding⟩⟩ := Scan.exists_reading_of_mem_diagnostics hd
  · -- no line of the repaired source is reported
    have hd := List.mem_filterMap.mpr ⟨reading, hmem, hreport⟩
    rw [← Reading.diagnostics, Reading.ofLines_eq] at hd
    rw [repairLines, (Reading.readings_repairLinesFrom 1 lines).1] at hd
    exact absurd hd List.not_mem_nil
  · exact hfinding.isReading_eq_false

/-- So without the reports of malformed lines, both sources have the same
    diagnostics. -/
theorem filter_isReading_diagnosticsOf (table : InstructionSet) (origin : UInt16)
    (lines : List String) :
    (diagnosticsOf (assembleLines table { origin } lines)).filter (fun d => !d.isReading) =
      diagnosticsOf (assembleLines table { origin } (repairLines lines)) := by
  have hreports : (Reading.diagnostics (Reading.ofLines lines)).filter
      (fun d => !d.isReading) = [] := by
    rw [List.filter_eq_nil_iff]
    intro d hd
    simp [Reading.isReading_of_mem_diagnostics hd]
  have hfound : (layoutOf table origin lines).found.filter (fun d => !d.isReading) =
      (layoutOf table origin lines).found := by
    rw [List.filter_eq_self]
    intro d hd
    simp [isReading_eq_false_of_mem_found hd]
  rw [diagnosticsOf_eq_mergeSort, diagnosticsOf_repairLines, StableSort.filter_mergeSort,
    List.filter_append, hreports, hfound, List.nil_append]

/-- On each line, the report of the line comes before what the repaired source
    has there as well. -/
theorem filter_line_diagnosticsOf (table : InstructionSet) (origin : UInt16) (front : List String)
    (text : String) (back : List String) :
    (diagnosticsOf (assembleLines table { origin } (front ++ text :: back))).filter
        (fun d => d.line = front.length + 1) =
      (Reading.ofLine (front.length + 1) text).diagnostic.toList ++
        (diagnosticsOf (assembleLines table { origin } (repairLines (front ++ text :: back)))).filter
          (fun d => d.line = front.length + 1) := by
  have hreport := Reading.filter_line_diagnostics 1 front text back
  rw [← Reading.ofLines_eq, Nat.add_comm 1] at hreport
  rw [diagnosticsOf_eq_mergeSort, diagnosticsOf_repairLines, StableSort.filter_mergeSort_byKey,
    StableSort.filter_mergeSort_byKey, List.filter_append, hreport]

/-- **Error recovery is transparent.** Without the reports of malformed lines,
    the diagnostics of a source are those of the repaired source. A malformed
    line has one report more than its repaired form, which comes first, and any
    other line has the same diagnostics as before. Repairing does not change the
    layout, to which a malformed line leaves the label that it starts with. -/
theorem assembleLines_repairLines (table : InstructionSet) (origin : UInt16) (lines : List String) :
    let found := diagnosticsOf (assembleLines table { origin } lines)
    let repaired := diagnosticsOf (assembleLines table { origin } (repairLines lines))
    found.filter (fun d => !d.isReading) = repaired ∧
    layoutOf table origin (repairLines lines) = layoutOf table origin lines ∧
    ∀ front text back, lines = front ++ text :: back →
      (∀ s, Statement.read (front.length + 1) text = .ok s →
        found.filter (fun d => d.line = front.length + 1) =
          repaired.filter (fun d => d.line = front.length + 1)) ∧
      ∀ d, Statement.read (front.length + 1) text = .error d →
        found.filter (fun d => d.line = front.length + 1) =
          d :: repaired.filter (fun d => d.line = front.length + 1) ∧
        (found.filter (fun d => d.line = front.length + 1)).filter (fun d => d.isReading) = [d] ∧
        LeavesLabel table origin front text back := by
  intro found repaired
  refine ⟨filter_isReading_diagnosticsOf table origin lines,
    layoutOf_repairLines table origin lines, ?_⟩
  intro front text back hlines
  have hothers : (repaired.filter fun d => d.line = front.length + 1).filter
      (fun d => d.isReading) = [] := by
    unfold repaired
    rw [← filter_isReading_diagnosticsOf, List.filter_eq_nil_iff]
    intro d hd
    simp only [List.mem_filter] at hd
    simpa using hd.1.2
  have hline : found.filter (fun d => d.line = front.length + 1) =
      (Reading.ofLine (front.length + 1) text).diagnostic.toList ++
        repaired.filter (fun d => d.line = front.length + 1) := by
    unfold found repaired
    rw [hlines]
    exact filter_line_diagnosticsOf table origin front text back
  refine ⟨?_, ?_⟩
  · intro s hread
    rw [hline, Reading.ofLine, hread]
    rfl
  · intro d hread
    rw [hline, Reading.ofLine, hread]
    refine ⟨rfl, ?_, leavesLabel_of_read_eq_error hread back⟩
    rw [List.filter_append, hothers]
    simp [Statement.isReading_of_read hread]

end Mos6502
