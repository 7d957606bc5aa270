import Mos6502.Statement.Basic

/-! # Reading Numbered Lines

    The lines of a source are read one by one and numbered as they come. What
    is read from a line carries its number, and a line that cannot be read
    leaves at most the label behind that it starts with.
-/

namespace Mos6502

open Text

namespace Fields

/-- The scan for the leading label ends where a label is read, and with the same
    word. -/
theorem leadingLabel_of_readLabel {text : String} {label : Option String} {c : Cursor}
    (h : readLabel (.start text.toList) = .ok (label, c)) : leadingLabel text = label := by
  unfold readLabel at h
  unfold leadingLabel
  simp only at h ⊢
  split at h
  · next column rest hnext =>
    -- behind the first word stands a colon, and the word has to be a label
    rw [hnext]
    cases hcheck : checkLabel (Cursor.start text.toList).skipBlanks.column
        ((Cursor.start text.toList).skipBlanks.run isLabelChar) with
    | error error =>
      rw [hcheck] at h
      simp [bind, Except.bind] at h
    | ok _ =>
      rw [hcheck] at h
      simp only [bind, Except.bind, pure, Except.pure, Except.ok.injEq, Prod.mk.injEq] at h
      exact (if_pos ⟨rfl, rfl⟩).trans h.1
  · next hnext =>
    -- something else ends the word
    obtain ⟨rfl, -⟩ := Prod.mk.inj (Except.ok.inj h)
    apply if_neg
    rintro ⟨hcolon, -⟩
    obtain ⟨rest, hrest⟩ := List.head?_eq_some_iff.mp hcolon
    apply hnext _ rest
    rw [← hrest]

/-- The label of a line that splits into its fields is the one it starts with. -/
theorem label_of_read {text : String} {fields : Fields} (h : read text = .ok fields) :
    fields.label = leadingLabel text := by
  unfold read at h
  cases hlabel : readLabel (.start text.toList) with
  | error error => simp [hlabel, bind, Except.bind] at h
  | ok found =>
    obtain ⟨label, c⟩ := found
    rw [leadingLabel_of_readLabel hlabel]
    simp only [hlabel, bind, Except.bind, pure, Except.pure] at h
    -- what stands behind the label has no influence on it
    split at h
    · simp at h
    · split at h
      · simp at h
      · rw [← Except.ok.inj h]

end Fields

namespace Statement

/-- What reading a line can come to: its fields are malformed, or there is no
    operation among them, or there is one, whose operand can be read or not. -/
theorem read_cases (n : Nat) (text : String) :
    (∃ error, Fields.read text = .error error ∧
      read n text = .error ⟨n, error.column, .fields error.fault⟩) ∨
    (∃ label comment, Fields.read text = .ok ⟨label, none, comment⟩ ∧
      read n text = .ok ⟨n, label, none, comment⟩) ∨
    (∃ label operation comment operand,
      Fields.read text = .ok ⟨label, some operation, comment⟩ ∧
      Operand.read operation.operand = .ok operand ∧
      read n text =
        .ok ⟨n, label, some ⟨operation.mnemonic, operand, operation.column⟩, comment⟩) ∨
    (∃ label operation comment fault,
      Fields.read text = .ok ⟨label, some operation, comment⟩ ∧
      Operand.read operation.operand = .error fault ∧
      read n text = .error ⟨n, operation.operandColumn, .operand fault⟩) := by
  unfold read
  cases hfields : Fields.read text with
  | error error => exact .inl ⟨error, rfl, rfl⟩
  | ok fields =>
    obtain ⟨label, operation, comment⟩ := fields
    cases operation with
    | none => exact .inr (.inl ⟨label, comment, rfl, rfl⟩)
    | some operation =>
      cases hoperand : Operand.read operation.operand with
      | ok operand =>
        refine .inr (.inr (.inl ⟨label, operation, comment, operand, rfl, hoperand, ?_⟩))
        simp [ofFields, readInstruction, hoperand, Except.map]
      | error fault =>
        refine .inr (.inr (.inr ⟨label, operation, comment, fault, rfl, hoperand, ?_⟩))
        simp [ofFields, readInstruction, hoperand, Except.map]

/-- A line that has been read is a statement without an operation, or with one
    whose operand can be read. -/
theorem read_eq_ok_cases {n : Nat} {text : String} {s : Statement} (h : read n text = .ok s) :
    (∃ label comment, Fields.read text = .ok ⟨label, none, comment⟩ ∧
      s = ⟨n, label, none, comment⟩) ∨
    (∃ label operation comment operand,
      Fields.read text = .ok ⟨label, some operation, comment⟩ ∧
      Operand.read operation.operand = .ok operand ∧
      s = ⟨n, label, some ⟨operation.mnemonic, operand, operation.column⟩, comment⟩) := by
  rcases read_cases n text with ⟨error, -, hread⟩ | ⟨label, comment, hfields, hread⟩ |
    ⟨label, operation, comment, operand, hfields, hoperand, hread⟩ |
    ⟨label, operation, comment, fault, -, -, hread⟩
  all_goals rw [hread] at h
  · simp at h
  · exact .inl ⟨label, comment, hfields, (Except.ok.inj h).symm⟩
  · exact .inr ⟨label, operation, comment, operand, hfields, hoperand, (Except.ok.inj h).symm⟩
  · simp at h

/-- A line that cannot be read has malformed fields, or an operand that cannot be
    read. -/
theorem read_eq_error_cases {n : Nat} {text : String} {d : Diagnostic}
    (h : read n text = .error d) :
    (∃ error, Fields.read text = .error error ∧ d = ⟨n, error.column, .fields error.fault⟩) ∨
    (∃ label operation comment fault,
      Fields.read text = .ok ⟨label, some operation, comment⟩ ∧
      Operand.read operation.operand = .error fault ∧
      d = ⟨n, operation.operandColumn, .operand fault⟩) := by
  rcases read_cases n text with ⟨error, hfields, hread⟩ | ⟨label, comment, -, hread⟩ |
    ⟨label, operation, comment, operand, -, -, hread⟩ |
    ⟨label, operation, comment, fault, hfields, hoperand, hread⟩
  all_goals rw [hread] at h
  · exact .inl ⟨error, hfields, (Except.error.inj h).symm⟩
  · simp at h
  · simp at h
  · exact .inr ⟨label, operation, comment, fault, hfields, hoperand, (Except.error.inj h).symm⟩

/-- What a statement takes over from its line: the number and the label. -/
theorem exists_fields_of_read {n : Nat} {text : String} {s : Statement}
    (h : read n text = .ok s) :
    ∃ fields, Fields.read text = .ok fields ∧ s.line = n ∧ s.label = fields.label := by
  rcases read_eq_ok_cases h with ⟨label, comment, hfields, rfl⟩ |
    ⟨label, operation, comment, operand, hfields, -, rfl⟩
  · exact ⟨_, hfields, rfl, rfl⟩
  · exact ⟨_, hfields, rfl, rfl⟩

theorem line_of_read {n : Nat} {text : String} {s : Statement} (h : read n text = .ok s) :
    s.line = n := by
  obtain ⟨fields, -, hline, -⟩ := exists_fields_of_read h
  exact hline

theorem label_of_read {n : Nat} {text : String} {s : Statement} (h : read n text = .ok s) :
    s.label = Fields.leadingLabel text := by
  obtain ⟨fields, hfields, -, hlabel⟩ := exists_fields_of_read h
  rw [hlabel, Fields.label_of_read hfields]

/-- The diagnostic of a line that cannot be read carries its number, and it is
    about the text of the line alone. -/
theorem line_of_read_eq_error {n : Nat} {text : String} {d : Diagnostic}
    (h : read n text = .error d) :
    d.line = n ∧ ((∃ fault, d.fault = .fields fault) ∨ (∃ fault, d.fault = .operand fault)) := by
  rcases read_eq_error_cases h with ⟨error, -, rfl⟩ |
    ⟨label, operation, comment, fault, -, -, rfl⟩
  · exact ⟨rfl, .inl ⟨_, rfl⟩⟩
  · exact ⟨rfl, .inr ⟨_, rfl⟩⟩

/-- What is recovered is a label without an instruction. -/
theorem recover_eq_some {n : Nat} {text : String} {s : Statement}
    (h : recover n text = some s) : s.line = n ∧ s.instruction = none := by
  unfold recover at h
  cases hlabel : Fields.leadingLabel text with
  | none => simp [hlabel] at h
  | some label =>
    simp only [hlabel, Option.map_some, Option.some.injEq] at h
    rw [← h]
    exact ⟨rfl, rfl⟩

end Statement

namespace Reading

/-- Reads lines that are numbered from `first` on. -/
def ofLinesFrom (first : Nat) (lines : List String) : List Reading :=
  (lines.zipIdx first).map fun (text, line) => ofLine line text

theorem ofLines_eq (lines : List String) : ofLines lines = ofLinesFrom 1 lines := rfl

@[simp] theorem ofLinesFrom_nil (first : Nat) : ofLinesFrom first [] = [] := rfl

@[simp] theorem ofLinesFrom_cons (first : Nat) (text : String) (lines : List String) :
    ofLinesFrom first (text :: lines) = ofLine first text :: ofLinesFrom (first + 1) lines := rfl

theorem ofLinesFrom_append (first : Nat) (lines others : List String) :
    ofLinesFrom first (lines ++ others) =
      ofLinesFrom first lines ++ ofLinesFrom (first + lines.length) others := by
  unfold ofLinesFrom
  rw [List.zipIdx_append, List.map_append]

@[simp] theorem statements_nil : statements [] = [] := rfl

@[simp] theorem diagnostics_nil : diagnostics [] = [] := rfl

@[simp] theorem statements_cons (r : Reading) (readings : List Reading) :
    statements (r :: readings) = r.statement.toList ++ statements readings := by
  cases h : r.statement <;> simp [statements, h]

@[simp] theorem diagnostics_cons (r : Reading) (readings : List Reading) :
    diagnostics (r :: readings) = r.diagnostic.toList ++ diagnostics readings := by
  cases h : r.diagnostic <;> simp [diagnostics, h]

theorem statements_append (readings others : List Reading) :
    statements (readings ++ others) = statements readings ++ statements others :=
  List.filterMap_append

theorem diagnostics_append (readings others : List Reading) :
    diagnostics (readings ++ others) = diagnostics readings ++ diagnostics others :=
  List.filterMap_append

/-- A line either reads as a statement or is reported, and then at most its
    label is left. -/
theorem ofLine_cases (line : Nat) (text : String) :
    (∃ s, Statement.read line text = .ok s ∧ ofLine line text = ⟨some s, none⟩) ∨
    (∃ d, Statement.read line text = .error d ∧
      ofLine line text = ⟨Statement.recover line text, some d⟩) := by
  cases h : Statement.read line text with
  | ok s => exact .inl ⟨s, rfl, by simp [ofLine, h]⟩
  | error d => exact .inr ⟨d, rfl, by simp [ofLine, h]⟩

/-- A line that starts with a label has a statement with this label, recovered
    if need be. -/
theorem exists_statement_of_leadingLabel {n : Nat} {text : String} {name : String}
    (h : Fields.leadingLabel text = some name) :
    ∃ s, (ofLine n text).statement = some s ∧ s.line = n ∧ s.label = some name := by
  rcases ofLine_cases n text with ⟨s, hread, hline⟩ | ⟨d, -, hline⟩
  · refine ⟨s, by rw [hline], Statement.line_of_read hread, ?_⟩
    rw [Statement.label_of_read hread, h]
  · refine ⟨⟨n, some name, none, none⟩, ?_, rfl, rfl⟩
    rw [hline]
    simp [Statement.recover, h]

theorem line_of_statement {line : Nat} {text : String} {s : Statement}
    (hs : (ofLine line text).statement = some s) : s.line = line := by
  rcases ofLine_cases line text with ⟨t, hread, h⟩ | ⟨d, -, h⟩
  · rw [h] at hs
    obtain rfl := Option.some.inj hs
    exact Statement.line_of_read hread
  · rw [h] at hs
    exact (Statement.recover_eq_some hs).1

theorem read_of_diagnostic {line : Nat} {text : String} {d : Diagnostic}
    (hd : (ofLine line text).diagnostic = some d) : Statement.read line text = .error d := by
  rcases ofLine_cases line text with ⟨s, -, h⟩ | ⟨e, hread, h⟩
  · simp [h] at hd
  · simp only [h, Option.some.injEq] at hd
    rw [hread, hd]

theorem line_of_diagnostic {line : Nat} {text : String} {d : Diagnostic}
    (hd : (ofLine line text).diagnostic = some d) : d.line = line :=
  (Statement.line_of_read_eq_error (read_of_diagnostic hd)).1

theorem le_line_of_mem_statements {first : Nat} {lines : List String} {s : Statement}
    (hs : s ∈ statements (ofLinesFrom first lines)) : first ≤ s.line := by
  induction lines generalizing first with
  | nil => simp at hs
  | cons text lines ih =>
    rw [ofLinesFrom_cons, statements_cons] at hs
    rcases List.mem_append.mp hs with hs | hs
    · exact Nat.le_of_eq (line_of_statement (Option.mem_toList.mp hs)).symm
    · exact Nat.le_of_succ_le (ih hs)

theorem le_line_of_mem_diagnostics {first : Nat} {lines : List String} {d : Diagnostic}
    (hd : d ∈ diagnostics (ofLinesFrom first lines)) : first ≤ d.line := by
  induction lines generalizing first with
  | nil => simp at hd
  | cons text lines ih =>
    rw [ofLinesFrom_cons, diagnostics_cons] at hd
    rcases List.mem_append.mp hd with hd | hd
    · exact Nat.le_of_eq (line_of_diagnostic (Option.mem_toList.mp hd)).symm
    · exact Nat.le_of_succ_le (ih hd)

theorem pairwise_line_statements (first : Nat) (lines : List String) :
    (statements (ofLinesFrom first lines)).Pairwise fun s t => s.line < t.line := by
  induction lines generalizing first with
  | nil => exact .nil
  | cons text lines ih =>
    rw [ofLinesFrom_cons, statements_cons]
    cases hs : (ofLine first text).statement with
    | none => exact ih (first + 1)
    | some s =>
      -- every later statement stands on a later line
      apply List.Pairwise.cons
      · intro t ht
        rw [line_of_statement hs]
        exact le_line_of_mem_statements ht
      · exact ih (first + 1)

end Reading

/-! ### Sources without a malformed line -/

namespace Statement

/-- Every line, numbered from `first` on, reads as the statement in its
    place. -/
def ReadAs (first : Nat) (lines : List String) (statements : List Statement) : Prop :=
  (lines.zipIdx first).map (fun (text, line) => read line text) = statements.map .ok

@[simp] theorem readAs_nil {first : Nat} {statements : List Statement} :
    ReadAs first [] statements ↔ statements = [] := by
  simp [ReadAs, eq_comm]

theorem readAs_cons_iff {first : Nat} {text : String} {lines : List String}
    {statements : List Statement} :
    ReadAs first (text :: lines) statements ↔
      ∃ s rest, statements = s :: rest ∧ read first text = .ok s ∧
        ReadAs (first + 1) lines rest := by
  unfold ReadAs
  rw [List.zipIdx_cons, List.map_cons]
  cases statements with
  | nil => simp
  | cons s rest =>
    rw [List.map_cons, List.cons.injEq]
    constructor
    · rintro ⟨hs, hrest⟩
      exact ⟨s, rest, rfl, hs, hrest⟩
    · rintro ⟨t, rest', heq, hs, hrest⟩
      obtain ⟨rfl, rfl⟩ := List.cons.inj heq
      exact ⟨hs, hrest⟩

/-- The lines fix the statements. -/
theorem ReadAs.unique {first : Nat} {lines : List String} {l m : List Statement}
    (hl : ReadAs first lines l) (hm : ReadAs first lines m) : l = m := by
  induction lines generalizing first l m with
  | nil => rw [readAs_nil.mp hl, readAs_nil.mp hm]
  | cons text lines ih =>
    -- reading a line has one result
    obtain ⟨s, restl, rfl, hs, hrestl⟩ := readAs_cons_iff.mp hl
    obtain ⟨t, restm, rfl, ht, hrestm⟩ := readAs_cons_iff.mp hm
    rw [hs, Except.ok.injEq] at ht
    rw [ht, ih hrestl hrestm]

/-- If every line can be read, nothing is recovered and nothing reported. -/
theorem ReadAs.readings {first : Nat} {lines : List String} {statements : List Statement}
    (h : ReadAs first lines statements) :
    Reading.statements (Reading.ofLinesFrom first lines) = statements ∧
      Reading.diagnostics (Reading.ofLinesFrom first lines) = [] := by
  induction lines generalizing first statements with
  | nil =>
    rw [readAs_nil.mp h]
    exact ⟨rfl, rfl⟩
  | cons text lines ih =>
    obtain ⟨s, rest, rfl, hs, hrest⟩ := readAs_cons_iff.mp h
    obtain ⟨hstatements, hdiagnostics⟩ := ih hrest
    simp [Reading.ofLine, hs, hstatements, hdiagnostics]

theorem ReadAs.pairwise_line {first : Nat} {lines : List String} {statements : List Statement}
    (h : ReadAs first lines statements) :
    statements.Pairwise fun s t => s.line < t.line := by
  rw [← h.readings.1]
  exact Reading.pairwise_line_statements first lines

end Statement

end Mos6502
