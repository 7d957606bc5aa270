import Mos6502.Opcode.Nmos
import Mos6502.Proofs.Acceptance
import Mos6502.Proofs.Grammar
import Mos6502.Proofs.Substance

/-! # Letter Case

    Labels are told apart by the case of their letters, and nothing else is. A
    line in upper case has the form of the line itself (`Fields.ReadsAs.upper`),
    because the grammar of lines never asks for more of a letter than that it is
    one, and an operand is read in upper case anyway. So two lines that differ
    in case only, and not in the label they start with, are read as the same
    statement but for the comment, or refused in the same column for a fault of
    the same kind (`Reading.Alike`). No later stage can tell them apart.
-/

namespace Mos6502

open Text

namespace Text

/-! ### Characters in upper case -/

/-- Upper case changes letters only, and into letters. -/
theorem toUpper_eq_or_isAlpha (c : Char) : c.toUpper = c ∨ c.isAlpha ∧ c.toUpper.isAlpha := by
  by_cases hlower : c.isLower
  · have halpha : c.isAlpha := by simp [Char.isAlpha, hlower]
    exact .inr ⟨halpha, by rwa [Char.isAlpha_toUpper_eq_isAlpha]⟩
  · exact .inl (Char.toUpper_eq_of_not_isLower hlower)

/-- What is the same of all letters is the same in upper case. -/
theorem apply_toUpper {β : Type} {f : Char → β} {b : β} (h : ∀ c, c.isAlpha → f c = b) (c : Char) :
    f c.toUpper = f c := by
  rcases toUpper_eq_or_isAlpha c with hsame | ⟨halpha, hupper⟩
  · rw [hsame]
  · rw [h _ hupper, h c halpha]

@[simp] theorem isBlank_toUpper (c : Char) : isBlank c.toUpper = isBlank c :=
  apply_toUpper (fun _ h => isBlank_eq_false_of_isAlphanum (Bool.or_eq_true_iff.mpr (.inl h))) c

@[simp] theorem isAlphanum_toUpper (c : Char) : c.toUpper.isAlphanum = c.isAlphanum :=
  apply_toUpper (fun _ h => Bool.or_eq_true_iff.mpr (.inl h)) c

@[simp] theorem utf8Size_toUpper (c : Char) : c.toUpper.utf8Size = c.utf8Size := by
  refine apply_toUpper (f := Char.utf8Size) (b := 1) (fun c h => ?_) c
  rw [Char.utf8Size_eq_one_iff, UInt32.le_iff_toNat_le, Char.toNat_val]
  rw [isAlpha_iff] at h
  show c.toNat ≤ 127
  omega

/-- A character that is no letter is written in one way only. -/
theorem toUpper_eq_iff {c d : Char} (hd : d.isAlpha = false) : c.toUpper = d ↔ c = d := by
  rcases toUpper_eq_or_isAlpha c with hsame | ⟨halpha, hupper⟩
  · rw [hsame]
  · constructor
    · rintro rfl
      exact absurd hupper (by simp [hd])
    · rintro rfl
      exact absurd halpha (by simp [hd])

/-! ### Texts in upper case -/

variable {cs : List Char} {accept : Char → Bool}

@[simp] theorem utf8Width_map_toUpper (cs : List Char) :
    utf8Width (cs.map Char.toUpper) = utf8Width cs := by
  induction cs with
  | nil => rfl
  | cons c cs ih => rw [List.map_cons, utf8Width_cons, utf8Width_cons, ih, utf8Size_toUpper]

@[simp] theorem toUpper_comp_toUpper : Char.toUpper ∘ Char.toUpper = Char.toUpper :=
  funext Char.toUpper_toUpper_eq_toUpper

@[simp] theorem upper_ofList (cs : List Char) :
    upper (.ofList cs) = .ofList (cs.map Char.toUpper) := by
  rw [upper, String.toList_ofList]

theorem isBlank_comp_toUpper : isBlank ∘ Char.toUpper = isBlank := funext isBlank_toUpper

theorem trim_map_toUpper (cs : List Char) :
    trim (cs.map Char.toUpper) = (trim cs).map Char.toUpper := by
  simp only [trim, trimEnd, trimStart, List.dropWhile_map, ← List.map_reverse,
    isBlank_comp_toUpper]

theorem IsBlanks.upper (h : IsBlanks cs) : IsBlanks (cs.map Char.toUpper) := by
  simpa [IsBlanks] using h

theorem Stops.upper (haccept : ∀ c, accept c.toUpper = accept c) (h : Stops accept cs) :
    Stops accept (cs.map Char.toUpper) := by
  intro c hc
  rw [List.head?_map, Option.mem_def, Option.map_eq_some_iff] at hc
  obtain ⟨d, hd, rfl⟩ := hc
  rw [haccept, h d hd]

end Text

theorem Operand.read_upper (text : String) : read (upper text) = read text := by
  simp only [read, toList_upper, trim_map_toUpper, List.map_map, toUpper_comp_toUpper]

namespace Fields

/-! ### Fields in upper case -/

@[simp] theorem isWordChar_toUpper (c : Char) : isWordChar c.toUpper = isWordChar c := by
  refine apply_toUpper (b := true) (fun c h => ?_) c
  exact isWordChar_of_isLabelChar (isLabelChar_of_isAlphanum (Bool.or_eq_true_iff.mpr (.inl h)))

@[simp] theorem isLabelChar_toUpper (c : Char) : isLabelChar c.toUpper = isLabelChar c := by
  refine apply_toUpper (b := true) (fun c h => ?_) c
  exact isLabelChar_of_isAlphanum (Bool.or_eq_true_iff.mpr (.inl h))

@[simp] theorem isMnemonic_map_toUpper_iff {word : List Char} :
    isMnemonic (word.map Char.toUpper) ↔ isMnemonic word := by
  simp [isMnemonic_iff, Char.isAlpha_toUpper_eq_isAlpha]

theorem IsWord.upper {accept : Char → Bool} {word : List Char}
    (haccept : ∀ c, accept c.toUpper = accept c) (h : IsWord accept word) :
    IsWord accept (word.map Char.toUpper) := by
  refine ⟨by simpa using h.1, ?_⟩
  simpa [haccept] using h.2

theorem all_isAlphanum_map_toUpper (word : List Char) :
    (word.map Char.toUpper).all Char.isAlphanum = word.all Char.isAlphanum := by
  rw [List.all_map]
  congr 1
  exact funext isAlphanum_toUpper

end Fields

/-- The operation with its operand in upper case. The mnemonic already is. -/
def Operation.upper (operation : Operation) : Operation :=
  { operation with operand := Text.upper operation.operand }

/-- Fields in upper case. -/
def Fields.upper (fields : Fields) : Fields where
  label := fields.label.map Text.upper
  operation := fields.operation.map Operation.upper
  comment := fields.comment.map Text.upper

/-- The fault of a line that is written in upper case. -/
def FieldFault.upper : FieldFault → FieldFault
  | .emptyLabel => .emptyLabel
  | .invalidLabel label => .invalidLabel (Text.upper label)
  | .invalidMnemonic word => .invalidMnemonic (Text.upper word)
  | .trailingText text => .trailingText (Text.upper text)

namespace Fields

/-- What reading comes to in upper case. Columns stay where they are. -/
def upperResult : Except FieldError Fields → Except FieldError Fields
  | .ok fields => .ok fields.upper
  | .error error => .error { error with fault := error.fault.upper }

variable {front middle tail cs : List Char} {label comment : Option String}
  {operation : Option Operation} {column : Nat}

theorem IsLabel.upper {label : String} (h : IsLabel label) : IsLabel (Text.upper label) := by
  refine ⟨by simpa using h.1, ?_⟩
  rw [toList_upper, all_isAlphanum_map_toUpper]
  exact h.2

theorem LabelPart.upper (h : LabelPart front label) :
    LabelPart (front.map Char.toUpper) (label.map Text.upper) := by
  cases h with
  | absent hblanks => exact .absent hblanks.upper
  | present hblanks hlabel hmore =>
    have hpart := LabelPart.present hblanks.upper hlabel.upper hmore.upper
    simpa using hpart

theorem OperationPart.upper (h : OperationPart column middle operation) :
    OperationPart column (middle.map Char.toUpper) (operation.map Operation.upper) := by
  cases h with
  | absent => exact .absent
  | bare hword hblanks =>
    have hpart : OperationPart column _ _ := .bare (isMnemonic_map_toUpper_iff.mpr hword)
      hblanks.upper
    simpa [Operation.upper, Text.upper] using hpart
  | full hword hgap hne hoperand hblanks =>
    have hpart : OperationPart column _ _ := .full (isMnemonic_map_toUpper_iff.mpr hword)
      hgap.upper (by simpa using hne) (hoperand.upper isWordChar_toUpper) hblanks.upper
    simpa [Operation.upper] using hpart

theorem CommentPart.upper (h : CommentPart tail comment) :
    CommentPart (tail.map Char.toUpper) (comment.map Text.upper) := by
  cases h with
  | absent => exact .absent
  | @present text =>
    have hpart := @CommentPart.present (text.map Char.toUpper)
    simpa using hpart

theorem IsTrailing.upper (h : IsTrailing cs) : IsTrailing (cs.map Char.toUpper) := by
  obtain ⟨⟨c, hc, hstart⟩, d, hd, hend⟩ := h
  refine ⟨⟨c.toUpper, ?_, by simpa using hstart⟩, d.toUpper, ?_, by simpa using hend⟩
  · rw [List.head?_map, hc, Option.map_some]
  · rw [List.getLast?_map, hd, Option.map_some]

/-- **A line in upper case has the same form.** -/
theorem ReadsAs.upper {result : Except FieldError Fields} (h : ReadsAs cs result) :
    ReadsAs (cs.map Char.toUpper) (upperResult result) := by
  cases h with
  | fields hlabel hoperation hcomment =>
    rw [← utf8Width_map_toUpper] at hoperation
    have hreads := ReadsAs.fields hlabel.upper hoperation.upper hcomment.upper
    simpa [upperResult, Fields.upper] using hreads
  | @emptyLabel blanks rest hblanks =>
    have hreads := @ReadsAs.emptyLabel _ (rest.map Char.toUpper) hblanks.upper
    simpa [upperResult, FieldFault.upper] using hreads
  | @invalidLabel blanks word rest hblanks hword hinvalid =>
    have hreads := @ReadsAs.invalidLabel _ _ (rest.map Char.toUpper) hblanks.upper
      (hword.upper isLabelChar_toUpper) (by rwa [all_isAlphanum_map_toUpper])
    simpa [upperResult, FieldFault.upper] using hreads
  | @invalidMnemonic front word rest label hlabel hword hinvalid hcolon hrest =>
    have hcolon' : label.map Text.upper = none → ':' ∉ word.map Char.toUpper := by
      intro hnone hmem
      obtain ⟨c, hc, hupper⟩ := List.mem_map.mp hmem
      rw [toUpper_eq_iff (by decide)] at hupper
      exact hcolon (Option.map_eq_none_iff.mp hnone) (hupper ▸ hc)
    have hreads := ReadsAs.invalidMnemonic hlabel.upper (hword.upper isWordChar_toUpper)
      (by rwa [isMnemonic_map_toUpper_iff]) hcolon' (hrest.upper isWordChar_toUpper)
    simpa [upperResult, FieldFault.upper] using hreads
  | trailingText hlabel hword hgap hne hoperand hbetween hne' htrailing hblanks =>
    have hreads := ReadsAs.trailingText hlabel.upper (isMnemonic_map_toUpper_iff.mpr hword)
      hgap.upper (by simpa using hne) (hoperand.upper isWordChar_toUpper) hbetween.upper
      (by simpa using hne') htrailing.upper hblanks.upper
    simpa [upperResult, FieldFault.upper] using hreads

/-- So it is read as what the line is read as, in upper case. -/
theorem read_upper (text : String) : read (Text.upper text) = upperResult (read text) := by
  rw [read_eq_iff, toList_upper]
  exact (read_eq_iff.mp rfl).upper

end Fields

/-- What a diagnostic says apart from its wording: the kind of the fault, and
    the line and the column in which it was found. -/
def Diagnostic.finding (d : Diagnostic) : FaultKind × Nat × Nat := (d.kind, d.line, d.column)

namespace Statement

/-- The statement with its texts in upper case. -/
def upper (s : Statement) : Statement :=
  { s with label := s.label.map Text.upper, comment := s.comment.map Text.upper }

variable {n : Nat} {text other : String}

/-- A statement in upper case is the same instruction, -/
theorem read_upper_of_eq_ok {s : Statement} (h : read n text = .ok s) :
    read n (Text.upper text) = .ok s.upper := by
  rcases read_eq_ok_cases h with ⟨label, comment, hfields, rfl⟩ |
    ⟨label, operation, comment, operand, hfields, hoperand, rfl⟩
  · rw [read, Fields.read_upper, hfields]
    rfl
  · rw [read, Fields.read_upper, hfields]
    simp [Fields.upperResult, Fields.upper, Operation.upper, ofFields, readInstruction,
      Operand.read_upper, hoperand, Except.map, upper]

/-- and a line that cannot be read cannot be read in upper case, for a fault of
    the same kind in the same column. -/
theorem read_upper_of_eq_error {d : Diagnostic} (h : read n text = .error d) :
    ∃ e, read n (Text.upper text) = .error e ∧ e.finding = d.finding := by
  rcases read_eq_error_cases h with ⟨error, hfields, rfl⟩ |
    ⟨label, operation, comment, fault, hfields, hoperand, rfl⟩
  · rw [read, Fields.read_upper, hfields]
    exact ⟨_, rfl, rfl⟩
  · rw [read, Fields.read_upper, hfields]
    simp [Fields.upperResult, Fields.upper, Operation.upper, ofFields, readInstruction,
      Operand.read_upper, hoperand, Except.map]

/-- The label decides what upper case leaves open, apart from the comment. -/
theorem withoutComment_eq_of_upper_eq {s t : Statement} (h : s.upper = t.upper)
    (hlabel : s.label = t.label) : s.withoutComment = t.withoutComment := by
  obtain ⟨hline, -, hinstruction, -⟩ := Statement.mk.inj h
  rw [withoutComment, withoutComment, hlabel, hline, hinstruction]

end Statement

/-! ### Lines that differ in case -/

/-- Two lines that differ in the case of letters only, and not in the label that
    they start with. -/
structure SameUpToCase (text other : String) : Prop where
  /-- In upper case they are the same. -/
  upper_eq : upper text = upper other
  /-- They start with the same label, if with any. -/
  leadingLabel_eq : Fields.leadingLabel text = Fields.leadingLabel other

/-- Two lines have been read alike if what is left of them is the same but for
    the comment, and if they are refused, then for faults of one kind in one
    column. -/
structure Reading.Alike (reading other : Reading) : Prop where
  /-- The same statements, -/
  statement_eq : reading.statement.map Statement.withoutComment =
    other.statement.map Statement.withoutComment
  /-- and the same findings. -/
  finding_eq : reading.diagnostic.map Diagnostic.finding = other.diagnostic.map Diagnostic.finding

/-- Lines that differ in case are read alike. -/
theorem SameUpToCase.alike {text other : String} (h : SameUpToCase text other) (n : Nat) :
    Reading.Alike (.ofLine n text) (.ofLine n other) := by
  have hupper := h.upper_eq
  rcases Reading.ofLine_cases n text with ⟨s, hs, hleft⟩ | ⟨d, hd, hleft⟩ <;>
    rcases Reading.ofLine_cases n other with ⟨t, ht, hright⟩ | ⟨e, he, hright⟩
  all_goals rw [hleft, hright]
  · have hsame := Statement.read_upper_of_eq_ok hs
    rw [hupper, Statement.read_upper_of_eq_ok ht, Except.ok.injEq] at hsame
    have hlabel : s.label = t.label := by
      rw [Statement.label_of_read hs, Statement.label_of_read ht, h.leadingLabel_eq]
    exact ⟨congrArg some (Statement.withoutComment_eq_of_upper_eq hsame.symm hlabel), rfl⟩
  · -- in upper case, one of them would be read and refused at once
    obtain ⟨fault, hfault, -⟩ := Statement.read_upper_of_eq_error he
    rw [← hupper, Statement.read_upper_of_eq_ok hs] at hfault
    simp at hfault
  · obtain ⟨fault, hfault, -⟩ := Statement.read_upper_of_eq_error hd
    rw [hupper, Statement.read_upper_of_eq_ok ht] at hfault
    simp at hfault
  · obtain ⟨fault, hfault, hfinding⟩ := Statement.read_upper_of_eq_error hd
    obtain ⟨fault', hfault', hfinding'⟩ := Statement.read_upper_of_eq_error he
    rw [hupper, hfault', Except.error.injEq] at hfault
    refine ⟨?_, ?_⟩
    · rw [Statement.recover, Statement.recover, h.leadingLabel_eq]
    · rw [Option.map_some, Option.map_some, ← hfinding, ← hfinding', hfault]

theorem SameUpToCase.forall₂_alike {lines others : List String}
    (h : List.Forall₂ SameUpToCase lines others) (first : Nat) :
    List.Forall₂ Reading.Alike (Reading.ofLinesFrom first lines)
      (Reading.ofLinesFrom first others) := by
  induction h generalizing first with
  | nil => exact .nil
  | cons hline hlines ih => exact .cons (hline.alike first) (ih (first + 1))

/-! ### What comes of lines that are read alike -/

namespace Reading

variable {readings others : List Reading}

theorem substance_eq_of_alike (h : List.Forall₂ Alike readings others) :
    Statement.substance (statements readings) = Statement.substance (statements others) := by
  induction h with
  | nil => rfl
  | @cons reading other readings others hline hlines ih =>
    have hsame := hline.statement_eq
    rw [statements_cons, statements_cons, Statement.substance_append, Statement.substance_append,
      ih]
    congr 1
    cases hr : reading.statement <;> cases ho : other.statement
    all_goals simp only [hr, ho, Option.map_none, Option.map_some, reduceCtorEq,
      Option.some.injEq] at hsame
    · rfl
    · exact Statement.substance_singleton_eq_of_withoutComment_eq hsame

theorem findings_eq_of_alike (h : List.Forall₂ Alike readings others) :
    (diagnostics readings).map Diagnostic.finding =
      (diagnostics others).map Diagnostic.finding := by
  induction h with
  | nil => rfl
  | cons hline hlines ih =>
    have hsame := congrArg Option.toList hline.finding_eq
    rw [Option.toList_map, Option.toList_map] at hsame
    rw [diagnostics_cons, diagnostics_cons, List.map_append, List.map_append, hsame, ih]

end Reading

namespace Scan

/-- Lines that are read alike leave a scan in the same state, and it finds the
    same in them. -/
theorem atReading_of_alike {reading other : Reading} (h : Reading.Alike reading other)
    (table : InstructionSet) (scan : Scan) :
    (scan.atReading table reading).1 = (scan.atReading table other).1 ∧
      (scan.atReading table reading).2.map Diagnostic.finding =
        (scan.atReading table other).2.map Diagnostic.finding := by
  have hsame := h.statement_eq
  have hfinding := congrArg Option.toList h.finding_eq
  rw [Option.toList_map, Option.toList_map] at hfinding
  unfold atReading
  cases hr : reading.statement <;> cases ho : other.statement
  all_goals simp only [hr, ho, Option.map_none, Option.map_some, reduceCtorEq,
    Option.some.injEq] at hsame
  · exact ⟨rfl, hfinding⟩
  · next s t =>
    -- a scan does not look at comments
    have hstep : scan.atStatement table s = scan.atStatement table t := by
      show scan.atStatement table s.withoutComment = scan.atStatement table t.withoutComment
      rw [hsame]
    simp only [hstep, List.map_append, hfinding, and_self]

theorem findings_eq_of_alike {readings others : List Reading}
    (h : List.Forall₂ Reading.Alike readings others) (table : InstructionSet) (scan : Scan) :
    (diagnostics table scan readings).map Diagnostic.finding =
      (diagnostics table scan others).map Diagnostic.finding := by
  induction h generalizing scan with
  | nil => rfl
  | cons hline hlines ih =>
    obtain ⟨hstate, hfindings⟩ := atReading_of_alike hline table scan
    rw [diagnostics, diagnostics, List.map_append, List.map_append, hfindings, hstate, ih]

end Scan

/-- **Letter case does not matter outside of labels.** Sources whose lines
    differ in case only, and not in their labels, assemble to the same program,
    or are both refused for faults of the same kinds in the same places. -/
theorem assembleLines_upToCase (table : InstructionSet) (options : Options)
    {lines others : List String} (h : List.Forall₂ SameUpToCase lines others) :
    (∃ program, assembleLines table options lines = .ok program ∧
      assembleLines table options others = .ok program) ∨
    ∃ diagnostics diagnostics', assembleLines table options lines = .error diagnostics ∧
      assembleLines table options others = .error diagnostics' ∧
      diagnostics.map Diagnostic.finding = diagnostics'.map Diagnostic.finding := by
  have halike := SameUpToCase.forall₂_alike h 1
  have hfindings := Scan.findings_eq_of_alike halike table (.start options.origin)
  cases hlines : assembleLines table options lines with
  | ok program =>
    obtain ⟨statements, hread, -⟩ := exists_image_of_assembleLines_eq_ok hlines
    -- no line has been refused, on either side
    have hnone : Reading.diagnostics (Reading.ofLinesFrom 1 lines) = [] := hread.readings.2
    have hnone' := Reading.findings_eq_of_alike halike
    rw [hnone, List.map_nil, eq_comm, List.map_eq_nil_iff] at hnone'
    have hsame : Reading.SameSubstance (Reading.ofLines lines) (Reading.ofLines others) :=
      ⟨hnone.trans hnone'.symm, Reading.substance_eq_of_alike halike⟩
    refine .inl ⟨program, rfl, ?_⟩
    rw [← hlines, assembleLines, assembleLines, Assembly.run_eq_of_sameSubstance hsame]
  | error diagnostics =>
    obtain ⟨hne, hreport⟩ :=
      assembleLines_eq_error_iff.mp hlines
    have hne' : Scan.ofLines table options.origin others ≠ [] := by
      intro hnil
      rw [← List.map_eq_nil_iff (f := Diagnostic.finding)] at hnil
      exact hne (List.map_eq_nil_iff.mp (hfindings.trans hnil))
    refine .inr ⟨diagnostics, _, rfl,
      assembleLines_eq_error_iff.mpr ⟨hne', rfl⟩, ?_⟩
    rw [hreport]
    -- a limit cuts both off at the same place
    cases options.maxDiagnostics with
    | none => exact hfindings
    | some limit =>
      simp only [List.map_take]
      exact congrArg (List.take limit) hfindings

/-- A loop in lower case and in upper case, its label apart. -/
theorem assembleLines_upToCase_loop :
    List.Forall₂ SameUpToCase ["loop: dex", "bne *$fd ; Again"] ["loop: DEX", "BNE *$FD ; again"] ∧
      ∃ program,
        assembleLines .nmos { origin := 0x0600 } ["loop: dex", "bne *$fd ; Again"] = .ok program ∧
        assembleLines .nmos { origin := 0x0600 } ["loop: DEX", "BNE *$FD ; again"] =
          .ok program := by
  have hsame : List.Forall₂ SameUpToCase ["loop: dex", "bne *$fd ; Again"]
      ["loop: DEX", "BNE *$FD ; again"] :=
    .cons ⟨by decide +kernel, by decide +kernel⟩
      (.cons ⟨by decide +kernel, by decide +kernel⟩ .nil)
  obtain ⟨program, hprogram, -⟩ := @exists_program_of_ofLines_eq_nil .nmos { origin := 0x0600 }
    ["loop: dex", "bne *$fd ; Again"] (by decide +kernel)
  rcases assembleLines_upToCase .nmos { origin := 0x0600 } hsame with h | ⟨ds, es, hds, -⟩
  · exact ⟨hsame, h⟩
  · rw [hprogram] at hds
    simp at hds

end Mos6502
