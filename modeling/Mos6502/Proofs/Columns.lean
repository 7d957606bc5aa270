import Mos6502.Opcode.Nmos
import Mos6502.Proofs.Findings
import Mos6502.Proofs.Grammar

/-! # Columns of Diagnostics

    The column of a diagnostic is that of its offending token, except for the
    labels that are refused when they are laid out: their diagnostics carry
    column zero, wherever the label stands (`column_of_assembleLines_eq_error`).

    Where the token starts is said by the grammar of lines (`Fault.StartsAt`),
    which leaves no choice (`Fault.StartsAt.unique`). A reading hands the columns
    of mnemonics and operands on, and drops that of the label.
-/

namespace Mos6502

open Text Fields

/-! ### Offending tokens -/

/-- The mnemonic that was looked up. -/
def LookupFault.mnemonic : LookupFault → String
  | unknownMnemonic mnemonic | unsupportedMode mnemonic _ => mnemonic

theorem OpcodeTable.mnemonic_of_lookup {table : OpcodeTable} {mnemonic : String} {mode : Mode}
    {fault : LookupFault} (h : table.lookup mnemonic mode = .error fault) :
    fault.mnemonic = mnemonic := by
  rcases lookup_cases table mnemonic mode with
    ⟨_, -, -, hlookup⟩ | ⟨-, -, hlookup⟩ | ⟨-, -, hlookup⟩
  · simp [hlookup] at h
  · rw [← Except.error.inj (hlookup.symm.trans h)]
    rfl
  · rw [← Except.error.inj (hlookup.symm.trans h)]
    rfl

namespace Fault

/-- The label that cannot be laid out. -/
def label? : Fault → Option String
  | placement (.duplicateLabel label _) | placement (.labelPastEnd label) => some label
  | _ => none

/-- The fault is one of the instruction with the mnemonic. -/
def IsOfMnemonic (mnemonic : String) : Fault → Prop
  | lookup fault => fault.mnemonic = mnemonic
  | width _ => True
  | placement (.instructionPastEnd name _) => name = mnemonic
  | _ => False

/-- **The offending token** of a line stands behind the first text, and the
    second text starts with it. -/
inductive StartsAt : List Char → List Char → Fault → Prop
  | emptyLabel {front rest : List Char} (hfront : IsBlanks front) :
      StartsAt front (':' :: rest) (.fields .emptyLabel)
  | invalidLabel {front word rest : List Char} (hfront : IsBlanks front)
      (hword : IsWord isLabelChar word) (hinvalid : ¬ word.all Char.isAlphanum) :
      StartsAt front (word ++ ':' :: rest) (.fields (.invalidLabel (.ofList word)))
  | invalidMnemonic {front word rest : List Char} {label : Option String}
      (hlabel : LabelPart front label) (hword : IsWord isWordChar word)
      (hinvalid : ¬ isMnemonic word) (hcolon : label = none → ':' ∉ word)
      (hrest : Stops isWordChar rest) :
      StartsAt front (word ++ rest) (.fields (.invalidMnemonic (.ofList word)))
  | trailingText {front word gap operand between trailing blanks : List Char}
      {label : Option String} (hlabel : LabelPart front label) (hword : isMnemonic word)
      (hgap : IsBlanks gap) (hne : gap ≠ []) (hoperand : IsWord isWordChar operand)
      (hbetween : IsBlanks between) (hne' : between ≠ []) (htrailing : IsTrailing trailing)
      (hblanks : IsBlanks blanks) :
      StartsAt (front ++ word ++ gap ++ operand ++ between) (trailing ++ blanks)
        (.fields (.trailingText (.ofList trailing)))
  | operand {front word gap operand rest : List Char} {label : Option String}
      {fault : OperandFault} (hlabel : LabelPart front label) (hword : isMnemonic word)
      (hgap : IsBlanks gap) (hne : gap ≠ []) (hoperand : IsWord isWordChar operand)
      (hrest : Stops isWordChar rest) (hfault : Operand.read (.ofList operand) = .error fault) :
      StartsAt (front ++ word ++ gap) (operand ++ rest) (.operand fault)
  | mnemonic {front word rest : List Char} {label : Option String} {fault : Fault}
      (hlabel : LabelPart front label) (hword : isMnemonic word) (hrest : Stops isWordChar rest)
      (hfault : fault.IsOfMnemonic (.ofList (word.map Char.toUpper))) :
      StartsAt front (word ++ rest) fault
  | label {front rest : List Char} {label : String} {fault : Fault} (hfront : IsBlanks front)
      (hlabel : IsLabel label) (hfault : fault.label? = some label) :
      StartsAt front (label.toList ++ ':' :: rest) fault

theorem StartsAt.stops_isBlank {front rest : List Char} {fault : Fault}
    (h : StartsAt front rest fault) : rest ≠ [] ∧ Stops isBlank rest := by
  cases h with
  | emptyLabel => exact ⟨by simp, stops_cons_iff.mpr (by decide)⟩
  | invalidLabel hfront hword =>
    exact ⟨by simp, hword.of_isLabelChar.stops_isBlank⟩
  | invalidMnemonic hlabel hword => exact ⟨by simp [hword.1], hword.stops_isBlank⟩
  | trailingText hlabel hword hgap hne hoperand hbetween hne' htrailing =>
    obtain ⟨c, hc, -⟩ := htrailing.starts
    exact ⟨by simp [List.ne_nil_of_mem (List.mem_of_head? hc)], htrailing.stops_isBlank⟩
  | operand hlabel hword hgap hne hoperand => exact ⟨by simp [hoperand.1], hoperand.stops_isBlank⟩
  | mnemonic hlabel hword =>
    have hfirst := (isWord_of_isMnemonic hword).of_isLabelChar
    exact ⟨by simp [hfirst.1], hfirst.stops_isBlank⟩
  | label hfront hlabel => exact ⟨by simp, hlabel.isWord.of_isLabelChar.stops_isBlank⟩

/-! ### One token for each fault

    A fault has one offending token only, wherever it starts: the grammar leaves
    no choice where the parts of a line end. -/

variable {front front' rest rest' : List Char}

/-- The token of a malformed line is the one that reading it stops at. -/
theorem StartsAt.readsAs {fault : FieldFault} (h : StartsAt front rest (.fields fault)) :
    ReadsAs (front ++ rest) (.error ⟨utf8Width front, fault⟩) := by
  cases h with
  | emptyLabel hfront => exact .emptyLabel hfront
  | invalidLabel hfront hword hinvalid => exact .invalidLabel hfront hword hinvalid
  | invalidMnemonic hlabel hword hinvalid hcolon hrest =>
    exact .invalidMnemonic hlabel hword hinvalid hcolon hrest
  | trailingText hlabel hword hgap hne hoperand hbetween hne' htrailing hblanks =>
    have hreads := ReadsAs.trailingText hlabel hword hgap hne hoperand hbetween hne' htrailing
      hblanks
    simpa only [List.append_assoc, utf8Width_append, Nat.add_assoc] using hreads
  | mnemonic hlabel hword hrest hfault => exact hfault.elim
  | label hfront hlabel hfault => simp [label?] at hfault

theorem mnemonic_unique {word word' : List Char} {label label' : Option String}
    (hlabel : LabelPart front label) (hword : isMnemonic word) (hrest : Stops isWordChar rest)
    (hlabel' : LabelPart front' label') (hword' : isMnemonic word')
    (hrest' : Stops isWordChar rest') (heq : front ++ (word ++ rest) = front' ++ (word' ++ rest')) :
    utf8Width front = utf8Width front' ∧ word = word' ∧ rest = rest' := by
  obtain ⟨hstop, hunlabelled⟩ := starts_of_isMnemonic hword hrest
  obtain ⟨hstop', hunlabelled'⟩ := starts_of_isMnemonic hword' hrest'
  obtain ⟨hwidth, htail⟩ := hlabel.unique hlabel' heq hstop hstop' (fun _ => hunlabelled)
    (fun _ => hunlabelled')
  exact ⟨hwidth, split_unique htail (isWord_of_isMnemonic hword).of_isLabelChar.2 hrest
    (isWord_of_isMnemonic hword').of_isLabelChar.2 hrest'⟩

theorem label_unique {label label' : String} (hfront : IsBlanks front) (hlabel : IsLabel label)
    (hfront' : IsBlanks front') (hlabel' : IsLabel label')
    (heq : front ++ (label.toList ++ ':' :: rest) = front' ++ (label'.toList ++ ':' :: rest')) :
    front = front' :=
  (split_unique heq hfront hlabel.isWord.of_isLabelChar.stops_isBlank hfront'
    hlabel'.isWord.of_isLabelChar.stops_isBlank).1

/-- No fault is one of the label and one of the instruction. -/
theorem label?_of_isOfMnemonic {fault : Fault} {mnemonic : String}
    (h : fault.IsOfMnemonic mnemonic) : fault.label? = none := by
  unfold IsOfMnemonic at h
  unfold label?
  split at h <;> simp_all

theorem StartsAt.operand_unique {fault : OperandFault} (h : StartsAt front rest (.operand fault))
    (h' : StartsAt front' rest' (.operand fault)) (heq : front ++ rest = front' ++ rest') :
    utf8Width front = utf8Width front' := by
  cases h with
  | mnemonic hlabel hword hrest hfault => exact hfault.elim
  | label hfront hlabel hfault => simp [label?] at hfault
  | operand hlabel hword hgap hne hoperand hrest hfault =>
    cases h' with
    | mnemonic hlabel' hword' hrest' hfault' => exact hfault'.elim
    | label hfront' hlabel' hfault' => simp [label?] at hfault'
    | operand hlabel' hword' hgap' hne' hoperand' hrest' hfault' =>
      simp only [List.append_assoc] at heq
      obtain ⟨hwidth, rfl, hsecond⟩ := mnemonic_unique hlabel hword
        (stops_isWordChar_of_isBlanks hgap hne) hlabel' hword'
        (stops_isWordChar_of_isBlanks hgap' hne') heq
      obtain ⟨rfl, -⟩ := split_unique hsecond hgap hoperand.stops_isBlank hgap'
        hoperand'.stops_isBlank
      simp only [utf8Width_append, hwidth]

/-- **A fault has one offending token only.** -/
theorem StartsAt.unique {fault : Fault} (h : StartsAt front rest fault)
    (h' : StartsAt front' rest' fault) (heq : front ++ rest = front' ++ rest') :
    utf8Width front = utf8Width front' := by
  cases fault with
  | fields fault =>
    have hread : Fields.read (.ofList (front ++ rest)) = .error ⟨utf8Width front, fault⟩ := by
      rw [read_eq_iff, String.toList_ofList]
      exact h.readsAs
    have hread' : Fields.read (.ofList (front' ++ rest')) = .error ⟨utf8Width front', fault⟩ := by
      rw [read_eq_iff, String.toList_ofList]
      exact h'.readsAs
    rw [heq, hread', Except.error.injEq, FieldError.mk.injEq] at hread
    exact hread.1.symm
  | operand fault => exact h.operand_unique h' heq
  | lookup | width | placement =>
    -- what is found later is about the mnemonic or about the label
    cases h with
    | mnemonic hlabel hword hrest hfault =>
      cases h' with
      | mnemonic hlabel' hword' hrest' hfault' =>
        exact (mnemonic_unique hlabel hword hrest hlabel' hword' hrest' heq).1
      | label hfront' hlabel' hfault' => simp [label?_of_isOfMnemonic hfault] at hfault'
    | label hfront hlabel hfault =>
      cases h' with
      | mnemonic hlabel' hword' hrest' hfault' => simp [label?_of_isOfMnemonic hfault'] at hfault
      | label hfront' hlabel' hfault' =>
        rw [label_unique hfront hlabel hfront' hlabel' heq]

/-- The offending token of a line starts in a column. -/
def TokenAt (fault : Fault) (text : String) (column : Nat) : Prop :=
  ∃ front c rest, text.toList = front ++ c :: rest ∧ utf8Width front = column ∧
    isBlank c = false ∧ StartsAt front (c :: rest) fault

theorem StartsAt.tokenAt {front rest : List Char} {fault : Fault} {text : String}
    (h : StartsAt front rest fault) (htext : text.toList = front ++ rest) :
    fault.TokenAt text (utf8Width front) := by
  obtain ⟨hne, hstop⟩ := h.stops_isBlank
  cases rest with
  | nil => exact absurd rfl hne
  | cons c rest => exact ⟨front, c, rest, htext, rfl, stops_cons_iff.mp hstop, h⟩

/-- A token starts in no other column. -/
theorem TokenAt.iff {fault : Fault} {text : String} {column : Nat} (h : fault.TokenAt text column)
    (k : Nat) : fault.TokenAt text k ↔ k = column := by
  obtain ⟨front, c, rest, htext, hcolumn, -, hstart⟩ := h
  constructor
  · intro ⟨front', c', rest', htext', hcolumn', _, hstart'⟩
    rw [htext] at htext'
    rw [← hcolumn, ← hcolumn', hstart.unique hstart' htext']
  · intro hk
    rw [hk, ← hcolumn]
    exact hstart.tokenAt htext

theorem not_tokenAt_zero {fault : Fault} {text : String} {c : Char}
    (htext : text.toList.head? = some c) (hblank : isBlank c) : ¬ fault.TokenAt text 0 := by
  intro ⟨front, d, rest, hsplit, hcolumn, hd, _⟩
  cases front with
  | nil =>
    rw [hsplit, List.nil_append, List.head?_cons, Option.some.injEq] at htext
    rw [htext, hblank] at hd
    exact Bool.noConfusion hd
  | cons e front =>
    have hpos := e.utf8Size_pos
    rw [utf8Width_cons] at hcolumn
    omega

end Fault

/-! ### Columns of a line -/

namespace Statement

variable {n : Nat} {text : String}

theorem tokenAt_of_fields {error : FieldError} (h : ReadsAs text.toList (.error error)) :
    (Fault.fields error.fault).TokenAt text error.column := by
  generalize hcs : text.toList = cs at h
  cases h with
  | emptyLabel hblanks => exact (Fault.StartsAt.emptyLabel hblanks).tokenAt hcs
  | invalidLabel hblanks hword hinvalid =>
    exact (Fault.StartsAt.invalidLabel hblanks hword hinvalid).tokenAt hcs
  | invalidMnemonic hlabel hword hinvalid hcolon hrest =>
    exact (Fault.StartsAt.invalidMnemonic hlabel hword hinvalid hcolon hrest).tokenAt hcs
  | trailingText hlabel hword hgap hne hoperand hbetween hne' htrailing hblanks =>
    simp only [← List.append_assoc] at hcs
    rw [List.append_assoc] at hcs
    have htoken := (Fault.StartsAt.trailingText hlabel hword hgap hne hoperand hbetween hne'
      htrailing hblanks).tokenAt hcs
    simpa only [utf8Width_append] using htoken

theorem tokenAt_of_operand {label comment : Option String} {operation : Operation}
    {fault : OperandFault} (h : ReadsAs text.toList (.ok ⟨label, some operation, comment⟩))
    (hfault : Operand.read operation.operand = .error fault) :
    (Fault.operand fault).TokenAt text operation.operandColumn := by
  generalize hcs : text.toList = cs at h
  cases h with | fields hlabel hoperation hcomment =>
  cases hoperation with
  | bare hword hblanks =>
    -- there is nothing wrong with an operand that is not there
    have hnone : Operand.read "" = .ok .implicit := by rfl
    rw [hnone] at hfault
    exact absurd hfault (by simp)
  | full hword hgap hne hoperand hblanks =>
    have hrest := stops_isWordChar_append hblanks hcomment.stops.2
    simp only [← List.append_assoc] at hcs
    rw [List.append_assoc, List.append_assoc] at hcs
    have htoken := (Fault.StartsAt.operand hlabel hword hgap hne hoperand hrest hfault).tokenAt hcs
    simpa only [utf8Width_append] using htoken

/-- A line that cannot be read is reported in the column of its token. -/
theorem tokenAt_of_read_eq_error {d : Diagnostic} (h : read n text = .error d) :
    d.fault.TokenAt text d.column := by
  rcases read_eq_error_cases h with ⟨error, hfields, rfl⟩ |
    ⟨label, operation, comment, fault, hfields, hoperand, rfl⟩
  · exact tokenAt_of_fields (read_eq_iff.mp hfields)
  · exact tokenAt_of_operand (read_eq_iff.mp hfields) hoperand

theorem tokenAt_of_operation {label comment : Option String} {operation : Operation}
    (h : ReadsAs text.toList (.ok ⟨label, some operation, comment⟩)) {fault : Fault}
    (hfault : fault.IsOfMnemonic operation.mnemonic) : fault.TokenAt text operation.column := by
  generalize hcs : text.toList = cs at h
  cases h with | fields hlabel hoperation hcomment =>
  cases hoperation with
  | bare hword hblanks =>
    have hrest := stops_isWordChar_append hblanks hcomment.stops.2
    rw [List.append_assoc] at hcs
    exact (Fault.StartsAt.mnemonic hlabel hword hrest hfault).tokenAt hcs
  | full hword hgap hne hoperand hblanks =>
    simp only [List.append_assoc] at hcs
    exact (Fault.StartsAt.mnemonic hlabel hword (stops_isWordChar_of_isBlanks hgap hne)
      hfault).tokenAt hcs

theorem tokenAt_of_instruction {s : Statement} (h : read n text = .ok s) {instruction : Instruction}
    (hs : s.instruction = some instruction) {fault : Fault}
    (hfault : fault.IsOfMnemonic instruction.mnemonic) :
    fault.TokenAt text instruction.column := by
  rcases read_eq_ok_cases h with ⟨label, comment, -, rfl⟩ |
    ⟨label, operation, comment, operand, hfields, -, rfl⟩
  · simp at hs
  · obtain rfl := Option.some.inj hs
    exact tokenAt_of_operation (read_eq_iff.mp hfields) hfault

theorem tokenAt_of_label {label : String} (h : leadingLabel text = some label) {fault : Fault}
    (hfault : fault.label? = some label) : ∃ column, fault.TokenAt text column := by
  obtain ⟨front, rest, htext, hfront, hlabel⟩ := leadingLabel_eq_some_iff.mp h
  exact ⟨_, (Fault.StartsAt.label hfront hlabel hfault).tokenAt htext⟩

/-- The statement of a line has the label that the line starts with, and it has
    an instruction only if the line can be read. -/
theorem label_instruction_of_statement {s : Statement}
    (hs : (Reading.ofLine n text).statement = some s) :
    (∀ name, s.label = some name → leadingLabel text = some name) ∧
      ∀ instruction, s.instruction = some instruction → read n text = .ok s := by
  rcases Reading.ofLine_cases n text with ⟨t, hread, hline⟩ | ⟨e, -, hline⟩
  · rw [hline] at hs
    obtain rfl := Option.some.inj hs
    refine ⟨fun name hname => ?_, fun _ _ => hread⟩
    rw [← label_of_read hread, hname]
  · rw [hline] at hs
    refine ⟨fun name hname => ?_, fun instruction hinstruction => ?_⟩
    · obtain ⟨label, hlabel, rfl⟩ := Option.map_eq_some_iff.mp hs
      rwa [hlabel]
    · rw [(recover_eq_some hs).2] at hinstruction
      simp at hinstruction

/-- What is found in the statement of a line is about a token of the line, and
    it is found in the column of the token unless that is a label. -/
theorem Finding.tokenAt {table : OpcodeTable} {s : Statement} {d : Diagnostic}
    (h : s.Finding table d) (hs : (Reading.ofLine n text).statement = some s) :
    ∃ column, d.fault.TokenAt text column ∧
      d.column = if d.fault.label?.isSome then 0 else column := by
  obtain ⟨hlabel, hinstruction⟩ := label_instruction_of_statement hs
  cases h with
  | duplicateLabel hname first =>
    have htoken : ∃ column, (Fault.placement (.duplicateLabel _ first)).TokenAt text column :=
      tokenAt_of_label (hlabel _ hname) rfl
    obtain ⟨column, htoken⟩ := htoken
    exact ⟨column, htoken, rfl⟩
  | labelPastEnd hname =>
    have htoken : ∃ column, (Fault.placement (.labelPastEnd _)).TokenAt text column :=
      tokenAt_of_label (hlabel _ hname) rfl
    obtain ⟨column, htoken⟩ := htoken
    exact ⟨column, htoken, rfl⟩
  | lookup hsome hlookup =>
    have hfault := OpcodeTable.mnemonic_of_lookup hlookup
    exact ⟨_, tokenAt_of_instruction (hinstruction _ hsome) hsome hfault, rfl⟩
  | width hsome fault =>
    have htoken : (Fault.width fault).TokenAt text _ :=
      tokenAt_of_instruction (hinstruction _ hsome) hsome trivial
    exact ⟨_, htoken, rfl⟩
  | instructionPastEnd hsome address =>
    have htoken : (Fault.placement (.instructionPastEnd _ address)).TokenAt text _ :=
      tokenAt_of_instruction (hinstruction _ hsome) hsome rfl
    exact ⟨_, htoken, rfl⟩

end Statement

/-! ### Columns of a source -/

theorem Diagnostic.label?_of_isReading {d : Diagnostic} (h : d.isReading) :
    d.fault.label? = none := by
  unfold isReading at h
  unfold Fault.label?
  split at h <;> simp_all

/-- **Where diagnostics point.** A diagnostic carries the number of one of the
    lines, and the one column at which its offending token starts on this line,
    counted in bytes. Only for a label that is defined twice or has no address
    it carries column zero instead. -/
theorem column_of_assembleLines_eq_error (table : OpcodeTable) (origin : UInt16)
    (lines : List String) {diagnostics : List Diagnostic}
    (h : assembleLines table { origin } lines = .error diagnostics) :
    ∀ d ∈ diagnostics, 1 ≤ d.line ∧ d.line ≤ lines.length ∧
      ∃ text column, lines[d.line - 1]? = some text ∧
        (∀ k, d.fault.TokenAt text k ↔ k = column) ∧
        d.column = if d.fault.label?.isSome then 0 else column := by
  intro d hd
  have hscan := diagnosticsOf_assembleLines table origin lines
  rw [h] at hscan
  have hmem : d ∈ Scan.ofLines table origin lines := by rwa [← hscan]
  obtain ⟨hle, text, htext, hfound⟩ := Scan.exists_line_of_mem_ofLines hmem
  obtain ⟨hlt, -⟩ := List.getElem?_eq_some_iff.mp htext
  refine ⟨hle, by omega, text, ?_⟩
  rcases hfound with hread | ⟨s, hs, hfinding⟩
  · refine ⟨d.column, htext, (Statement.tokenAt_of_read_eq_error hread).iff, ?_⟩
    rw [Diagnostic.label?_of_isReading (Statement.isReading_of_read hread)]
    rfl
  · obtain ⟨column, htoken, hcolumn⟩ := hfinding.tokenAt hs
    exact ⟨column, htext, htoken.iff, hcolumn⟩

/-- The operand stands in column 7, behind a blank of three bytes; the label of
    line 2 stands in column 3, and its diagnostic says nothing of that. -/
theorem column_of_assembleLines_eq_error_wide_blank :
    ∃ diagnostics : List Diagnostic,
      diagnostics = [⟨2, 0, .placement (.duplicateLabel "x" 1)⟩,
        ⟨3, 7, .operand (.hexDigitCount "$123")⟩] ∧
      assembleLines .nmos {} ["x:", "\u3000x:", "\u3000LDA $123"] = .error diagnostics ∧
      ∀ d ∈ diagnostics, 1 ≤ d.line ∧ d.line ≤ 3 ∧ ∃ text column,
        ["x:", "\u3000x:", "\u3000LDA $123"][d.line - 1]? = some text ∧
        (∀ k, d.fault.TokenAt text k ↔ k = column) ∧
        d.column = if d.fault.label?.isSome then 0 else column := by
  have hscan : Scan.ofLines .nmos 0 ["x:", "\u3000x:", "\u3000LDA $123"] =
      [⟨2, 0, .placement (.duplicateLabel "x" 1)⟩, ⟨3, 7, .operand (.hexDigitCount "$123")⟩] := by
    decide +kernel
  have herror := @assembleLines_eq_error_ofLines .nmos {} ["x:", "\u3000x:", "\u3000LDA $123"] rfl
    (by rw [hscan]; simp)
  exact ⟨_, hscan, herror, column_of_assembleLines_eq_error .nmos 0 _ herror⟩

/-- With a blank in front, a label is not where its diagnostic points, be it a
    duplicate or without an address: there is the blank. -/
theorem labels_not_in_column_zero :
    assembleLines .nmos {} [" x:", " x:"] =
      .error [⟨2, 0, .placement (.duplicateLabel "x" 1)⟩] ∧
    ¬ (Fault.placement (.duplicateLabel "x" 1)).TokenAt " x:" 0 ∧
    assembleLines .nmos { origin := 0xFFFF } [" x: NOP", " y:"] =
      .error [⟨2, 0, .placement (.labelPastEnd "y")⟩] ∧
    ¬ (Fault.placement (.labelPastEnd "y")).TokenAt " y:" 0 := by
  have hduplicate : Scan.ofLines .nmos 0 [" x:", " x:"] =
      [⟨2, 0, .placement (.duplicateLabel "x" 1)⟩] := by decide +kernel
  have hpast : Scan.ofLines .nmos 0xFFFF [" x: NOP", " y:"] =
      [⟨2, 0, .placement (.labelPastEnd "y")⟩] := by decide +kernel
  refine ⟨?_, Fault.not_tokenAt_zero rfl (by decide), ?_, Fault.not_tokenAt_zero rfl (by decide)⟩
  · rw [assembleLines_eq_error_ofLines rfl (by simp [hduplicate]), hduplicate]
  · rw [assembleLines_eq_error_ofLines rfl (by simp [hpast]), hpast]

end Mos6502
