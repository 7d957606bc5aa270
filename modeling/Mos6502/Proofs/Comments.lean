import Mos6502.Proofs.LineEnds

/-! # Comments and Blanks around a Line

    Blanks in front of a line move everything on it to the right and do nothing
    else (`Statement.read_prepend_blanks`). What stands behind a semicolon is
    the comment, and a line that has none can be given one, with or without
    blanks in between (`Statement.read_append_comment`): wherever reading may
    end, it may as well come upon a semicolon.
-/

namespace Mos6502

open Text

/-- The operation, starting further right. -/
def Operation.moveBy (width : Nat) (operation : Operation) : Operation :=
  { operation with
    column := operation.column + width
    operandColumn := operation.operandColumn + width }

/-- The fields of a line that starts further right. -/
def Fields.moveBy (width : Nat) (fields : Fields) : Fields :=
  { fields with operation := fields.operation.map (Operation.moveBy width) }

/-- The fault of a line that starts further right. -/
def FieldError.moveBy (width : Nat) (error : FieldError) : FieldError :=
  { error with column := error.column + width }

/-- The statement of a line that starts further right. -/
def Statement.moveBy (width : Nat) (s : Statement) : Statement :=
  { s with instruction := s.instruction.map fun instruction =>
      { instruction with column := instruction.column + width } }

/-- The diagnostic of a line that starts further right. -/
def Diagnostic.moveBy (width : Nat) (d : Diagnostic) : Diagnostic :=
  { d with column := d.column + width }

/-- What becomes of the fault of a line when a comment is added to it. Only
    trailing text takes the comment in, since it goes on to the end of the
    line. -/
inductive Fault.WithComment : Fault → Fault → Prop
  | same (fault : Fault) : WithComment fault fault
  | trailingText (text more : String) :
      WithComment (.fields (.trailingText text)) (.fields (.trailingText more))

theorem Fault.WithComment.kind_eq {fault other : Fault} (h : fault.WithComment other) :
    other.kind = fault.kind := by
  cases h <;> rfl

namespace Fields

variable {front middle blanks cs : List Char} {label comment : Option String}
  {operation : Option Operation} {column : Nat}

/-! ### Blanks in front of a line -/

theorem LabelPart.prepend_blanks (h : LabelPart front label) (hblanks : IsBlanks blanks) :
    LabelPart (blanks ++ front) label := by
  cases h with
  | absent hfront => exact .absent (isBlanks_append_iff.mpr ⟨hblanks, hfront⟩)
  | present hfront hlabel hmore =>
    have hpart := LabelPart.present (isBlanks_append_iff.mpr ⟨hblanks, hfront⟩) hlabel hmore
    rwa [List.append_assoc] at hpart

theorem OperationPart.moveBy (h : OperationPart column middle operation) (width : Nat) :
    OperationPart (column + width) middle (operation.map (Operation.moveBy width)) := by
  cases h with
  | absent => exact .absent
  | bare hword hblanks =>
    have hpart : OperationPart (column + width) _ _ := .bare hword hblanks
    simpa [Operation.moveBy, Nat.add_right_comm] using hpart
  | full hword hgap hne hoperand hblanks =>
    have hpart : OperationPart (column + width) _ _ := .full hword hgap hne hoperand hblanks
    simpa [Operation.moveBy, Nat.add_right_comm] using hpart

/-- A line with blanks in front of it has the same form further right. -/
theorem ReadsAs.prepend_blanks {result : Except FieldError Fields} (h : ReadsAs cs result)
    (hblanks : IsBlanks blanks) :
    ReadsAs (blanks ++ cs) ((result.map (Fields.moveBy (utf8Width blanks))).mapError
      (FieldError.moveBy (utf8Width blanks))) := by
  cases h with
  | @fields front middle tail _ _ _ hlabel hoperation hcomment =>
    have hoperation' := hoperation.moveBy (utf8Width blanks)
    rw [Nat.add_comm, ← utf8Width_append] at hoperation'
    have hreads := ReadsAs.fields (hlabel.prepend_blanks hblanks) hoperation' hcomment
    rwa [List.append_assoc] at hreads
  | @emptyLabel front rest hfront =>
    have hreads := @ReadsAs.emptyLabel _ rest (isBlanks_append_iff.mpr ⟨hblanks, hfront⟩)
    rwa [List.append_assoc, utf8Width_append, Nat.add_comm] at hreads
  | @invalidLabel front word rest hfront hword hinvalid =>
    have hreads := @ReadsAs.invalidLabel _ _ rest (isBlanks_append_iff.mpr ⟨hblanks, hfront⟩)
      hword hinvalid
    rwa [List.append_assoc, utf8Width_append, Nat.add_comm] at hreads
  | invalidMnemonic hlabel hword hinvalid hcolon hrest =>
    have hreads := ReadsAs.invalidMnemonic (hlabel.prepend_blanks hblanks) hword hinvalid hcolon
      hrest
    rwa [List.append_assoc, utf8Width_append, Nat.add_comm] at hreads
  | trailingText hlabel hword hgap hne hoperand hbetween hne' htrailing hmore =>
    have hreads := ReadsAs.trailingText (hlabel.prepend_blanks hblanks) hword hgap hne hoperand
      hbetween hne' htrailing hmore
    simp only [List.append_assoc, utf8Width_append, Nat.add_assoc] at hreads
    simp only [Except.map, Except.mapError, FieldError.moveBy, Nat.add_comm _ (utf8Width blanks),
      Nat.add_assoc]
    exact hreads

/-! ### A comment behind a line -/

theorem ReadsAs.append_comment (h : ReadsAs cs (.ok ⟨label, operation, comment⟩))
    (hsemicolon : ';' ∉ cs) (hblanks : IsBlanks blanks) (text : List Char) :
    ∃ operation', ReadsAs (cs ++ (blanks ++ ';' :: text))
        (.ok ⟨label, operation', some (.ofList text)⟩) ∧
      ∀ n label comment, Statement.ofFields n ⟨label, operation', comment⟩ =
        Statement.ofFields n ⟨label, operation, comment⟩ := by
  cases h with | @fields front middle tail _ _ _ hlabel hoperation hcomment =>
  cases hcomment with
  | present => simp at hsemicolon
  | absent =>
    obtain ⟨front', middle', operation', hsplit, hlabel', hoperation', hsame⟩ :=
      exists_append_blanks hlabel hoperation hblanks
    have hfields := ReadsAs.fields hlabel' hoperation' (@CommentPart.present text)
    rw [← List.append_assoc, hsplit] at hfields
    simp only [List.append_assoc, List.nil_append] at hfields ⊢
    exact ⟨operation', hfields, hsame⟩

theorem ReadsAs.append_comment_of_error {error : FieldError} (h : ReadsAs cs (.error error))
    (hblanks : IsBlanks blanks) (text : List Char) :
    ∃ fault, (Fault.fields error.fault).WithComment (.fields fault) ∧
      ReadsAs (cs ++ (blanks ++ ';' :: text)) (.error ⟨error.column, fault⟩) := by
  cases h with
  | @emptyLabel front rest hfront =>
    have hreads := @ReadsAs.emptyLabel _ (rest ++ (blanks ++ ';' :: text)) hfront
    rw [List.append_assoc, List.cons_append]
    exact ⟨_, .same _, hreads⟩
  | @invalidLabel front word rest hfront hword hinvalid =>
    have hreads := @ReadsAs.invalidLabel _ _ (rest ++ (blanks ++ ';' :: text)) hfront hword hinvalid
    simp only [List.append_assoc, List.cons_append]
    exact ⟨_, .same _, hreads⟩
  | @invalidMnemonic front word rest label hlabel hword hinvalid hcolon hrest =>
    have hstop : Stops isWordChar (rest ++ (blanks ++ ';' :: text)) := by
      rcases eq_or_ne rest [] with rfl | hne
      · rw [List.nil_append]
        exact stops_isWordChar_append hblanks (stops_cons_iff.mpr (by decide))
      · rwa [stops_append_iff hne]
    have hreads := ReadsAs.invalidMnemonic hlabel hword hinvalid hcolon hstop
    simp only [List.append_assoc]
    exact ⟨_, .same _, hreads⟩
  | @trailingText front word gap operand between trailing more label hlabel hword hgap hne hoperand
      hbetween hne' htrailing hmore =>
    obtain ⟨c, hc, hstart⟩ := htrailing.starts
    -- the text that should not be there goes on behind the semicolon
    have hhead : (trailing ++ (more ++ (blanks ++ ';' :: text))).head? = some c := by
      rw [List.head?_append, hc, Option.some_or]
    obtain ⟨trailing', blanks', hsplit, htrailing', hblanks'⟩ := exists_isTrailing hhead hstart
    have hreads := ReadsAs.trailingText hlabel hword hgap hne hoperand hbetween hne' htrailing'
      hblanks'
    rw [← hsplit] at hreads
    simp only [List.append_assoc]
    exact ⟨_, .trailingText _ _, hreads⟩

end Fields

namespace Statement

open Fields

variable {n : Nat} {text other : String} {s : Statement} {d : Diagnostic}

/-- The fields of a line that starts further right make up the same statement
    further right, or the same operand is refused there. -/
theorem ofFields_moveBy (n : Nat) (fields : Fields) (width : Nat) :
    ofFields n (fields.moveBy width) =
      ((ofFields n fields).map (moveBy width)).mapError (Diagnostic.moveBy width) := by
  obtain ⟨label, operation, comment⟩ := fields
  cases operation with
  | none => rfl
  | some operation =>
    simp only [ofFields, readInstruction, Fields.moveBy, Operation.moveBy, Option.map_some]
    cases Operand.read operation.operand <;> rfl

/-- **Blanks in front of a line move it to the right**, whether or not it can be
    read. -/
theorem read_prepend_blanks {blanks : List Char} (hother : other.toList = blanks ++ text.toList)
    (hblanks : IsBlanks blanks) (n : Nat) :
    read n other = ((read n text).map (moveBy (utf8Width blanks))).mapError
      (Diagnostic.moveBy (utf8Width blanks)) := by
  have hfields := (read_eq_iff.mp (@rfl _ (Fields.read text))).prepend_blanks hblanks
  rw [← hother, ← read_eq_iff] at hfields
  unfold read
  rw [hfields]
  cases Fields.read text with
  | error error => rfl
  | ok fields => exact ofFields_moveBy n fields _

theorem ofFields_comment (n : Nat) (label : Option String) (operation : Option Operation)
    (comment other : Option String) :
    ofFields n ⟨label, operation, other⟩ =
      (ofFields n ⟨label, operation, comment⟩).map fun s => { s with comment := other } := by
  cases operation with
  | none => rfl
  | some operation =>
    simp only [ofFields]
    cases readInstruction operation <;> rfl

/-- A line whose fields are well-formed comes to the same with a comment behind
    it, if it has none, but for the comment. -/
theorem read_append_comment_of_fields {blanks comment : List Char} {fields : Fields}
    (hother : other.toList = text.toList ++ (blanks ++ ';' :: comment))
    (hsemicolon : ';' ∉ text.toList) (hblanks : IsBlanks blanks)
    (hfields : Fields.read text = .ok fields) :
    read n other = (read n text).map fun s => { s with comment := some (.ofList comment) } := by
  obtain ⟨operation', hreads, hsame⟩ :=
    (read_eq_iff.mp hfields).append_comment hsemicolon hblanks comment
  rw [← hother, ← read_eq_iff] at hreads
  simp only [read, hreads, hfields]
  rw [hsame, ofFields_comment n _ _ fields.comment]

/-- **A comment behind a line is its comment**, if it has none, -/
theorem read_append_comment_of_eq_ok {blanks comment : List Char}
    (hother : other.toList = text.toList ++ (blanks ++ ';' :: comment))
    (hsemicolon : ';' ∉ text.toList) (hblanks : IsBlanks blanks) (h : read n text = .ok s) :
    read n other = .ok { s with comment := some (.ofList comment) } := by
  obtain ⟨fields, hfields, -⟩ := exists_fields_of_read h
  rw [read_append_comment_of_fields hother hsemicolon hblanks hfields, h]
  rfl

/-- and changes nothing about where and why a line cannot be read. -/
theorem read_append_comment_of_eq_error {blanks comment : List Char}
    (hother : other.toList = text.toList ++ (blanks ++ ';' :: comment))
    (hsemicolon : ';' ∉ text.toList) (hblanks : IsBlanks blanks) (h : read n text = .error d) :
    ∃ fault, d.fault.WithComment fault ∧ read n other = .error { d with fault } := by
  cases hread : Fields.read text with
  | error error =>
    obtain ⟨fault, hfault, hreads⟩ := (read_eq_iff.mp hread).append_comment_of_error hblanks comment
    rw [← hother, ← read_eq_iff] at hreads
    simp only [read, hread, Except.error.injEq] at h
    rw [← h, read, hreads]
    exact ⟨_, hfault, rfl⟩
  | ok fields =>
    refine ⟨d.fault, .same _, ?_⟩
    rw [read_append_comment_of_fields hother hsemicolon hblanks hread, h]
    rfl

/-- A line without a comment, put between blanks and with a comment behind it,
    comes to the same further right. -/
theorem read_commented {before text after : String} (hsemicolon : ';' ∉ text.toList)
    (hbefore : IsBlanks before.toList) (hafter : IsBlanks after.toList) (n : Nat)
    (comment : String) :
    (∀ s, read n text = .ok s → read n (before ++ text ++ after ++ ";" ++ comment) =
      .ok { s.moveBy (utf8Width before.toList) with comment := some comment }) ∧
    ∀ d, read n text = .error d →
      ∃ e, read n (before ++ text ++ after ++ ";" ++ comment) = .error e ∧ e.kind = d.kind ∧
        e.line = d.line ∧ e.column = d.column + utf8Width before.toList ∧
        d.fault.WithComment e.fault := by
  have hright : (text ++ after ++ ";" ++ comment).toList =
      text.toList ++ (after.toList ++ ';' :: comment.toList) := by
    simp only [String.toList_append, List.append_assoc]
    rfl
  have hleft : (before ++ text ++ after ++ ";" ++ comment).toList =
      before.toList ++ (text ++ after ++ ";" ++ comment).toList := by
    simp only [String.toList_append, List.append_assoc]
  refine ⟨fun s hread => ?_, fun d hread => ?_⟩
  · rw [read_prepend_blanks hleft hbefore,
      read_append_comment_of_eq_ok hright hsemicolon hafter hread, String.ofList_toList]
    rfl
  · obtain ⟨fault, hfault, hread'⟩ :=
      read_append_comment_of_eq_error hright hsemicolon hafter hread
    rw [read_prepend_blanks hleft hbefore, hread']
    exact ⟨_, rfl, hfault.kind_eq, rfl, rfl, hfault⟩

end Statement

end Mos6502
