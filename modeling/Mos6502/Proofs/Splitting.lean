import Mathlib.Data.List.Basic
import Mos6502.Proofs.Columns
import Mos6502.Proofs.LineEnds

/-! # How a Line Splits

    A line is split by cutting it into its parts (`Fields.Split`), each of which
    is what it should be: blanks, a label with its colon, three letters, a word,
    a comment. The text of the line is nothing but its parts one behind the
    other, and each part starts in the column that the parts before it leave.

    A line is read exactly if it can be split, and then as the parts of the
    split (`read_eq_ok_iff_exists_split`). There may be more than one split, as
    blanks can be cut in several ways where a part is missing between them. All
    splits of a line have the same label, mnemonic, operand and comment.
-/

namespace Mos6502

open Text

namespace Fields

/-! ### The parts of a line -/

/-- A label with its colon and the blanks behind it. -/
structure LabelField where
  /-- The label. -/
  name : String
  /-- The blanks behind the colon. -/
  gap : List Char
  /-- The label is not empty, -/
  name_ne_nil : name.toList ≠ []
  /-- and it is made of ASCII letters and digits. -/
  isAlphanum : ∀ c ∈ name.toList, c.isAlphanum
  /-- Behind the colon there are only blanks. -/
  isBlanks : IsBlanks gap

/-- An operand with the blanks in front of it. -/
structure OperandField where
  /-- The blanks in front. -/
  gap : List Char
  /-- The operand. -/
  word : List Char
  /-- There are only blanks in front, -/
  isBlanks : IsBlanks gap
  /-- and at least one. -/
  gap_ne_nil : gap ≠ []
  /-- The operand is not empty, -/
  word_ne_nil : word ≠ []
  /-- and neither a blank nor a semicolon is in it. -/
  plain : ∀ c ∈ word, isBlank c = false ∧ c ≠ ';'

/-- A mnemonic with its operand, if it has one. -/
structure OperationField where
  /-- The mnemonic as it is written. -/
  mnemonic : List Char
  /-- The operand. -/
  operand : Option OperandField
  /-- The mnemonic has three characters, -/
  length_mnemonic : mnemonic.length = 3
  /-- and they are ASCII letters. -/
  isAlpha : ∀ c ∈ mnemonic, c.isAlpha

/-- **A line cut into its parts**, from left to right. -/
structure Split where
  /-- The blanks at the start of the line. -/
  indent : List Char
  /-- The label. -/
  label : Option LabelField
  /-- The mnemonic and the operand. -/
  operation : Option OperationField
  /-- The blanks behind them. -/
  gap : List Char
  /-- What stands behind the first semicolon. -/
  comment : Option (List Char)
  /-- The line starts with blanks, -/
  isBlanks_indent : IsBlanks indent
  /-- and there are only blanks in front of the comment. -/
  isBlanks_gap : IsBlanks gap

/-- A label field as it stands in the line. -/
def LabelField.text (field : LabelField) : List Char := field.name.toList ++ ':' :: field.gap

/-- An operation field as it stands in the line. -/
def OperationField.text (field : OperationField) : List Char :=
  field.mnemonic ++ field.operand.elim [] fun operand => operand.gap ++ operand.word

namespace Split

/-- What stands in front of the mnemonic, or would if there were one. -/
def front (split : Split) : List Char := split.indent ++ split.label.elim [] LabelField.text

/-- The line that has been cut. -/
def text (split : Split) : List Char :=
  split.front ++ (split.operation.elim [] OperationField.text ++
    (split.gap ++ split.comment.elim [] fun comment => ';' :: comment))

/-- The operation of a field that stands behind some text. The blanks of the
    line are those behind the mnemonic if there is no operand. -/
def operationOf (front gap : List Char) (field : OperationField) : Operation where
  mnemonic := .ofList (field.mnemonic.map Char.toUpper)
  column := utf8Width front
  operand := .ofList (field.operand.elim [] OperandField.word)
  operandColumn := utf8Width (front ++ (field.mnemonic ++ field.operand.elim gap OperandField.gap))

/-- The fields that the parts of a line make up. -/
def fields (split : Split) : Fields where
  label := split.label.map LabelField.name
  operation := split.operation.map (operationOf split.front split.gap)
  comment := split.comment.map String.ofList

/-- The mnemonic as it is written. -/
def mnemonic? (split : Split) : Option (List Char) :=
  split.operation.map OperationField.mnemonic

/-- The operand. -/
def operand? (split : Split) : Option (List Char) :=
  split.operation.bind fun field => field.operand.map OperandField.word

end Split

/-! ### A split line is read as its parts -/

theorem LabelField.isLabel (field : LabelField) : IsLabel field.name :=
  ⟨field.name_ne_nil, List.all_eq_true.mpr field.isAlphanum⟩

theorem OperandField.isWord (operand : OperandField) : IsWord isWordChar operand.word := by
  refine ⟨operand.word_ne_nil, fun c hc => ?_⟩
  obtain ⟨hblank, hsemicolon⟩ := operand.plain c hc
  simp [isWordChar, hblank, hsemicolon]

theorem OperationField.isMnemonic (field : OperationField) : Fields.isMnemonic field.mnemonic :=
  isMnemonic_iff.mpr ⟨field.length_mnemonic, field.isAlpha⟩

theorem ne_semicolon_of_isBlanks {gap : List Char} (hgap : IsBlanks gap) {c : Char}
    (hc : c ∈ gap) : c ≠ ';' := by
  rintro rfl
  exact absurd (hgap ';' hc) (by decide)

theorem LabelField.ne_semicolon (field : LabelField) {c : Char} (hc : c ∈ field.text) :
    c ≠ ';' := by
  rw [text, List.mem_append, List.mem_cons] at hc
  rcases hc with hname | rfl | hgap
  · exact ne_semicolon_of_isWordChar
      (isWordChar_of_isLabelChar (isLabelChar_of_isLabel field.isLabel c hname))
  · decide
  · exact ne_semicolon_of_isBlanks field.isBlanks hgap

theorem OperationField.ne_semicolon (field : OperationField) {c : Char} (hc : c ∈ field.text) :
    c ≠ ';' := by
  rcases List.mem_append.mp hc with hmnemonic | hoperand
  · exact ne_semicolon_of_isWordChar
      ((isWord_of_isMnemonic field.isMnemonic).of_isLabelChar.2 c hmnemonic)
  · cases hfield : field.operand with
    | none => simp [hfield] at hoperand
    | some operand =>
      rw [hfield, Option.elim_some] at hoperand
      rcases List.mem_append.mp hoperand with hgap | hword
      · exact ne_semicolon_of_isBlanks operand.isBlanks hgap
      · exact (operand.plain c hword).2

theorem OperationField.operationPart {gap : List Char} (field : OperationField) (front : List Char)
    (hgap : IsBlanks gap) :
    OperationPart (utf8Width front) (field.text ++ gap)
      (some (Split.operationOf front gap field)) := by
  unfold OperationField.text Split.operationOf
  cases field.operand with
  | none =>
    have hpart := @OperationPart.bare (utf8Width front) _ _ field.isMnemonic hgap
    simpa [Nat.add_assoc] using hpart
  | some operand =>
    have hpart := @OperationPart.full (utf8Width front) _ _ _ _ field.isMnemonic operand.isBlanks
      operand.gap_ne_nil operand.isWord hgap
    simpa [Nat.add_assoc] using hpart

namespace Split

theorem labelPart (split : Split) : LabelPart split.front (split.label.map LabelField.name) := by
  unfold front
  cases split.label with
  | none =>
    rw [Option.elim_none, List.append_nil]
    exact .absent split.isBlanks_indent
  | some field => exact .present split.isBlanks_indent field.isLabel field.isBlanks

theorem commentPart (split : Split) :
    CommentPart (split.comment.elim [] fun comment => ';' :: comment)
      (split.comment.map String.ofList) := by
  cases split.comment with
  | none => exact .absent
  | some comment => exact .present

theorem readsAs (split : Split) : ReadsAs split.text (.ok split.fields) := by
  unfold text fields
  cases split.operation with
  | none =>
    -- then all the blanks belong to the label
    have hreads := ReadsAs.fields (split.labelPart.append_blanks split.isBlanks_gap) .absent
      split.commentPart
    simpa using hreads
  | some field =>
    have hpart := field.operationPart split.front split.isBlanks_gap
    simpa using ReadsAs.fields split.labelPart hpart split.commentPart

end Split

/-! ### A line that is read can be split -/

variable {front middle tail cs : List Char} {label comment : Option String}
  {operation : Option Operation}

theorem LabelPart.exists_labelField (h : LabelPart front label) :
    ∃ indent field, IsBlanks indent ∧ front = indent ++ Option.elim field [] LabelField.text ∧
      label = field.map LabelField.name := by
  cases h with
  | absent hblanks => exact ⟨front, none, hblanks, by simp, rfl⟩
  | @present blanks more label hblanks hlabel hmore =>
    let field : LabelField := ⟨label, more, hlabel.1, List.all_eq_true.mp hlabel.2, hmore⟩
    exact ⟨blanks, some field, hblanks, rfl, rfl⟩

theorem OperationPart.exists_operationField (h : OperationPart (utf8Width front) middle operation) :
    ∃ field gap, IsBlanks gap ∧ middle = Option.elim field [] OperationField.text ++ gap ∧
      operation = field.map (Split.operationOf front gap) := by
  cases h with
  | absent => exact ⟨none, [], isBlanks_nil, rfl, rfl⟩
  | @bare word blanks hword hblanks =>
    obtain ⟨hlength, halpha⟩ := isMnemonic_iff.mp hword
    refine ⟨some ⟨word, none, hlength, halpha⟩, blanks, hblanks, ?_, ?_⟩
    · simp [OperationField.text]
    · simp [Split.operationOf, Nat.add_assoc]
  | @full word gap operand blanks hword hgap hne hoperand hblanks =>
    obtain ⟨hlength, halpha⟩ := isMnemonic_iff.mp hword
    have hplain : ∀ c ∈ operand, isBlank c = false ∧ c ≠ ';' := by
      intro c hc
      simpa [isWordChar] using hoperand.2 c hc
    refine ⟨some ⟨word, some ⟨gap, operand, hgap, hne, hoperand.1, hplain⟩, hlength, halpha⟩,
      blanks, hblanks, ?_, ?_⟩
    · simp [OperationField.text]
    · simp [Split.operationOf, Nat.add_assoc]

theorem CommentPart.exists_comment (h : CommentPart tail comment) :
    ∃ text, tail = Option.elim text [] (fun comment => ';' :: comment) ∧
      comment = text.map String.ofList := by
  cases h with
  | absent => exact ⟨none, rfl, rfl⟩
  | @present text => exact ⟨some text, rfl, rfl⟩

/-- The parts of the grammar make up a split. -/
theorem ReadsAs.exists_split {fields : Fields} (h : ReadsAs cs (.ok fields)) :
    ∃ split : Split, split.text = cs ∧ split.fields = fields := by
  cases h with
  | fields hlabel hoperation hcomment =>
    obtain ⟨indent, labelField, hindent, rfl, rfl⟩ := hlabel.exists_labelField
    obtain ⟨operationField, gap, hgap, rfl, rfl⟩ := hoperation.exists_operationField
    obtain ⟨comment, rfl, rfl⟩ := hcomment.exists_comment
    refine ⟨⟨indent, labelField, operationField, gap, comment, hindent, hgap⟩, ?_, rfl⟩
    simp [Split.text, Split.front]

/-! ### One split is as good as another -/

theorem ReadsAs.unique {result result' : Except FieldError Fields} (h : ReadsAs cs result)
    (h' : ReadsAs cs result') : result = result' := by
  rw [← String.toList_ofList (l := cs)] at h h'
  rw [← read_of_readsAs h, ← read_of_readsAs h']

namespace Split

variable {a b : Split}

theorem stops_mnemonic (split : Split) (field : OperationField) :
    Stops isWordChar ((field.operand.elim [] fun operand => operand.gap ++ operand.word) ++
      (split.gap ++ split.comment.elim [] fun comment => ';' :: comment)) := by
  cases field.operand with
  | none =>
    rw [Option.elim_none, List.nil_append]
    exact stops_isWordChar_append split.isBlanks_gap split.commentPart.stops.2
  | some operand =>
    rw [Option.elim_some, List.append_assoc]
    exact stops_isWordChar_of_isBlanks operand.isBlanks operand.gap_ne_nil

/-- A line is read as the same fields, however it is split. -/
theorem fields_eq_of_text_eq (h : a.text = b.text) : a.fields = b.fields :=
  Except.ok.inj (ReadsAs.unique (h ▸ a.readsAs) b.readsAs)

/-- Its mnemonic is the same in any letter case, so it stands in the same place
    and is the same as it is written. -/
theorem mnemonic?_eq_of_text_eq (h : a.text = b.text) : a.mnemonic? = b.mnemonic? := by
  have hoperation := congrArg Fields.operation (fields_eq_of_text_eq h)
  simp only [fields] at hoperation
  unfold mnemonic?
  cases ha : a.operation with
  | none =>
    cases hb : b.operation with
    | none => rfl
    | some g => simp [ha, hb] at hoperation
  | some f =>
    cases hb : b.operation with
    | none => simp [ha, hb] at hoperation
    | some g =>
      simp only [text, ha, hb, Option.elim_some, OperationField.text, List.append_assoc] at h
      obtain ⟨-, hword, -⟩ := Fault.mnemonic_unique a.labelPart f.isMnemonic (a.stops_mnemonic f)
        b.labelPart g.isMnemonic (b.stops_mnemonic g) h
      rw [Option.map_some, Option.map_some, hword]

/-- An operand is not empty, so it is known from the text that is read for it. -/
theorem operand?_eq_of_text_eq (h : a.text = b.text) : a.operand? = b.operand? := by
  have hoperation := congrArg Fields.operation (fields_eq_of_text_eq h)
  simp only [fields] at hoperation
  unfold operand?
  cases ha : a.operation with
  | none =>
    cases hb : b.operation with
    | none => rfl
    | some g => simp [ha, hb] at hoperation
  | some f =>
    cases hb : b.operation with
    | none => simp [ha, hb] at hoperation
    | some g =>
      simp only [ha, hb, Option.map_some, Option.some.injEq, operationOf, Operation.mk.injEq,
        String.ofList_inj] at hoperation
      obtain ⟨-, -, hword, -⟩ := hoperation
      cases hf : f.operand with
      | none =>
        cases hg : g.operand with
        | none => simp [hf, hg]
        | some operand => simp [hf, hg, operand.word_ne_nil.symm] at hword
      | some operand =>
        cases hg : g.operand with
        | none => simp [hf, hg, operand.word_ne_nil] at hword
        | some other => simpa [hf, hg] using hword

theorem ne_semicolon (split : Split) {c : Char}
    (hc : c ∈ split.front ++ (split.operation.elim [] OperationField.text ++ split.gap)) :
    c ≠ ';' := by
  rw [front, List.mem_append, List.mem_append, List.mem_append] at hc
  rcases hc with (hindent | hlabel) | hoperation | hgap
  · exact ne_semicolon_of_isBlanks split.isBlanks_indent hindent
  · cases hfield : split.label with
    | none => simp [hfield] at hlabel
    | some field => exact field.ne_semicolon (by simpa [hfield] using hlabel)
  · cases hfield : split.operation with
    | none => simp [hfield] at hoperation
    | some field => exact field.ne_semicolon (by simpa [hfield] using hoperation)
  · exact ne_semicolon_of_isBlanks split.isBlanks_gap hgap

theorem dropWhile_text (split : Split) :
    split.text.dropWhile (· ≠ ';') = split.comment.elim [] fun comment => ';' :: comment := by
  have htext : split.text = split.front ++ (split.operation.elim [] OperationField.text ++ split.gap)
      ++ split.comment.elim [] fun comment => ';' :: comment := by
    simp only [text, List.append_assoc]
  rw [htext, List.dropWhile_append_of_pos]
  · cases split.comment <;> simp
  · intro c hc
    simpa using split.ne_semicolon hc

end Split

/-- **Lines are read as they split.** A line is read exactly if it can be split,
    and then as the parts of any split: the label, the mnemonic in upper case,
    the operand, the comment, and the columns in which mnemonic and operand
    start. The comment is what stands behind the first semicolon. Whatever way
    the blanks are cut, these parts are the same. -/
theorem read_eq_ok_iff_exists_split (text : String) :
    (∀ fields, read text = .ok fields ↔
      ∃ split : Split, split.text = text.toList ∧ split.fields = fields) ∧
    (∀ split : Split, split.text = text.toList →
      text.toList.dropWhile (· ≠ ';') = split.comment.elim [] fun comment => ';' :: comment) ∧
    ∀ a b : Split, a.text = text.toList → b.text = text.toList →
      a.label.map LabelField.name = b.label.map LabelField.name ∧
        a.mnemonic? = b.mnemonic? ∧ a.operand? = b.operand? ∧ a.comment = b.comment := by
  refine ⟨?_, ?_, ?_⟩
  · intro fields
    rw [read_eq_iff]
    constructor
    · exact ReadsAs.exists_split
    · intro ⟨split, htext, hfields⟩
      rw [← htext, ← hfields]
      exact split.readsAs
  · intro split htext
    rw [← htext]
    exact split.dropWhile_text
  · intro a b ha hb
    have htext : a.text = b.text := ha.trans hb.symm
    have hfields := Split.fields_eq_of_text_eq htext
    refine ⟨congrArg Fields.label hfields, Split.mnemonic?_eq_of_text_eq htext,
      Split.operand?_eq_of_text_eq htext, ?_⟩
    exact Option.map_injective (fun _ _ => String.ofList_inj.mp) (congrArg Fields.comment hfields)

/-- The space behind the label is part of either blanks, and the columns count
    the bytes of the wide blanks. -/
theorem read_eq_ok_iff_exists_split_wide :
    read "\u3000x: ;a;b" = .ok ⟨some "x", none, some "a;b"⟩ ∧
    read "\u3000x: lda\u00A0#$01;" =
      .ok ⟨some "x", some ⟨"LDA", 6, "#$01", 11⟩, some ""⟩ ∧
    ∃ a b : Split, a.gap ≠ b.gap ∧ a.text = "\u3000x: ;a;b".toList ∧
      b.text = "\u3000x: ;a;b".toList ∧ a.comment = some ['a', ';', 'b'] ∧
      b.comment = some ['a', ';', 'b'] := by
  have hwide : IsBlanks ['\u3000'] := List.all_eq_true.mp (by decide)
  have hspace : IsBlanks [' '] := List.all_eq_true.mp (by decide)
  have hhard : IsBlanks ['\u00A0'] := List.all_eq_true.mp (by decide)
  let label : LabelField := ⟨"x", [' '], by decide, List.all_eq_true.mp (by decide), hspace⟩
  let tight : LabelField := ⟨"x", [], by decide, List.all_eq_true.mp (by decide), isBlanks_nil⟩
  let operand : OperandField :=
    ⟨['\u00A0'], "#$01".toList, hhard, by decide, by decide, by simp; decide⟩
  let operation : OperationField :=
    ⟨"lda".toList, some operand, by decide, List.all_eq_true.mp (by decide)⟩
  let a : Split :=
    ⟨['\u3000'], some label, none, [], some ['a', ';', 'b'], hwide, isBlanks_nil⟩
  let b : Split :=
    ⟨['\u3000'], some tight, none, [' '], some ['a', ';', 'b'], hwide, hspace⟩
  let c : Split :=
    ⟨['\u3000'], some label, some operation, [], some [], hwide, isBlanks_nil⟩
  obtain ⟨hread, -, hunique⟩ := read_eq_ok_iff_exists_split "\u3000x: ;a;b"
  have ha : a.text = "\u3000x: ;a;b".toList := by
    simp [a, label, Split.text, Split.front, LabelField.text]
  have hb : b.text = "\u3000x: ;a;b".toList := by
    simp [b, tight, Split.text, Split.front, LabelField.text]
  have hc : c.text = "\u3000x: lda\u00A0#$01;".toList := by
    simp [c, label, operation, operand, Split.text, Split.front, LabelField.text, OperationField.text]
  have hfields : c.fields = ⟨some "x", some ⟨"LDA", 6, "#$01", 11⟩, some ""⟩ := by
    simp [c, label, operation, operand, Split.fields, Split.operationOf, Split.front,
      LabelField.text]
    decide
  have hcomment : a.comment = b.comment := (hunique a b ha hb).2.2.2
  refine ⟨(hread _).mpr ⟨a, ha, rfl⟩, ?_, a, b, by simp [a, b], ha, hb, rfl,
    hcomment.symm.trans rfl⟩
  exact ((read_eq_ok_iff_exists_split _).1 _).mpr ⟨c, hc, hfields⟩

end Fields

end Mos6502
