import Mos6502.Proofs.Grammar
import Mos6502.Proofs.Reading

/-! # The Canonical Lines of a Statement

    A statement is listed as one line for its label and one for its
    instruction. Both lines can be read again: `Statement.read_label` and
    `Statement.read_format` give back the label and the instruction.

    That needs two facts about what has been read (`Statement.WellFormed`). A
    label is a word of letters and digits, and a mnemonic is three letters in
    upper case. Both are read off the grammar of lines, and so is that the
    canonical lines are well-formed.

    So canonical text reads back: operands do, and so do whole instructions
    (`reads_canonical_text`).
-/

namespace Mos6502

open Text

namespace Text

theorem toUpper_of_isAlpha {c : Char} (h : c.isAlpha) : c.toUpper.isAlpha ∧ isPlain c.toUpper := by
  have halpha : c.toUpper.isAlpha := by rwa [Char.isAlpha_toUpper_eq_isAlpha]
  refine ⟨halpha, isPlain_iff.mpr ⟨?_, ?_, toUpper_toUpper c⟩⟩
  · exact isBlank_eq_false_of_isAlphanum (by simp [Char.isAlphanum, halpha])
  · intro hsemicolon
    rw [hsemicolon] at halpha
    exact absurd halpha (by decide)

end Text

namespace Fields

/-! ### Fields that have been read -/

/-- A mnemonic is three letters in upper case. -/
def IsMnemonic (mnemonic : String) : Prop :=
  isMnemonic mnemonic.toList ∧ mnemonic.toList.all isPlain

theorem IsMnemonic.letters {mnemonic : String} (h : IsMnemonic mnemonic) :
    mnemonic.toList ≠ [] ∧ mnemonic.toList.all Char.isAlpha := by
  obtain ⟨hlength, halpha⟩ := isMnemonic_iff.mp h.1
  exact ⟨List.ne_nil_of_length_eq_add_one hlength, List.all_eq_true.mpr halpha⟩

theorem isMnemonic_map_toUpper {word : List Char} (h : isMnemonic word) :
    IsMnemonic (.ofList (word.map Char.toUpper)) := by
  obtain ⟨hlength, halpha⟩ := isMnemonic_iff.mp h
  refine ⟨?_, ?_⟩
  · rw [String.toList_ofList, isMnemonic_iff, List.length_map, List.forall_mem_map]
    exact ⟨hlength, fun c hc => (toUpper_of_isAlpha (halpha c hc)).1⟩
  · rw [String.toList_ofList, List.all_map, List.all_eq_true]
    exact fun c hc => (toUpper_of_isAlpha (halpha c hc)).2

/-- A mnemonic that has been read is its own upper case. -/
theorem IsMnemonic.upper_eq {mnemonic : String} (h : IsMnemonic mnemonic) :
    upper mnemonic = mnemonic := by
  rw [upper, map_toUpper_of_isPlain h.2, String.ofList_toList]

theorem isLabel_isMnemonic_of_read {text : String} {fields : Fields} (h : read text = .ok fields) :
    (∀ label, fields.label = some label → IsLabel label) ∧
      ∀ operation, fields.operation = some operation → IsMnemonic operation.mnemonic := by
  rw [read_eq_iff] at h
  generalize text.toList = cs at h
  cases h with
  | fields hlabel hoperation hcomment =>
    refine ⟨?_, ?_⟩
    · intro label hsome
      cases hlabel with
      | absent => simp at hsome
      | present hblanks hlabel hmore =>
        obtain rfl := Option.some.inj hsome
        exact hlabel
    · intro operation hsome
      cases hoperation with
      | absent => simp at hsome
      | bare hword hblanks =>
        obtain rfl := Option.some.inj hsome
        exact isMnemonic_map_toUpper hword
      | full hword hgap hne hoperand hblanks =>
        obtain rfl := Option.some.inj hsome
        exact isMnemonic_map_toUpper hword

/-! ### Reading canonical lines -/

theorem read_label {label : String} (h : IsLabel label) :
    read (label ++ ":") = .ok ⟨some label, none, none⟩ := by
  rw [read_eq_iff, String.toList_append]
  have hfields := ReadsAs.fields (.present isBlanks_nil h isBlanks_nil) .absent .absent
  rwa [List.append_nil, List.append_nil, List.nil_append] at hfields

/-- A formatted instruction is its mnemonic and its operand. A space stands
    between them if there is an operand to be seen. -/
theorem toList_format (mnemonic : String) (operand : Operand) :
    ∃ blanks, (Instruction.format mnemonic operand).toList =
        mnemonic.toList ++ (blanks ++ operand.text.toList) ∧
      (blanks = [] ∧ operand.text.toList = [] ∨ blanks = [' '] ∧ operand.text.toList ≠ []) := by
  cases operand with
  | implicit => exact ⟨[], by simp [Instruction.format, Operand.text], .inl ⟨rfl, rfl⟩⟩
  | _ =>
    refine ⟨[' '], by simp [Instruction.format], .inr ⟨rfl, ?_⟩⟩
    simp [Operand.text]

theorem read_format {mnemonic : String} (h : isMnemonic mnemonic.toList) (operand : Operand) :
    ∃ column, read (Instruction.format mnemonic operand) =
      .ok ⟨none, some ⟨upper mnemonic, 0, operand.text, column⟩, none⟩ := by
  obtain ⟨blanks, htext, hshape⟩ := toList_format mnemonic operand
  simp only [read_eq_iff, htext]
  rcases hshape with ⟨rfl, hnil⟩ | ⟨rfl, hne⟩
  · -- the mnemonic is all there is
    have hfields := ReadsAs.fields (.absent isBlanks_nil) (.bare h isBlanks_nil) .absent
    have htext' : operand.text = "" := String.toList_eq_nil_iff.mp hnil
    rw [List.nil_append, List.append_assoc] at hfields
    rw [hnil, htext']
    exact ⟨_, hfields⟩
  · have hoperand : IsWord isWordChar operand.text.toList :=
      ⟨hne, isWordChar_of_isPlain operand.all_isPlain_text⟩
    have hspace : IsBlanks [' '] := by simp [IsBlanks]; decide
    have hfields := ReadsAs.fields (.absent isBlanks_nil)
      (.full h hspace (by simp) hoperand isBlanks_nil) .absent
    rw [String.ofList_toList, List.append_nil, List.append_nil] at hfields
    exact ⟨_, hfields⟩

end Fields

namespace Statement

/-- **What has been read is well-formed**: the label is a word, and the
    mnemonic is three letters in upper case. -/
structure WellFormed (s : Statement) : Prop where
  /-- The label. -/
  label : ∀ label, s.label = some label → Fields.IsLabel label
  /-- The mnemonic. -/
  mnemonic : ∀ instruction, s.instruction = some instruction →
    Fields.IsMnemonic instruction.mnemonic

theorem wellFormed_of_read {n : Nat} {text : String} {s : Statement} (h : read n text = .ok s) :
    s.WellFormed := by
  rcases read_eq_ok_cases h with ⟨label, comment, hfields, rfl⟩ |
    ⟨label, operation, comment, operand, hfields, -, rfl⟩
  · exact ⟨(Fields.isLabel_isMnemonic_of_read hfields).1, by simp⟩
  · obtain ⟨hlabel, hmnemonic⟩ := Fields.isLabel_isMnemonic_of_read hfields
    refine ⟨hlabel, fun _ hsome => ?_⟩
    rw [← Option.some.inj hsome]
    exact hmnemonic operation rfl

theorem ReadAs.wellFormed {first : Nat} {lines : List String} {statements : List Statement}
    (h : ReadAs first lines statements) : ∀ s ∈ statements, s.WellFormed := by
  induction lines generalizing first statements with
  | nil => simp [readAs_nil.mp h]
  | cons line lines ih =>
    obtain ⟨s, rest, rfl, hs, hrest⟩ := readAs_cons_iff.mp h
    exact List.forall_mem_cons.mpr ⟨wellFormed_of_read hs, ih hrest⟩

theorem read_label (n : Nat) {label : String} (h : Fields.IsLabel label) :
    read n (label ++ ":") = .ok ⟨n, some label, none, none⟩ := by
  rw [read, Fields.read_label h]
  rfl

/-- A formatted instruction is read as the instruction, which starts in the first
    column, and its mnemonic is taken in upper case. -/
theorem read_format (n : Nat) {mnemonic : String} (h : Fields.isMnemonic mnemonic.toList)
    (operand : Operand) :
    read n (Instruction.format mnemonic operand) =
      .ok ⟨n, none, some ⟨upper mnemonic, operand, 0⟩, none⟩ := by
  obtain ⟨column, hfields⟩ := Fields.read_format h operand
  rw [read, hfields]
  simp only [ofFields, readInstruction, Operand.read_text, Except.map]

end Statement

/-! ### Canonical text -/

/-- **Canonical text reads back.** The text of an operand is read as the operand,
    with blanks around it and in any letter case as well. So no two operands have
    the same text, and whatever is read as an operand may be replaced by the text
    of the operand. The text of an instruction is read as the instruction alone,
    with its mnemonic in upper case. -/
theorem reads_canonical_text :
    (∀ (operand : Operand) (t : String), (trim t.toList).map Char.toUpper = operand.text.toList →
      Operand.read t = .ok operand) ∧
    Function.Injective Operand.text ∧
    (∀ (t : String) (operand : Operand), Operand.read t = .ok operand →
      Operand.read operand.text = Operand.read t) ∧
    ∀ (e : Encoded) (n : Nat), e.mnemonic.toList.length = 3 →
      (∀ c ∈ e.mnemonic.toList, c.isAlpha) →
      Statement.read n e.text = .ok ⟨n, none, some ⟨upper e.mnemonic, e.operand, 0⟩, none⟩ := by
  refine ⟨?_, ?_, ?_, ?_⟩
  · intro operand t h
    exact Operand.read_of_trim_upper_eq h
  · intro a b h
    -- the text is read as one operand only
    have hread := a.read_text
    rw [h, b.read_text] at hread
    exact (Except.ok.inj hread).symm
  · intro t operand h
    rw [h, operand.read_text]
  · intro e n hlength halpha
    exact Statement.read_format n (Fields.isMnemonic_iff.mpr ⟨hlength, halpha⟩) e.operand

/-- An operand between blanks, and an instruction, both not in upper case. -/
theorem reads_canonical_text_lower_case :
    Operand.read "\u3000($1f),y\t" = .ok (.indirectY 0x1F) ∧
    Operand.read "*+00" = .ok (.relative 0) ∧ Operand.read "*+0" = .ok (.relative 0) ∧
    Statement.read 7 "sTa *-128" = .ok ⟨7, none, some ⟨"STA", .relative (-128), 0⟩, none⟩ := by
  obtain ⟨hread, -, hagain, hformat⟩ := reads_canonical_text
  have hzero : Operand.read "*+00" = .ok (.relative 0) := by decide +kernel
  refine ⟨hread (.indirectY 0x1F) _ (by decide +kernel), hzero, ?_, ?_⟩
  · exact (hagain _ _ hzero).trans hzero
  · exact hformat ⟨1, 4, 0x0600, "sTa", .relative (-128), 0x91, [0x80]⟩ 7 (by decide)
      (List.all_eq_true.mp (by decide))

end Mos6502
