import Mos6502.Diagnostic
import Mos6502.Proofs.OperandGrammar

/-! # Why an Operand Is Refused

    Two sorts of operands are refused for their value and not for their format:
    a word that stands where a byte is needed, and a relative offset beyond a
    signed byte (`Operand.OutOfRange`). All other faults are of format. One of
    them is a literal with a wrong number of digits (`Operand.IsMiscounted`).

    Which fault comes up is not a matter of which reader happens to look at the
    text first: digits behind the marks of a byte (`Operand.ByteSlot`) or of an
    address are always handed to the reader of that literal
    (`readUpper_of_byteSlot`, `readUpper_of_addressSlot`), whose outcome is a
    matter of the digits alone (`readLiteral_cases`). And no other reader has a
    fault of these kinds (`readUpper_eq_error_cases`).
-/

namespace Mos6502

/-- Operands are refused for their value or for their format. -/
theorem OperandFault.kind_eq (fault : OperandFault) :
    fault.kind = .outOfRange ∨ fault.kind = .operandFormat := by
  cases fault <;> simp [OperandFault.kind]

namespace Operand

open Text

variable {text digits written : List Char} {fault : OperandFault}

/-! ### Where the digits of a literal stand -/

/-- **Digits in the place of a byte.** The last text is the literal as it is
    written, without the sign of the mode in front and without a closing. -/
inductive ByteSlot (digits : List Char) : List Char → List Char → Prop
  | immediate : ByteSlot digits ('#' :: digits) digits
  | immediateMarked : ByteSlot digits ('#' :: '$' :: digits) ('$' :: digits)
  | relative : ByteSlot digits ('*' :: '$' :: digits) ('$' :: digits)
  | indirect : ByteSlot digits ('(' :: '$' :: (digits ++ [')'])) ('$' :: digits)
  | indirectX : ByteSlot digits ('(' :: '$' :: (digits ++ [',', 'X', ')'])) ('$' :: digits)
  | indirectY : ByteSlot digits ('(' :: '$' :: (digits ++ [')', ',', 'Y'])) ('$' :: digits)

/-- Digits in the place of an address, which may be a byte or a word. -/
inductive AddressSlot (digits : List Char) : List Char → Prop
  | direct : AddressSlot digits ('$' :: digits)
  | indexedX : AddressSlot digits ('$' :: (digits ++ [',', 'X']))
  | indexedY : AddressSlot digits ('$' :: (digits ++ [',', 'Y']))

/-- One or more hexadecimal digits. -/
def IsHexNumeral (digits : List Char) : Prop := digits ≠ [] ∧ digits.all Char.isHexDigit

/-- **Operands that are out of range**, and the faults that say so. -/
inductive OutOfRange : List Char → OperandFault → Prop
  | word {text digits written : List Char} (hslot : ByteSlot digits text written)
      (hdigits : IsHexNumeral digits) (hlength : digits.length = 4) :
      OutOfRange text (.byteOutOfRange (.ofList written))
  | offset {numeral : List Char} {offset : Int} (hnumeral : SignedNumeral numeral offset)
      (hshort : numeral.length ≤ 4) (hout : offset < -128 ∨ 127 < offset) :
      OutOfRange ('*' :: numeral) (.offsetOutOfRange offset)

/-- Operands whose literal is made of digits, but not of two or four. -/
def IsMiscounted (text digits : List Char) : Prop :=
  ((∃ written, ByteSlot digits text written) ∨ AddressSlot digits text) ∧ IsHexNumeral digits ∧
    digits.length ≠ 2 ∧ digits.length ≠ 4

/-! ### Faults of literals -/

theorem map_eq_error_iff {ε α β : Type} {e : Except ε α} {f : α → β} {x : ε} :
    e.map f = .error x ↔ e = .error x := by
  cases e <;> simp [Except.map]

/-- The digits of a literal are refused for a character that is none, are read
    as a byte or a word, or are refused for their number. -/
theorem readLiteral_cases (digits : List Char) :
    (¬ IsHexNumeral digits ∧
      readLiteral digits = .error (.invalidHex (.ofList ('$' :: digits)))) ∨
    (IsHexNumeral digits ∧ digits.length = 2 ∧ ∃ value, readLiteral digits = .ok (.byte value)) ∨
    (IsHexNumeral digits ∧ digits.length = 4 ∧ ∃ value, readLiteral digits = .ok (.word value)) ∨
    (IsHexNumeral digits ∧ digits.length ≠ 2 ∧ digits.length ≠ 4 ∧
      readLiteral digits = .error (.hexDigitCount (.ofList ('$' :: digits)))) := by
  by_cases hnumeral : IsHexNumeral digits
  · have haccepted : (digits.isEmpty || !digits.all Char.isHexDigit) = false := by
      simp only [List.isEmpty_eq_false_iff.mpr hnumeral.1, hnumeral.2]
      rfl
    unfold readLiteral
    rw [haccepted]
    by_cases htwo : digits.length = 2
    · exact .inr (.inl ⟨hnumeral, htwo, _, by rw [htwo]; rfl⟩)
    by_cases hfour : digits.length = 4
    · exact .inr (.inr (.inl ⟨hnumeral, hfour, _, by rw [hfour]; rfl⟩))
    · refine .inr (.inr (.inr ⟨hnumeral, htwo, hfour, ?_⟩))
      simp
  · have hrefused : (digits.isEmpty || !digits.all Char.isHexDigit) = true := by
      unfold IsHexNumeral at hnumeral
      by_cases hnil : digits = [] <;> simp_all
    exact .inl ⟨hnumeral, by rw [readLiteral, if_pos hrefused]⟩

/-- A literal is miscounted if it has digits, but neither two nor four. -/
theorem readLiteral_eq_hexDigitCount_iff {literal : String} :
    readLiteral digits = .error (.hexDigitCount literal) ↔
      (IsHexNumeral digits ∧ digits.length ≠ 2 ∧ digits.length ≠ 4) ∧
        literal = .ofList ('$' :: digits) := by
  rcases readLiteral_cases digits with ⟨hnumeral, hread⟩ | ⟨hnumeral, hlength, value, hread⟩ |
    ⟨hnumeral, hlength, value, hread⟩ | ⟨hnumeral, htwo, hfour, hread⟩
  · simp [hread, hnumeral]
  · simp [hread, hlength]
  · simp [hread, hlength]
  · simp [hread, hnumeral, htwo, hfour, eq_comm]

theorem readByte_eq_hexDigitCount_iff {literal : String} :
    readByte digits written = .error (.hexDigitCount literal) ↔
      (IsHexNumeral digits ∧ digits.length ≠ 2 ∧ digits.length ≠ 4) ∧
        literal = .ofList ('$' :: digits) := by
  rw [← readLiteral_eq_hexDigitCount_iff, readByte]
  cases readLiteral digits with
  | error fault => simp
  | ok literal => cases literal <;> simp

theorem readByte_eq_byteOutOfRange_iff {literal : String} :
    readByte digits written = .error (.byteOutOfRange literal) ↔
      (IsHexNumeral digits ∧ digits.length = 4) ∧ literal = .ofList written := by
  unfold readByte
  rcases readLiteral_cases digits with ⟨hnumeral, hread⟩ | ⟨hnumeral, hlength, value, hread⟩ |
    ⟨hnumeral, hlength, value, hread⟩ | ⟨hnumeral, htwo, hfour, hread⟩
  · simp [hread, hnumeral]
  · simp [hread, hlength]
  · simp [hread, hnumeral, hlength, eq_comm]
  · simp [hread, hfour]

theorem kind_of_readLiteral (h : readLiteral digits = .error fault) :
    fault.kind = .operandFormat := by
  rcases readLiteral_cases digits with ⟨-, hread⟩ | ⟨-, -, value, hread⟩ |
    ⟨-, -, value, hread⟩ | ⟨-, -, -, hread⟩
  all_goals
    rw [hread] at h
    cases h
  · rfl
  · rfl

theorem kind_of_readByte (h : readByte digits written = .error fault) :
    fault.kind = .operandFormat ∨
      (IsHexNumeral digits ∧ digits.length = 4) ∧ fault = .byteOutOfRange (.ofList written) := by
  cases hread : readLiteral digits with
  | error other =>
    obtain rfl : other = fault := by simpa [readByte, hread] using h
    exact .inl (kind_of_readLiteral hread)
  | ok literal =>
    cases literal with
    | byte value => simp [readByte, hread] at h
    | word value =>
      obtain rfl : _ = fault := by simpa [readByte, hread] using h
      exact .inr ⟨(readByte_eq_byteOutOfRange_iff.mp h).1, rfl⟩

/-! ### The literal in its place is read -/

theorem readUpper_of_byteSlot (hslot : ByteSlot digits text written)
    (hdigits : IsHexNumeral digits) :
    ∃ make, readUpper text = (readByte digits written).map make := by
  obtain ⟨hne, hall⟩ := hdigits
  cases hslot with
  | immediate =>
    -- a digit is not the mark
    have hmark : ∀ rest, digits ≠ '$' :: rest := by
      rintro rest rfl
      exact absurd (List.all_eq_true.mp hall '$' List.mem_cons_self) (by decide)
    exact ⟨_, readUpper_immediate hmark⟩
  | immediateMarked => exact ⟨_, rfl⟩
  | relative =>
    refine ⟨fun byte => .relative byte.toInt8, ?_⟩
    simp only [readUpper, readOffset]
    cases readByte digits ('$' :: digits) <;> rfl
  | indirect => exact ⟨_, readIndirect_append .plain hne hall⟩
  | indirectX => exact ⟨_, readIndirect_append .indexedX hne hall⟩
  | indirectY => exact ⟨_, readIndirect_append .indexedY hne hall⟩

theorem readUpper_of_addressSlot (hslot : AddressSlot digits text)
    (hdigits : IsHexNumeral digits) :
    ∃ make, readUpper text = (readLiteral digits).map make := by
  obtain ⟨hne, hall⟩ := hdigits
  have hread : ∀ index : Index, readUpper ('$' :: (digits ++ index.suffix)) =
      (readLiteral digits).map (ofLiteral · index) := by
    intro index
    rw [readUpper, readAddress, splitIndex_append hne hall]
  cases hslot with
  | direct =>
    have hnone := hread .none
    rw [Index.suffix, List.append_nil] at hnone
    exact ⟨_, hnone⟩
  | indexedX => exact ⟨_, hread .x⟩
  | indexedY => exact ⟨_, hread .y⟩

/-- A decimal beyond a signed byte is read, and then refused for its value. -/
theorem readUpper_of_signedNumeral {numeral : List Char} {offset : Int}
    (hnumeral : SignedNumeral numeral offset) (hshort : numeral.length ≤ 4)
    (hout : offset < -128 ∨ 127 < offset) :
    readUpper ('*' :: numeral) = .error (.offsetOutOfRange offset) := by
  rw [readUpper, map_eq_error_iff, readOffset_of_signedNumeral hnumeral hshort, if_neg]
  omega

/-! ### Where a fault comes from -/

theorem readDecimal_eq_error (h : readDecimal text = .error fault) :
    fault = .invalidDecimal (.ofList text) := by
  unfold readDecimal at h
  split at h
  split at h
  · exact (Except.error.inj h).symm
  · simp at h

/-- An offset is refused as a byte behind its mark, for its value, or as what is
    no decimal. Two digits with a letter among them are never refused. -/
theorem readOffset_eq_error_cases (h : readOffset text = .error fault) :
    (∃ digits, text = '$' :: digits ∧ readByte digits text = .error fault) ∨
    OutOfRange ('*' :: text) fault ∨ fault = .invalidDecimal (.ofList text) := by
  unfold readOffset at h
  split at h
  · next digits => exact .inl ⟨digits, rfl, map_eq_error_iff.mp h⟩
  · split at h
    · next hbare =>
      obtain ⟨hlength, hall, -⟩ := isBareByte_iff.mp hbare
      have hnumeral : IsHexNumeral text := ⟨List.ne_nil_of_length_eq_add_one hlength, hall⟩
      rw [map_eq_error_iff] at h
      rcases readLiteral_cases text with ⟨hnone, -⟩ | ⟨-, -, value, hread⟩ | ⟨-, hfour, -⟩ |
        ⟨-, htwo, -⟩
      · exact absurd hnumeral hnone
      · simp [readByte, hread] at h
      · omega
      · exact absurd hlength htwo
    · split at h
      · next other hother =>
        obtain rfl := Except.error.inj h
        exact .inr (.inr (readDecimal_eq_error hother))
      · next offset hoffset =>
        obtain ⟨hnumeral, hshort⟩ := readDecimal_eq_ok_iff.mp hoffset
        split at h
        · simp at h
        · next hrange =>
          obtain rfl := Except.error.inj h
          exact .inr (.inl (.offset hnumeral hshort (by omega)))

/-- A pointer is refused as a byte behind its mark, or for want of the mark. -/
theorem readPointer_eq_error_cases {pointer : List Char}
    (h : readPointer text pointer = .error fault) :
    (∃ digits, pointer = '$' :: digits ∧ readByte digits pointer = .error fault) ∨
      fault = .unrecognized (.ofList text) := by
  unfold readPointer at h
  split at h
  · next digits => exact .inl ⟨digits, rfl, h⟩
  · exact .inr (Except.error.inj h).symm

/-- **Every refusal** comes from a literal in the place of a byte or of an
    address, or from a decimal that is out of range, or it is a matter of the
    shape of the text. -/
theorem readUpper_eq_error_cases (h : readUpper text = .error fault) :
    (∃ digits written, ByteSlot digits text written ∧ readByte digits written = .error fault) ∨
    (∃ digits, AddressSlot digits text ∧ readLiteral digits = .error fault) ∨
    OutOfRange text fault ∨
    ∃ shape, fault = .unrecognized shape ∨ fault = .invalidDecimal shape := by
  unfold readUpper at h
  split at h
  · simp at h
  · simp at h
  · exact .inl ⟨_, _, .immediateMarked, map_eq_error_iff.mp h⟩
  · exact .inl ⟨_, _, .immediate, map_eq_error_iff.mp h⟩
  · rcases readOffset_eq_error_cases (map_eq_error_iff.mp h) with ⟨digits, rfl, hread⟩ | hout |
      hshape
    · exact .inl ⟨digits, _, .relative, hread⟩
    · exact .inr (.inr (.inl hout))
    · exact .inr (.inr (.inr ⟨_, .inr hshape⟩))
  · next rest =>
    rcases readIndirect_cases ('(' :: rest) rest with hread | ⟨closing, make, pointer, hclosing,
      rfl, hread⟩
    · rw [hread] at h
      exact .inr (.inr (.inr ⟨_, .inl (Except.error.inj h).symm⟩))
    · rw [hread, map_eq_error_iff] at h
      rcases readPointer_eq_error_cases h with ⟨digits, rfl, hbyte⟩ | hshape
      · refine .inl ⟨digits, '$' :: digits, ?_, hbyte⟩
        cases hclosing with
        | plain => exact .indirect
        | indexedX => exact .indirectX
        | indexedY => exact .indirectY
      · exact .inr (.inr (.inr ⟨_, .inl hshape⟩))
  · next address =>
    refine .inr (.inl ⟨(splitIndex address).1, ?_, map_eq_error_iff.mp h⟩)
    have haddress := eq_append_splitIndex address
    generalize (splitIndex address).1 = digits at haddress ⊢
    cases hindex : (splitIndex address).2 with
    | none =>
      rw [haddress, hindex, Index.suffix, List.append_nil]
      exact .direct
    | x =>
      rw [haddress, hindex]
      exact .indexedX
    | y =>
      rw [haddress, hindex]
      exact .indexedY
  · exact .inr (.inr (.inr ⟨_, .inl (Except.error.inj h).symm⟩))

/-! ### The two kinds of faults -/

/-- An operand is refused for its value exactly if it is out of range, -/
theorem readUpper_outOfRange_iff :
    readUpper text = .error fault ∧ fault.kind = .outOfRange ↔ OutOfRange text fault := by
  constructor
  · intro ⟨h, hkind⟩
    rcases readUpper_eq_error_cases h with ⟨digits, written, hslot, hbyte⟩ |
      ⟨digits, -, hliteral⟩ | hout | ⟨shape, rfl | rfl⟩
    · rcases kind_of_readByte hbyte with hformat | ⟨⟨hdigits, hlength⟩, rfl⟩
      · simp [hformat] at hkind
      · exact .word hslot hdigits hlength
    · simp [kind_of_readLiteral hliteral] at hkind
    · exact hout
    · simp [OperandFault.kind] at hkind
    · simp [OperandFault.kind] at hkind
  · intro h
    cases h with
    | word hslot hdigits hlength =>
      obtain ⟨make, hread⟩ := readUpper_of_byteSlot hslot hdigits
      rw [hread, map_eq_error_iff, readByte_eq_byteOutOfRange_iff]
      exact ⟨⟨⟨hdigits, hlength⟩, rfl⟩, rfl⟩
    | offset hnumeral hshort hout =>
      exact ⟨readUpper_of_signedNumeral hnumeral hshort hout, rfl⟩

/-- and for the number of its digits exactly if they are miscounted. -/
theorem readUpper_hexDigitCount_iff {literal : String} :
    readUpper text = .error (.hexDigitCount literal) ↔
      ∃ digits, IsMiscounted text digits ∧ literal = .ofList ('$' :: digits) := by
  constructor
  · intro h
    rcases readUpper_eq_error_cases h with ⟨digits, written, hslot, hbyte⟩ |
      ⟨digits, hslot, hliteral⟩ | hout | ⟨shape, hshape | hshape⟩
    · obtain ⟨hcount, hshown⟩ := readByte_eq_hexDigitCount_iff.mp hbyte
      exact ⟨digits, ⟨.inl ⟨written, hslot⟩, hcount⟩, hshown⟩
    · obtain ⟨hcount, hshown⟩ := readLiteral_eq_hexDigitCount_iff.mp hliteral
      exact ⟨digits, ⟨.inr hslot, hcount⟩, hshown⟩
    · have hkind := (readUpper_outOfRange_iff.mpr hout).2
      simp [OperandFault.kind] at hkind
    · simp at hshape
    · simp at hshape
  · intro ⟨digits, ⟨hslot, hdigits, hcount⟩, hshown⟩
    rcases hslot with ⟨written, hslot⟩ | hslot
    · obtain ⟨make, hread⟩ := readUpper_of_byteSlot hslot hdigits
      rw [hread, map_eq_error_iff, readByte_eq_hexDigitCount_iff]
      exact ⟨⟨hdigits, hcount⟩, hshown⟩
    · obtain ⟨make, hread⟩ := readUpper_of_addressSlot hslot hdigits
      rw [hread, map_eq_error_iff, readLiteral_eq_hexDigitCount_iff]
      exact ⟨⟨hdigits, hcount⟩, hshown⟩

/-- **Range and format are told apart.** An operand is refused for its value
    exactly if, trimmed and in upper case, it is a word in the place of a byte or
    a short decimal beyond a signed byte, and the fault shows the literal or
    carries the number. Every other text that is no operand is refused for its
    format, and for the number of its digits exactly if it has only digits in the
    place of a literal, but neither two nor four. -/
theorem read_eq_error_iff_outOfRange (text : String) :
    let upper := (trim text.toList).map Char.toUpper
    (∀ fault, read text = .error fault ∧ fault.kind = .outOfRange ↔ OutOfRange upper fault) ∧
    ((∃ fault, read text = .error fault ∧ fault.kind = .operandFormat) ↔
      (∀ operand, read text ≠ .ok operand) ∧ ∀ fault, ¬ OutOfRange upper fault) ∧
    ∀ literal, read text = .error (.hexDigitCount literal) ↔
      ∃ digits, IsMiscounted upper digits ∧ literal = .ofList ('$' :: digits) := by
  intro upper
  have hrange : ∀ fault, read text = .error fault ∧ fault.kind = .outOfRange ↔
      OutOfRange upper fault := fun fault => readUpper_outOfRange_iff
  refine ⟨hrange, ?_, fun literal => readUpper_hexDigitCount_iff⟩
  constructor
  · intro ⟨fault, hread, hkind⟩
    refine ⟨by simp [hread], fun other hout => ?_⟩
    obtain ⟨hother, hrange⟩ := (hrange other).mpr hout
    obtain rfl : fault = other := Except.error.inj (hread.symm.trans hother)
    simp [hkind] at hrange
  · intro ⟨hrefused, hout⟩
    cases hread : read text with
    | ok operand => exact absurd hread (hrefused operand)
    | error fault =>
      rcases OperandFault.kind_eq fault with hkind | hkind
      · exact absurd ((hrange fault).mp ⟨hread, hkind⟩) (hout fault)
      · exact ⟨fault, rfl, hkind⟩

end Operand

end Mos6502
