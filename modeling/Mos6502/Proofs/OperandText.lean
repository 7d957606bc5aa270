import Mathlib
import Mos6502.Operand.Printing
import Mos6502.Proofs.OperandGrammar
import Mos6502.Statement.Fields

/-! # The Canonical Text of an Operand

    The canonical text of an operand reads back as the operand
    (`Operand.read_text`). Its characters are all plain: trimming and upper
    case leave them alone, and in a source line they make up one word. So all
    that has to be shown is that the text is a form of the operand
    (`Operand.form_text`), and that is up to its numerals.
-/

namespace Mos6502

namespace Text

/-! ### Trimming -/

theorem isBlank_eq_false_of_graphic {c : Char} (hfirst : 0x20 < c.toNat) (hlast : c.toNat < 0x7F) :
    isBlank c = false := by
  -- every range of blanks ends before the first graphic character or starts behind the last
  rw [isBlank, blankRanges, List.any_eq_false]
  intro range hrange
  simp only [List.mem_cons, List.not_mem_nil, or_false] at hrange
  rw [Bool.and_eq_true, decide_eq_true_eq, decide_eq_true_eq]
  rcases hrange with rfl | rfl | rfl | rfl | rfl | rfl | rfl | rfl | rfl | rfl <;> omega

theorem isBlank_eq_false_of_isAlphanum {c : Char} (h : c.isAlphanum) : isBlank c = false := by
  rw [Char.isAlphanum, Bool.or_eq_true, isAlpha_iff, isDigit_iff] at h
  exact isBlank_eq_false_of_graphic (by omega) (by omega)

theorem trimEnd_eq_self {cs : List Char} (h : ∀ c, cs.getLast? = some c → isBlank c = false) :
    trimEnd cs = cs := by
  refine List.rdropWhile_eq_self_iff.mpr fun hne => ?_
  rw [h _ (List.getLast?_eq_some_getLast hne)]
  exact Bool.false_ne_true

theorem trim_eq_self {cs : List Char} (h : ∀ c ∈ cs, isBlank c = false) : trim cs = cs := by
  have hstart : trimStart cs = cs := by
    refine List.dropWhile_eq_self_iff.mpr fun hlength => ?_
    rw [h _ (List.getElem_mem hlength)]
    exact Bool.false_ne_true
  rw [trim, hstart]
  exact trimEnd_eq_self fun c hc => h c (List.mem_of_getLast? hc)

/-! ### Plain characters -/

/-- A plain character can stand in a word, and its upper case is itself. -/
def isPlain (c : Char) : Bool := Fields.isWordChar c && c.toUpper = c

theorem isPlain_iff {c : Char} :
    isPlain c ↔ isBlank c = false ∧ c ≠ ';' ∧ c.toUpper = c := by
  simp [isPlain, Fields.isWordChar, and_assoc]

theorem toUpper_of_isPlain {cs : List Char} (h : cs.all isPlain) : ∀ c ∈ cs, c.toUpper = c :=
  fun c hc => (isPlain_iff.mp (List.all_eq_true.mp h c hc)).2.2

theorem map_toUpper_of_isPlain {cs : List Char} (h : cs.all isPlain) :
    cs.map Char.toUpper = cs := by
  rw [List.map_congr_left (toUpper_of_isPlain h), List.map_id']

theorem trim_of_isPlain {cs : List Char} (h : cs.all isPlain) : trim cs = cs :=
  trim_eq_self fun c hc => (isPlain_iff.mp (List.all_eq_true.mp h c hc)).1

theorem exists_getLast?_of_isPlain {cs : List Char} (hne : cs ≠ []) (h : cs.all isPlain) :
    ∃ c, cs.getLast? = some c ∧ isBlank c = false :=
  ⟨cs.getLast hne, List.getLast?_eq_some_getLast hne,
    (isPlain_iff.mp (List.all_eq_true.mp h _ (List.getLast_mem hne))).1⟩

theorem isWordChar_of_isPlain {cs : List Char} (h : cs.all isPlain) :
    ∀ c ∈ cs, Fields.isWordChar c :=
  fun c hc => (Bool.and_eq_true_iff.mp (List.all_eq_true.mp h c hc)).1

/-- Whatever holds of the sixteen digits holds of a written number. -/
theorem all_hexDigits {accept : Char → Bool} (haccept : ∀ value : Fin 16, accept (hexDigit value))
    (width value : Nat) : (hexDigits width value).all accept := by
  induction width generalizing value with
  | zero => rfl
  | succ width ih =>
    have hlast := haccept ⟨value % 16, Nat.mod_lt value (by decide)⟩
    rw [hexDigits, List.all_append, ih, Bool.true_and, List.all_cons, hlast]
    rfl

@[simp] theorem all_isPlain_hexDigits (width value : Nat) :
    (hexDigits width value).all isPlain :=
  all_hexDigits (by decide) width value

@[simp] theorem all_isHexDigit_hexDigits (width value : Nat) :
    (hexDigits width value).all Char.isHexDigit :=
  all_hexDigits (by decide) width value

theorem isPlain_of_isDigit {c : Char} (h : c.isDigit) : isPlain c := by
  refine isPlain_iff.mpr ⟨?_, ?_, ?_⟩
  · exact isBlank_eq_false_of_isAlphanum (by simp [Char.isAlphanum, h])
  · rintro rfl
    simp at h
  · -- digits stand before the letters that have an upper case
    apply Char.toUpper_eq_of_not_isLower
    intro hlower
    rw [isDigit_iff] at h
    have halpha := isAlpha_iff.mp (by rw [Char.isAlpha, hlower, Bool.or_true])
    omega

@[simp] theorem all_isPlain_toDigits (value : Nat) : (Nat.toDigits 10 value).all isPlain := by
  rw [List.all_eq_true]
  intro c hc
  exact isPlain_of_isDigit (Nat.isDigit_of_mem_toDigits (by decide) (by decide) hc)

/-! ### Numerals -/

/-- Fixed-width digits read back as the value modulo the width. -/
theorem hexValue_hexDigits (width value : Nat) :
    hexValue (hexDigits width value) = value % 16 ^ width := by
  induction width generalizing value with
  | zero => simp [hexDigits, hexValue, Nat.mod_one]
  | succ width ih =>
    have digit := hexDigitValue_hexDigit (Nat.mod_lt value (show 16 > 0 by decide))
    simp only [hexDigits, hexValue, List.foldl_append, List.foldl_cons, List.foldl_nil, digit]
    rw [show (hexDigits width (value / 16)).foldl (fun v c => 16 * v + hexDigitValue c) 0 =
      value / 16 % 16 ^ width from ih (value / 16), Nat.pow_succ', Nat.mod_mul, Nat.add_comm]

theorem denotes_hexDigits {width value : Nat} (h : value < 16 ^ width) :
    Denotes 16 (hexDigits width value) value := by
  refine (denotes_sixteen_iff (toUpper_of_isPlain (all_isPlain_hexDigits width value))).mpr ?_
  rw [hexValue_hexDigits, Nat.mod_eq_of_lt h]
  exact ⟨all_isHexDigit_hexDigits width value, rfl⟩

theorem denotes_toDigits (value : Nat) : Denotes 10 (Nat.toDigits 10 value) value := by
  refine denotes_ten_iff.mpr ⟨?_, Nat.ofDigitChars_ten_toDigits⟩
  rw [List.all_eq_true]
  intro c hc
  exact Nat.isDigit_of_mem_toDigits (by decide) (by decide) hc

theorem toList_signedDecimal (value : Int) :
    (signedDecimal value).toList =
      (if value < 0 then '-' else '+') :: Nat.toDigits 10 value.natAbs := by
  unfold signedDecimal
  rw [Nat.toString_eq_repr, String.toList_append, Nat.toList_repr]
  split <;> rfl

end Text

namespace Operand

open Text

/-! ### The characters of the text -/

/-- The text of an operand is made of plain characters. -/
theorem all_isPlain_text (operand : Operand) : operand.text.toList.all isPlain := by
  cases operand with
  | implicit => rfl
  | relative offset =>
    rw [text, String.toList_append, toList_signedDecimal, List.all_append, List.all_cons,
      all_isPlain_toDigits]
    split <;> decide
  | _ =>
    simp [text, hexByte, hexWord]
    decide

/-! ### The form of the text -/

theorem isLiteral_byte (value : UInt8) : IsLiteral (hexDigits 2 value.toNat) (.byte value) :=
  ⟨length_hexDigits 2 _, denotes_hexDigits value.toNat_lt⟩

theorem isLiteral_word (value : UInt16) : IsLiteral (hexDigits 4 value.toNat) (.word value) :=
  ⟨length_hexDigits 4 _, denotes_hexDigits value.toNat_lt⟩

/-- A decimal is written with its sign. -/
theorem signedNumeral_signedDecimal (value : Int) :
    SignedNumeral (signedDecimal value).toList value := by
  have hdigits := denotes_toDigits value.natAbs
  rw [toList_signedDecimal]
  by_cases hsign : value < 0
  · have hvalue : -(value.natAbs : Int) = value := by omega
    have hnumeral := SignedNumeral.minus hdigits Nat.toDigits_ne_nil
    rw [if_pos hsign]
    rwa [hvalue] at hnumeral
  · have hvalue : (value.natAbs : Int) = value := by omega
    have hnumeral := SignedNumeral.plus hdigits Nat.toDigits_ne_nil
    rw [if_neg hsign]
    rwa [hvalue] at hnumeral

/-- An offset has at most three digits. -/
theorem isOffset_signedDecimal (offset : Int8) :
    IsOffset (signedDecimal offset.toInt).toList offset := by
  refine .decimal (signedNumeral_signedDecimal offset.toInt) ?_
  have hlow := offset.le_toInt
  have hhigh := offset.toInt_lt
  have hlength : (Nat.toDigits 10 offset.toInt.natAbs).length ≤ 3 :=
    (Nat.length_toDigits_le_iff (by decide) (by decide)).mpr (by omega)
  rw [toList_signedDecimal, List.length_cons]
  omega

/-- The canonical text is a form of the operand that it was written for. -/
theorem form_text (operand : Operand) : Form operand.text.toList operand := by
  cases operand with
  | implicit => exact .implicit
  | accumulator => exact .accumulator
  | immediate value =>
    simpa [text, hexByte] using Form.immediateMarked (isLiteral_byte value)
  | relative offset => simpa [text] using Form.relative (isOffset_signedDecimal offset)
  | zeroPage address => simpa [text, hexByte] using Form.zeroPage (isLiteral_byte address)
  | zeroPageX address => simpa [text, hexByte] using Form.zeroPageX (isLiteral_byte address)
  | zeroPageY address => simpa [text, hexByte] using Form.zeroPageY (isLiteral_byte address)
  | absolute address => simpa [text, hexWord] using Form.absolute (isLiteral_word address)
  | absoluteX address => simpa [text, hexWord] using Form.absoluteX (isLiteral_word address)
  | absoluteY address => simpa [text, hexWord] using Form.absoluteY (isLiteral_word address)
  | indirect pointer => simpa [text, hexByte] using Form.indirect (isLiteral_byte pointer)
  | indirectX pointer => simpa [text, hexByte] using Form.indirectX (isLiteral_byte pointer)
  | indirectY pointer => simpa [text, hexByte] using Form.indirectY (isLiteral_byte pointer)

/-- A text that is the canonical one once it is trimmed and in upper case is read
    as the operand; -/
theorem read_of_trim_upper_eq {operand : Operand} {t : String}
    (h : (trim t.toList).map Char.toUpper = operand.text.toList) : read t = .ok operand := by
  rw [read, h]
  exact readUpper_of_form (toUpper_of_isPlain operand.all_isPlain_text) operand.form_text

/-- and so **the canonical text of an operand reads back** as the operand. -/
theorem read_text (operand : Operand) : read operand.text = .ok operand := by
  have hplain := operand.all_isPlain_text
  apply read_of_trim_upper_eq
  rw [trim_of_isPlain hplain, map_toUpper_of_isPlain hplain]

end Operand

end Mos6502
