import Mathlib
import Mos6502.Operand.Reading

/-! # The Grammar of Operands

    Which texts are operands is said by a grammar (`Operand.Form`) that knows
    nothing of how an operand is read: numbers are positional numerals
    (`Text.Denotes`), and each mode has its own marks around them.

    Reading follows the grammar (`Operand.read_eq_ok_iff_form`). It looks for a
    mark in front, then for one behind, and takes what is left for digits. No
    mark is a digit, so the digits of a form are what is left, and whatever else
    is left is not a numeral.
-/

namespace Mos6502

namespace Text

/-! ### Characters by their code points -/

theorem isDigit_iff {c : Char} : c.isDigit ↔ 48 ≤ c.toNat ∧ c.toNat ≤ 57 := by
  simp [Char.isDigit, UInt32.le_iff_toNat_le, ← Char.toNat_val]

theorem isAlpha_iff {c : Char} :
    c.isAlpha ↔ (65 ≤ c.toNat ∧ c.toNat ≤ 90) ∨ (97 ≤ c.toNat ∧ c.toNat ≤ 122) := by
  simp [Char.isAlpha, Char.isUpper, Char.isLower, UInt32.le_iff_toNat_le, ← Char.toNat_val]

theorem isHexDigit_iff {c : Char} :
    c.isHexDigit ↔ (48 ≤ c.toNat ∧ c.toNat ≤ 57) ∨ (97 ≤ c.toNat ∧ c.toNat ≤ 102) ∨
      (65 ≤ c.toNat ∧ c.toNat ≤ 70) := by
  simp [Char.isHexDigit, Char.isDigit, UInt32.le_iff_toNat_le, ← Char.toNat_val, or_assoc]

/-! ### Positional numerals -/

/-- The digits in the order of their values. -/
def digitChars : List Char :=
  ['0', '1', '2', '3', '4', '5', '6', '7', '8', '9', 'A', 'B', 'C', 'D', 'E', 'F']

/-- **Positional numerals**: digits of a base, the most significant one first,
    and the number that they denote. -/
inductive Denotes (base : Nat) : List Char → Nat → Prop
  | nil : Denotes base [] 0
  | snoc {digits : List Char} {value digit : Nat} {c : Char} (hdigits : Denotes base digits value)
      (hlt : digit < base) (hc : digitChars[digit]? = some c) :
      Denotes base (digits ++ [c]) (base * value + digit)

variable {base value : Nat} {digits : List Char}

/-- A numeral denotes a number below the power of the base that is as high as
    the numeral is long. -/
theorem Denotes.lt_pow (h : Denotes base digits value) : value < base ^ digits.length := by
  induction h with
  | nil => simp
  | @snoc digits value digit c hdigits hlt hc ih =>
    calc base * value + digit < base * (value + 1) := by rw [Nat.mul_add_one]; omega
      _ ≤ base * base ^ digits.length := Nat.mul_le_mul_left base ih
      _ = base ^ (digits ++ [c]).length := by rw [List.length_append, List.length_singleton,
          Nat.pow_succ']

/-- A reader of digits reads the numerals if it knows each digit. -/
theorem denotes_iff {accept : Char → Bool} {valueOf : Char → Nat}
    (hdigit : ∀ c digit, (digit < base ∧ digitChars[digit]? = some c) ↔
      accept c = true ∧ valueOf c = digit) :
    Denotes base digits value ↔
      digits.all accept ∧ digits.foldl (fun value c => base * value + valueOf c) 0 = value := by
  constructor
  · intro h
    induction h with
    | nil => exact ⟨rfl, rfl⟩
    | @snoc digits value digit c hdigits hlt hc ih =>
      obtain ⟨hall, hfold⟩ := ih
      obtain ⟨haccept, hvalue⟩ := (hdigit c digit).mp ⟨hlt, hc⟩
      simp [List.all_append, hall, haccept, hfold, hvalue]
  · intro ⟨hall, hfold⟩
    induction digits using List.reverseRecOn generalizing value with
    | nil => exact hfold ▸ .nil
    | append_singleton digits c ih =>
      simp only [List.all_append, List.all_cons, List.all_nil, Bool.and_true,
        Bool.and_eq_true] at hall
      obtain ⟨hlt, hc⟩ := (hdigit c (valueOf c)).mpr ⟨hall.2, rfl⟩
      rw [List.foldl_append] at hfold
      exact hfold ▸ .snoc (ih hall.1 rfl) hlt hc

theorem digitChars_getElem?_iff_isHexDigit (c : Char) (digit : Nat) :
    (digit < 16 ∧ digitChars[digit]? = some c) ↔
      (c.isHexDigit && decide (c.toUpper = c)) = true ∧ hexDigitValue c = digit := by
  constructor
  · intro ⟨hlt, hc⟩
    have hall : ∀ d : Fin 16, ((digitChars[d]).isHexDigit &&
        decide ((digitChars[d]).toUpper = digitChars[d])) = true ∧
        hexDigitValue digitChars[d] = d := by decide
    obtain ⟨_, rfl⟩ := List.getElem?_eq_some_iff.mp hc
    exact hall ⟨digit, hlt⟩
  · intro ⟨haccept, hvalue⟩
    have hall : ∀ n : Fin 128, ((Char.ofNat n).isHexDigit &&
        decide ((Char.ofNat n).toUpper = Char.ofNat n)) = true →
        hexDigitValue (Char.ofNat n) < 16 ∧
          digitChars[hexDigitValue (Char.ofNat n)]? = some (Char.ofNat n) := by decide
    have hlt : c.toNat < 128 := by
      have hhex := isHexDigit_iff.mp (Bool.and_eq_true_iff.mp haccept).1
      omega
    rw [← hvalue]
    simpa using hall ⟨c.toNat, hlt⟩ (by simpa using haccept)

theorem digitChars_getElem?_iff_isDigit (c : Char) (digit : Nat) :
    (digit < 10 ∧ digitChars[digit]? = some c) ↔
      c.isDigit = true ∧ c.toNat - '0'.toNat = digit := by
  constructor
  · intro ⟨hlt, hc⟩
    have hall : ∀ d : Fin 10, (digitChars[d.castLE (by decide : 10 ≤ 16)]).isDigit = true ∧
        (digitChars[d.castLE (by decide : 10 ≤ 16)]).toNat - '0'.toNat = d := by decide
    obtain ⟨_, rfl⟩ := List.getElem?_eq_some_iff.mp hc
    exact hall ⟨digit, hlt⟩
  · intro ⟨haccept, hvalue⟩
    have hall : ∀ n : Fin 128, (Char.ofNat n).isDigit = true →
        (Char.ofNat n).toNat - '0'.toNat < 10 ∧
          digitChars[(Char.ofNat n).toNat - '0'.toNat]? = some (Char.ofNat n) := by decide
    have hlt : c.toNat < 128 := by
      rw [isDigit_iff] at haccept
      omega
    rw [← hvalue]
    simpa using hall ⟨c.toNat, hlt⟩ (by simpa using haccept)

theorem denotes_sixteen_iff (hupper : ∀ c ∈ digits, c.toUpper = c) :
    Denotes 16 digits value ↔ digits.all Char.isHexDigit ∧ hexValue digits = value := by
  have hall : digits.all (fun c => c.isHexDigit && decide (c.toUpper = c)) =
      digits.all Char.isHexDigit := by
    rw [Bool.eq_iff_iff, List.all_eq_true, List.all_eq_true]
    simp +contextual [hupper]
  rw [denotes_iff digitChars_getElem?_iff_isHexDigit, hall]
  rfl

theorem denotes_ten_iff :
    Denotes 10 digits value ↔ digits.all Char.isDigit ∧ decimalValue digits = value :=
  denotes_iff digitChars_getElem?_iff_isDigit

end Text

namespace Operand

open Text

/-! ### Forms of operands -/

/-- Two digits are the literal of a byte and four digits that of a word. -/
def IsLiteral (digits : List Char) : Literal → Prop
  | .byte value => digits.length = 2 ∧ Denotes 16 digits value.toNat
  | .word value => digits.length = 4 ∧ Denotes 16 digits value.toNat

/-- A decimal with or without a sign, and the number that it denotes. -/
inductive SignedNumeral : List Char → Int → Prop
  | plain {digits : List Char} {magnitude : Nat} (hdigits : Denotes 10 digits magnitude)
      (hne : digits ≠ []) : SignedNumeral digits magnitude
  | plus {digits : List Char} {magnitude : Nat} (hdigits : Denotes 10 digits magnitude)
      (hne : digits ≠ []) : SignedNumeral ('+' :: digits) magnitude
  | minus {digits : List Char} {magnitude : Nat} (hdigits : Denotes 10 digits magnitude)
      (hne : digits ≠ []) : SignedNumeral ('-' :: digits) (-magnitude)

/-- A relative offset: a byte in two's complement, which needs a mark unless one
    of its digits is a letter, or a decimal of at most four characters. -/
inductive IsOffset : List Char → Int8 → Prop
  | marked {digits : List Char} {byte : UInt8} (hdigits : IsLiteral digits (.byte byte)) :
      IsOffset ('$' :: digits) byte.toInt8
  | bare {digits : List Char} {byte : UInt8} (hdigits : IsLiteral digits (.byte byte))
      (hletter : digits.any Char.isAlpha) : IsOffset digits byte.toInt8
  | decimal {text : List Char} {offset : Int8} (htext : SignedNumeral text offset.toInt)
      (hshort : text.length ≤ 4) : IsOffset text offset

/-- **The grammar of operands**: the texts, trimmed and in upper case, that
    denote an operand. -/
inductive Form : List Char → Operand → Prop
  | implicit : Form [] implicit
  | accumulator : Form ['A'] accumulator
  | immediate {digits : List Char} {value : UInt8} (hdigits : IsLiteral digits (.byte value)) :
      Form ('#' :: digits) (immediate value)
  | immediateMarked {digits : List Char} {value : UInt8}
      (hdigits : IsLiteral digits (.byte value)) : Form ('#' :: '$' :: digits) (immediate value)
  | zeroPage {digits : List Char} {address : UInt8} (hdigits : IsLiteral digits (.byte address)) :
      Form ('$' :: digits) (zeroPage address)
  | zeroPageX {digits : List Char} {address : UInt8} (hdigits : IsLiteral digits (.byte address)) :
      Form ('$' :: (digits ++ [',', 'X'])) (zeroPageX address)
  | zeroPageY {digits : List Char} {address : UInt8} (hdigits : IsLiteral digits (.byte address)) :
      Form ('$' :: (digits ++ [',', 'Y'])) (zeroPageY address)
  | relative {text : List Char} {offset : Int8} (htext : IsOffset text offset) :
      Form ('*' :: text) (relative offset)
  | absolute {digits : List Char} {address : UInt16} (hdigits : IsLiteral digits (.word address)) :
      Form ('$' :: digits) (absolute address)
  | absoluteX {digits : List Char} {address : UInt16} (hdigits : IsLiteral digits (.word address)) :
      Form ('$' :: (digits ++ [',', 'X'])) (absoluteX address)
  | absoluteY {digits : List Char} {address : UInt16} (hdigits : IsLiteral digits (.word address)) :
      Form ('$' :: (digits ++ [',', 'Y'])) (absoluteY address)
  | indirect {digits : List Char} {pointer : UInt8} (hdigits : IsLiteral digits (.byte pointer)) :
      Form ('(' :: '$' :: (digits ++ [')'])) (indirect pointer)
  | indirectX {digits : List Char} {pointer : UInt8} (hdigits : IsLiteral digits (.byte pointer)) :
      Form ('(' :: '$' :: (digits ++ [',', 'X', ')'])) (indirectX pointer)
  | indirectY {digits : List Char} {pointer : UInt8} (hdigits : IsLiteral digits (.byte pointer)) :
      Form ('(' :: '$' :: (digits ++ [')', ',', 'Y'])) (indirectY pointer)

variable {text digits : List Char} {operand : Operand}

theorem map_eq_ok_iff {ε α β : Type} {e : Except ε α} {f : α → β} {b : β} :
    e.map f = .ok b ↔ ∃ a, e = .ok a ∧ f a = b := by
  cases e <;> simp [Except.map]

/-! ### Literals -/

theorem IsLiteral.all_isHexDigit {literal : Literal} (hupper : ∀ c ∈ digits, c.toUpper = c)
    (h : IsLiteral digits literal) : digits ≠ [] ∧ digits.all Char.isHexDigit := by
  cases literal with
  | byte value =>
    exact ⟨List.ne_nil_of_length_eq_add_one h.1, ((denotes_sixteen_iff hupper).mp h.2).1⟩
  | word value =>
    exact ⟨List.ne_nil_of_length_eq_add_one h.1, ((denotes_sixteen_iff hupper).mp h.2).1⟩

/-- The literals are read as what they denote, and nothing else is read. -/
theorem readLiteral_eq_ok_iff {literal : Literal} (hupper : ∀ c ∈ digits, c.toUpper = c) :
    readLiteral digits = .ok literal ↔ IsLiteral digits literal := by
  by_cases hall : digits ≠ [] ∧ digits.all Char.isHexDigit
  · obtain ⟨hne, hall⟩ := hall
    have hdenotes : Denotes 16 digits (hexValue digits) :=
      (denotes_sixteen_iff hupper).mpr ⟨hall, rfl⟩
    have hvalue : ∀ value, Denotes 16 digits value ↔ hexValue digits = value := by
      simp [denotes_sixteen_iff hupper, hall]
    by_cases htwo : digits.length = 2
    · have hread : readLiteral digits = .ok (.byte (.ofNat (hexValue digits))) := by
        simp [readLiteral, hne, hall, htwo]
      have hbound : hexValue digits < 256 := by simpa [htwo] using hdenotes.lt_pow
      cases literal with
      | byte value =>
        simp [hread, IsLiteral, htwo, hvalue, ← UInt8.toNat_inj, Nat.mod_eq_of_lt hbound]
      | word value => simp [hread, IsLiteral, htwo]
    by_cases hfour : digits.length = 4
    · have hread : readLiteral digits = .ok (.word (.ofNat (hexValue digits))) := by
        simp [readLiteral, hne, hall, hfour]
      have hbound : hexValue digits < 65536 := by simpa [hfour] using hdenotes.lt_pow
      cases literal with
      | byte value => simp [hread, IsLiteral, hfour]
      | word value =>
        simp [hread, IsLiteral, hfour, hvalue, ← UInt16.toNat_inj, Nat.mod_eq_of_lt hbound]
    · have hread : readLiteral digits = .error (.hexDigitCount (.ofList ('$' :: digits))) := by
        simp [readLiteral, hne, hall]
      cases literal with
      | byte value => simp [hread, IsLiteral, htwo]
      | word value => simp [hread, IsLiteral, hfour]
  · have hread : readLiteral digits = .error (.invalidHex (.ofList ('$' :: digits))) := by
      rw [readLiteral, if_pos]
      by_cases hnil : digits = [] <;> simp_all
    rw [hread]
    simp only [reduceCtorEq, false_iff]
    exact fun h => hall (h.all_isHexDigit hupper)

theorem readByte_eq_ok_iff {byte : UInt8} (hupper : ∀ c ∈ digits, c.toUpper = c)
    (written : List Char) :
    readByte digits written = .ok byte ↔ IsLiteral digits (.byte byte) := by
  rw [← readLiteral_eq_ok_iff hupper, readByte]
  cases readLiteral digits with
  | error fault => simp
  | ok literal => cases literal <;> simp

/-! ### Relative offsets -/

theorem splitSign_cases (text : List Char) :
    (∃ digits, text = '-' :: digits ∧ splitSign text = (true, digits)) ∨
    (∃ digits, text = '+' :: digits ∧ splitSign text = (false, digits)) ∨
    splitSign text = (false, text) := by
  unfold splitSign
  split
  · exact .inl ⟨_, rfl, rfl⟩
  · exact .inr (.inl ⟨_, rfl, rfl⟩)
  · exact .inr (.inr rfl)

/-- Behind its sign, a decimal is read as the number that its digits denote. -/
theorem readDecimal_of_splitSign {negative : Bool} {offset : Int}
    (hsign : splitSign text = (negative, digits)) :
    readDecimal text = .ok offset ↔
      (digits ≠ [] ∧ text.length ≤ 4) ∧ ∃ magnitude, Denotes 10 digits magnitude ∧
        offset = if negative then -(magnitude : Int) else magnitude := by
  simp only [readDecimal, hsign, denotes_ten_iff, Bool.or_eq_true, Bool.not_eq_true',
    List.isEmpty_iff, decide_eq_true_eq]
  by_cases hrefused : (digits = [] ∨ 4 < text.length) ∨ digits.all Char.isDigit = false
  · rw [if_pos hrefused]
    simp only [reduceCtorEq, false_iff]
    rintro ⟨⟨hne, hshort⟩, magnitude, ⟨hall, -⟩, -⟩
    rcases hrefused with (hnil | hlong) | hnone
    · exact hne hnil
    · exact absurd hlong (Nat.not_lt.mpr hshort)
    · rw [hall] at hnone
      exact Bool.noConfusion hnone
  · rw [if_neg hrefused]
    simp only [not_or, Nat.not_lt, Bool.not_eq_false] at hrefused
    obtain ⟨⟨hne, hshort⟩, hall⟩ := hrefused
    simp [hne, hshort, hall, eq_comm]

/-- A decimal is read as the number that it denotes, if it is short enough. -/
theorem readDecimal_eq_ok_iff {offset : Int} :
    readDecimal text = .ok offset ↔ SignedNumeral text offset ∧ text.length ≤ 4 := by
  constructor
  · intro h
    rcases splitSign_cases text with ⟨digits, rfl, hsign⟩ | ⟨digits, rfl, hsign⟩ | hsign
    all_goals
      obtain ⟨⟨hne, hshort⟩, magnitude, hdigits, rfl⟩ := (readDecimal_of_splitSign hsign).mp h
      refine ⟨?_, hshort⟩
    · exact .minus hdigits hne
    · exact .plus hdigits hne
    · exact .plain hdigits hne
  · intro ⟨h, hshort⟩
    cases h with
    | @plain digits magnitude hdigits hne =>
      -- a digit is no sign
      have hall := (denotes_ten_iff.mp hdigits).1
      rcases splitSign_cases text with ⟨digits, rfl, -⟩ | ⟨digits, rfl, -⟩ | hsign
      · simp at hall
      · simp at hall
      · exact (readDecimal_of_splitSign hsign).mpr ⟨⟨hne, hshort⟩, magnitude, hdigits, rfl⟩
    | @plus digits magnitude hdigits hne =>
      exact (readDecimal_of_splitSign rfl).mpr ⟨⟨hne, hshort⟩, magnitude, hdigits, rfl⟩
    | @minus digits magnitude hdigits hne =>
      exact (readDecimal_of_splitSign rfl).mpr ⟨⟨hne, hshort⟩, magnitude, hdigits, rfl⟩

/-- Two digits with a letter among them are a byte without a mark. -/
theorem isBareByte_iff :
    isBareByte text ↔ text.length = 2 ∧ text.all Char.isHexDigit ∧ text.any Char.isAlpha := by
  simp [isBareByte, and_assoc]

/-- No decimal has a letter in it, or the mark of a hexadecimal literal. -/
theorem SignedNumeral.isAlpha_eq_false {value : Int} (h : SignedNumeral text value) :
    ∀ c ∈ text, c.isAlpha = false ∧ c ≠ '$' := by
  have hdigit : ∀ {digits : List Char} {magnitude : Nat}, Denotes 10 digits magnitude →
      ∀ c ∈ digits, c.isAlpha = false ∧ c ≠ '$' := by
    intro digits magnitude hdigits c hc
    have hdigit := isDigit_iff.mp (List.all_eq_true.mp (denotes_ten_iff.mp hdigits).1 c hc)
    refine ⟨?_, by rintro rfl; simp at hdigit⟩
    rw [Bool.eq_false_iff, ne_eq, isAlpha_iff]
    omega
  cases h with
  | plain hdigits => exact hdigit hdigits
  | plus hdigits => exact List.forall_mem_cons.mpr ⟨by decide, hdigit hdigits⟩
  | minus hdigits => exact List.forall_mem_cons.mpr ⟨by decide, hdigit hdigits⟩

theorem readOffset_of_signedNumeral {value : Int} (h : SignedNumeral text value)
    (hshort : text.length ≤ 4) :
    readOffset text =
      if -128 ≤ value ∧ value ≤ 127 then .ok (.ofInt value) else .error (.offsetOutOfRange value) := by
  have hplain := h.isAlpha_eq_false
  have hbare : ¬ isBareByte text := by
    intro hbare
    obtain ⟨c, hc, hletter⟩ := List.any_eq_true.mp (isBareByte_iff.mp hbare).2.2
    rw [(hplain c hc).1] at hletter
    exact Bool.noConfusion hletter
  unfold readOffset
  split
  · exact absurd rfl (hplain '$' List.mem_cons_self).2
  · rw [if_neg hbare, readDecimal_eq_ok_iff.mpr ⟨h, hshort⟩]

/-- Offsets are read as what they denote, and nothing else is read. -/
theorem readOffset_eq_ok_iff {offset : Int8} (hupper : ∀ c ∈ text, c.toUpper = c) :
    readOffset text = .ok offset ↔ IsOffset text offset := by
  constructor
  · intro h
    unfold readOffset at h
    split at h
    · next digits =>
      obtain ⟨byte, hbyte, rfl⟩ := map_eq_ok_iff.mp h
      exact .marked ((readByte_eq_ok_iff (List.forall_mem_cons.mp hupper).2 _).mp hbyte)
    · by_cases hbare : isBareByte text
      · rw [if_pos hbare] at h
        obtain ⟨byte, hbyte, rfl⟩ := map_eq_ok_iff.mp h
        exact .bare ((readByte_eq_ok_iff hupper _).mp hbyte) (isBareByte_iff.mp hbare).2.2
      · rw [if_neg hbare] at h
        split at h
        · simp at h
        · next value hvalue =>
          obtain ⟨hnumeral, hshort⟩ := readDecimal_eq_ok_iff.mp hvalue
          split at h
          · next hrange =>
            have htoInt : (Int8.ofInt value).toInt = value :=
              Int8.toInt_ofInt_of_le hrange.1 (by omega)
            rw [← Except.ok.inj h]
            exact .decimal (by rwa [htoInt]) hshort
          · simp at h
  · intro h
    cases h with
    | marked hdigits =>
      have hdigits' := (List.forall_mem_cons.mp hupper).2
      exact map_eq_ok_iff.mpr ⟨_, (readByte_eq_ok_iff hdigits' _).mpr hdigits, rfl⟩
    | bare hdigits hletter =>
      obtain ⟨-, hall⟩ := hdigits.all_isHexDigit hupper
      have hbare : isBareByte text := isBareByte_iff.mpr ⟨hdigits.1, hall, hletter⟩
      unfold readOffset
      split
      · exact absurd (List.all_eq_true.mp hall '$' List.mem_cons_self) (by decide)
      · rw [if_pos hbare]
        exact map_eq_ok_iff.mpr ⟨_, (readByte_eq_ok_iff hupper _).mpr hdigits, rfl⟩
    | decimal htext hshort =>
      have hlow := offset.le_toInt
      have hhigh := offset.toInt_lt
      rw [readOffset_of_signedNumeral htext hshort, if_pos (by omega), Int8.ofInt_toInt]

/-! ### Addresses -/

/-- What is written behind an address for its index. -/
def Index.suffix : Index → List Char
  | .none => []
  | .x => [',', 'X']
  | .y => [',', 'Y']

theorem isSuffixOf?_append (text suffix : List Char) :
    suffix.isSuffixOf? (text ++ suffix) = some text :=
  List.isSuffixOf?_eq_some_iff_append_eq.mpr rfl

theorem isSuffixOf?_append_append (text suffix tail : List Char) :
    (suffix ++ tail).isSuffixOf? (text ++ tail) = suffix.isSuffixOf? text := by
  ext rest
  rw [List.isSuffixOf?_eq_some_iff_append_eq, List.isSuffixOf?_eq_some_iff_append_eq,
    ← List.append_assoc, List.append_left_inj]

theorem isSuffixOf?_eq_none {text suffix tail : List Char} {c d : Char}
    (hsuffix : suffix.getLast? = some c) (htail : tail.getLast? = some d) (h : c ≠ d) :
    suffix.isSuffixOf? (text ++ tail) = none := by
  rw [Option.eq_none_iff_forall_ne_some]
  intro rest hrest
  rw [List.isSuffixOf?_eq_some_iff_append_eq] at hrest
  have hlast := congrArg List.getLast? hrest
  rw [List.getLast?_append, List.getLast?_append, hsuffix, htail] at hlast
  exact h (Option.some.inj hlast)

/-- A suffix that ends in another character than digits is not found behind
    them. -/
theorem isSuffixOf?_digits {suffix : List Char} {c : Char} (hsuffix : suffix.getLast? = some c)
    (hc : c.isHexDigit = false) (hne : digits ≠ []) (hall : digits.all Char.isHexDigit)
    (front : List Char) : suffix.isSuffixOf? (front ++ digits) = none := by
  refine isSuffixOf?_eq_none hsuffix (List.getLast?_eq_some_getLast hne) ?_
  intro heq
  rw [heq, List.all_eq_true.mp hall _ (List.getLast_mem hne)] at hc
  exact Bool.noConfusion hc

theorem splitIndex_append (hne : digits ≠ []) (hall : digits.all Char.isHexDigit) (index : Index) :
    splitIndex (digits ++ index.suffix) = (digits, index) := by
  unfold splitIndex
  cases index with
  | none =>
    have hx : [',', 'X'].isSuffixOf? digits = none := isSuffixOf?_digits rfl (by decide) hne hall []
    have hy : [',', 'Y'].isSuffixOf? digits = none := isSuffixOf?_digits rfl (by decide) hne hall []
    rw [Index.suffix, List.append_nil, hx, hy]
  | x => rw [Index.suffix, isSuffixOf?_append]
  | y =>
    -- the index `Y` is looked for after `X`
    rw [Index.suffix, isSuffixOf?_eq_none rfl rfl (by decide), isSuffixOf?_append]

theorem eq_append_splitIndex (text : List Char) :
    text = (splitIndex text).1 ++ (splitIndex text).2.suffix := by
  unfold splitIndex
  split
  · next h => exact (List.isSuffixOf?_eq_some_iff_append_eq.mp h).symm
  · split
    · next h => exact (List.isSuffixOf?_eq_some_iff_append_eq.mp h).symm
    · exact (List.append_nil text).symm

theorem readAddress_eq_ok_iff (hupper : ∀ c ∈ text, c.toUpper = c) :
    readAddress text = .ok operand ↔
      ∃ digits index literal, text = digits ++ index.suffix ∧ IsLiteral digits literal ∧
        operand = ofLiteral literal index := by
  constructor
  · intro h
    obtain ⟨literal, hliteral, rfl⟩ := map_eq_ok_iff.mp h
    have htext := eq_append_splitIndex text
    have hdigits : ∀ c ∈ (splitIndex text).1, c.toUpper = c := by
      intro c hc
      apply hupper
      rw [htext]
      exact List.mem_append_left _ hc
    exact ⟨_, _, literal, htext, (readLiteral_eq_ok_iff hdigits).mp hliteral, rfl⟩
  · intro ⟨digits, index, literal, htext, hliteral, hoperand⟩
    rw [htext] at hupper
    have hdigits := (List.forall_mem_append.mp hupper).1
    obtain ⟨hne, hall⟩ := hliteral.all_isHexDigit hdigits
    rw [htext, readAddress, splitIndex_append hne hall, hoperand]
    exact map_eq_ok_iff.mpr ⟨literal, (readLiteral_eq_ok_iff hdigits).mpr hliteral, rfl⟩

/-! ### Pointers -/

/-- A pointer is the literal of a byte behind its mark. -/
theorem readPointer_eq_ok_iff {pointer : List Char} {byte : UInt8}
    (hupper : ∀ c ∈ pointer, c.toUpper = c) :
    readPointer text pointer = .ok byte ↔
      ∃ digits, pointer = '$' :: digits ∧ IsLiteral digits (.byte byte) := by
  unfold readPointer
  split
  · next digits =>
    rw [readByte_eq_ok_iff (List.forall_mem_cons.mp hupper).2]
    simp
  · next hmark =>
    simp only [reduceCtorEq, false_iff]
    rintro ⟨digits, rfl, -⟩
    exact hmark digits rfl

/-- What closes an indirect operand behind its pointer, and the operand that
    this makes of the pointer. -/
inductive Closing : List Char → (UInt8 → Operand) → Prop
  | plain : Closing [')'] indirect
  | indexedX : Closing [',', 'X', ')'] indirectX
  | indexedY : Closing [')', ',', 'Y'] indirectY

/-- An indirect operand is not recognized, or it has a closing and is read as
    the pointer in front of that. -/
theorem readIndirect_cases (text rest : List Char) :
    readIndirect text rest = .error (.unrecognized (.ofList text)) ∨
    ∃ closing make pointer, Closing closing make ∧ rest = pointer ++ closing ∧
      readIndirect text rest = (readPointer text pointer).map make := by
  unfold readIndirect
  split
  · next h =>
    exact .inr ⟨_, _, _, .indexedX, (List.isSuffixOf?_eq_some_iff_append_eq.mp h).symm, rfl⟩
  · split
    · next h =>
      exact .inr ⟨_, _, _, .indexedY, (List.isSuffixOf?_eq_some_iff_append_eq.mp h).symm, rfl⟩
    · split
      · next h =>
        exact .inr ⟨_, _, _, .plain, (List.isSuffixOf?_eq_some_iff_append_eq.mp h).symm, rfl⟩
      · exact .inl rfl

/-- The closing behind some digits is found, so the digits are read. -/
theorem readIndirect_append {closing : List Char} {make : UInt8 → Operand}
    (hclosing : Closing closing make) (hne : digits ≠ []) (hall : digits.all Char.isHexDigit) :
    readIndirect text ('$' :: (digits ++ closing)) =
      (readByte digits ('$' :: digits)).map make := by
  rw [← List.cons_append, readIndirect]
  cases hclosing with
  | plain =>
    -- the digit in front of the closing parenthesis is not the index
    have hindex : [',', 'X', ')'].isSuffixOf? ('$' :: digits ++ [')']) = none :=
      (isSuffixOf?_append_append _ [',', 'X'] [')']).trans
        (isSuffixOf?_digits rfl (by decide) hne hall ['$'])
    rw [hindex, isSuffixOf?_eq_none rfl rfl (by decide), isSuffixOf?_append]
    rfl
  | indexedX =>
    rw [isSuffixOf?_append]
    rfl
  | indexedY =>
    rw [isSuffixOf?_eq_none rfl rfl (by decide), isSuffixOf?_append]
    rfl

theorem readIndirect_eq_ok_iff {rest : List Char} (hupper : ∀ c ∈ rest, c.toUpper = c) :
    readIndirect text rest = .ok operand ↔
      ∃ digits pointer, IsLiteral digits (.byte pointer) ∧
        (rest = '$' :: (digits ++ [')']) ∧ operand = indirect pointer ∨
          rest = '$' :: (digits ++ [',', 'X', ')']) ∧ operand = indirectX pointer ∨
          rest = '$' :: (digits ++ [')', ',', 'Y']) ∧ operand = indirectY pointer) := by
  constructor
  · intro h
    rcases readIndirect_cases text rest with hread | ⟨closing, make, pointer, hclosing, rfl, hread⟩
    · simp [hread] at h
    · rw [hread] at h
      obtain ⟨byte, hbyte, rfl⟩ := map_eq_ok_iff.mp h
      obtain ⟨digits, rfl, hdigits⟩ :=
        (readPointer_eq_ok_iff (List.forall_mem_append.mp hupper).1).mp hbyte
      refine ⟨digits, byte, hdigits, ?_⟩
      cases hclosing with
      | plain => exact .inl ⟨rfl, rfl⟩
      | indexedX => exact .inr (.inl ⟨rfl, rfl⟩)
      | indexedY => exact .inr (.inr ⟨rfl, rfl⟩)
  · intro ⟨digits, pointer, hdigits, hclosing⟩
    have hdollar : ∀ c ∈ digits, c.toUpper = c := by
      intro c hc
      apply hupper
      rcases hclosing with ⟨rfl, -⟩ | ⟨rfl, -⟩ | ⟨rfl, -⟩ <;> simp [hc]
    obtain ⟨hne, hall⟩ := hdigits.all_isHexDigit hdollar
    have hpointer : readByte digits ('$' :: digits) = .ok pointer :=
      (readByte_eq_ok_iff hdollar _).mpr hdigits
    rcases hclosing with ⟨rfl, rfl⟩ | ⟨rfl, rfl⟩ | ⟨rfl, rfl⟩
    · exact readIndirect_append .plain hne hall ▸ map_eq_ok_iff.mpr ⟨pointer, hpointer, rfl⟩
    · exact readIndirect_append .indexedX hne hall ▸ map_eq_ok_iff.mpr ⟨pointer, hpointer, rfl⟩
    · exact readIndirect_append .indexedY hne hall ▸ map_eq_ok_iff.mpr ⟨pointer, hpointer, rfl⟩

/-! ### Operands -/

theorem readUpper_immediate (hmark : ∀ rest, digits ≠ '$' :: rest) :
    readUpper ('#' :: digits) = (readByte digits digits).map immediate := by
  rw [readUpper]
  exact hmark

/-- What is read is what a form denotes, -/
theorem form_of_readUpper (hupper : ∀ c ∈ text, c.toUpper = c) (h : readUpper text = .ok operand) :
    Form text operand := by
  unfold readUpper at h
  split at h
  · exact Except.ok.inj h ▸ .implicit
  · exact Except.ok.inj h ▸ .accumulator
  · have hdigits := (List.forall_mem_cons.mp (List.forall_mem_cons.mp hupper).2).2
    obtain ⟨value, hvalue, rfl⟩ := map_eq_ok_iff.mp h
    exact .immediateMarked ((readByte_eq_ok_iff hdigits _).mp hvalue)
  · have hdigits := (List.forall_mem_cons.mp hupper).2
    obtain ⟨value, hvalue, rfl⟩ := map_eq_ok_iff.mp h
    exact .immediate ((readByte_eq_ok_iff hdigits _).mp hvalue)
  · have hoffset := (List.forall_mem_cons.mp hupper).2
    obtain ⟨offset, hread, rfl⟩ := map_eq_ok_iff.mp h
    exact .relative ((readOffset_eq_ok_iff hoffset).mp hread)
  · have hrest := (List.forall_mem_cons.mp hupper).2
    obtain ⟨digits, pointer, hdigits, ⟨rfl, rfl⟩ | ⟨rfl, rfl⟩ | ⟨rfl, rfl⟩⟩ :=
      (readIndirect_eq_ok_iff hrest).mp h
    · exact .indirect hdigits
    · exact .indirectX hdigits
    · exact .indirectY hdigits
  · have haddress := (List.forall_mem_cons.mp hupper).2
    obtain ⟨digits, index, literal, rfl, hliteral, rfl⟩ := (readAddress_eq_ok_iff haddress).mp h
    -- the literal and the index are the mode
    cases literal <;> cases index
    all_goals simp only [Index.suffix, List.append_nil]
    · exact .zeroPage hliteral
    · exact .zeroPageX hliteral
    · exact .zeroPageY hliteral
    · exact .absolute hliteral
    · exact .absoluteX hliteral
    · exact .absoluteY hliteral
  · simp at h

/-- and what a form denotes is read. -/
theorem readUpper_of_form (hupper : ∀ c ∈ text, c.toUpper = c) (h : Form text operand) :
    readUpper text = .ok operand := by
  cases h with
  | implicit => rfl
  | accumulator => rfl
  | @immediate digits value hdigits =>
    have hupper' := (List.forall_mem_cons.mp hupper).2
    have hvalue := (readByte_eq_ok_iff hupper' digits).mpr hdigits
    obtain ⟨-, hall⟩ := hdigits.all_isHexDigit hupper'
    -- a digit is not the mark
    have hmark : ∀ rest, digits ≠ '$' :: rest := by
      rintro rest rfl
      exact absurd (List.all_eq_true.mp hall '$' List.mem_cons_self) (by decide)
    rw [readUpper_immediate hmark]
    exact map_eq_ok_iff.mpr ⟨value, hvalue, rfl⟩
  | immediateMarked hdigits =>
    have hupper' := (List.forall_mem_cons.mp (List.forall_mem_cons.mp hupper).2).2
    exact map_eq_ok_iff.mpr ⟨_, (readByte_eq_ok_iff hupper' _).mpr hdigits, rfl⟩
  | relative htext =>
    have hupper' := (List.forall_mem_cons.mp hupper).2
    exact map_eq_ok_iff.mpr ⟨_, (readOffset_eq_ok_iff hupper').mpr htext, rfl⟩
  | indirect hdigits =>
    have hupper' := (List.forall_mem_cons.mp hupper).2
    exact (readIndirect_eq_ok_iff hupper').mpr ⟨_, _, hdigits, .inl ⟨rfl, rfl⟩⟩
  | indirectX hdigits =>
    have hupper' := (List.forall_mem_cons.mp hupper).2
    exact (readIndirect_eq_ok_iff hupper').mpr ⟨_, _, hdigits, .inr (.inl ⟨rfl, rfl⟩)⟩
  | indirectY hdigits =>
    have hupper' := (List.forall_mem_cons.mp hupper).2
    exact (readIndirect_eq_ok_iff hupper').mpr ⟨_, _, hdigits, .inr (.inr ⟨rfl, rfl⟩)⟩
  | zeroPage hdigits | absolute hdigits =>
    have hupper' := (List.forall_mem_cons.mp hupper).2
    exact (readAddress_eq_ok_iff hupper').mpr
      ⟨_, .none, _, (List.append_nil _).symm, hdigits, rfl⟩
  | zeroPageX hdigits | absoluteX hdigits =>
    have hupper' := (List.forall_mem_cons.mp hupper).2
    exact (readAddress_eq_ok_iff hupper').mpr ⟨_, .x, _, rfl, hdigits, rfl⟩
  | zeroPageY hdigits | absoluteY hdigits =>
    have hupper' := (List.forall_mem_cons.mp hupper).2
    exact (readAddress_eq_ok_iff hupper').mpr ⟨_, .y, _, rfl, hdigits, rfl⟩

/-- **Operands are read by their grammar**: a text is read as an operand exactly
    if, without the blanks around it and in upper case, it has a form of the
    operand. -/
theorem read_eq_ok_iff_form (text : String) (operand : Operand) :
    read text = .ok operand ↔ Form ((trim text.toList).map Char.toUpper) operand := by
  have hupper : ∀ c ∈ (trim text.toList).map Char.toUpper, c.toUpper = c := by
    intro c hc
    obtain ⟨d, -, rfl⟩ := List.mem_map.mp hc
    exact toUpper_toUpper d
  exact ⟨form_of_readUpper hupper, readUpper_of_form hupper⟩

end Operand

end Mos6502
