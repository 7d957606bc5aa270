/-! # Letter Case

    Mnemonics and operands may be written in either case. They are compared
    in upper case, and only the ASCII letters have one: any other character
    stands for itself.
-/

namespace Mos6502.Text

/-- The text with its ASCII letters in upper case. -/
def upper (text : String) : String := .ofList (text.toList.map Char.toUpper)

@[simp] theorem toList_upper (text : String) :
    (upper text).toList = text.toList.map Char.toUpper := by
  simp [upper]

theorem toUpper_toUpper (c : Char) : c.toUpper.toUpper = c.toUpper := by
  unfold Char.toUpper
  by_cases lower : 'a'.val ≤ c.val ∧ c.val ≤ 'z'.val
  · rw [dif_pos lower]
    apply dif_neg
    -- the letters in upper case stand before those in lower case
    show ¬ ('a'.val ≤ c.val + ('A'.val - 'a'.val) ∧ _)
    simp only [UInt32.le_iff_toNat_le, UInt32.toNat_add] at lower ⊢
    have distance : ('A'.val - 'a'.val).toNat = 2 ^ 32 - 32 := rfl
    have first : 'a'.val.toNat = 97 := rfl
    have last : 'z'.val.toNat = 122 := rfl
    omega
  · simp only [dif_neg lower]

theorem upper_upper (text : String) : upper (upper text) = upper text := by
  rw [upper, toList_upper, List.map_map, upper]
  apply congrArg
  apply List.map_congr_left
  intro c _
  exact toUpper_toUpper c

end Mos6502.Text
