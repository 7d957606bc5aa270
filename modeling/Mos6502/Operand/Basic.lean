import Mos6502.Mode

/-! # Operands

    An operand is an addressing mode with the payload that the mode calls
    for. The payload type of each constructor has the width of its mode, so an
    operand that does not fit its mode cannot be written down.
-/

namespace Mos6502

/-- An operand, by its addressing mode. -/
inductive Operand where
  | implicit
  | accumulator
  | immediate (value : UInt8)
  | zeroPage (address : UInt8)
  | zeroPageX (address : UInt8)
  | zeroPageY (address : UInt8)
  | relative (offset : Int8)
  | absolute (address : UInt16)
  | absoluteX (address : UInt16)
  | absoluteY (address : UInt16)
  | indirect (pointer : UInt8)
  | indirectX (pointer : UInt8)
  | indirectY (pointer : UInt8)
deriving DecidableEq, Repr

namespace Operand

/-- The addressing mode of an operand. -/
def mode : Operand → Mode
  | implicit => .implicit
  | accumulator => .accumulator
  | immediate _ => .immediate
  | zeroPage _ => .zeroPage
  | zeroPageX _ => .zeroPageX
  | zeroPageY _ => .zeroPageY
  | relative _ => .relative
  | absolute _ => .absolute
  | absoluteX _ => .absoluteX
  | absoluteY _ => .absoluteY
  | indirect _ => .indirect
  | indirectX _ => .indirectX
  | indirectY _ => .indirectY

/-- The two bytes of a word, low byte first. -/
def littleEndian (word : UInt16) : List UInt8 := [word.toUInt8, (word >>> 8).toUInt8]

/-- The payload in machine order: words low byte first, relative offsets in
    two's complement. -/
def payload : Operand → List UInt8
  | implicit | accumulator => []
  | relative offset => [offset.toUInt8]
  | absolute word | absoluteX word | absoluteY word => littleEndian word
  | immediate byte | zeroPage byte | zeroPageX byte | zeroPageY byte
  | indirect byte | indirectX byte | indirectY byte => [byte]

/-- The payload is as wide as the mode says. -/
@[simp] theorem length_payload (operand : Operand) :
    operand.payload.length = operand.mode.payloadWidth := by
  cases operand <;> rfl

/-- The two bytes of a word are its digits to base 256, the lower one first. -/
theorem toNat_littleEndian (word : UInt16) :
    (littleEndian word).map UInt8.toNat = [word.toNat % 256, word.toNat / 256] := by
  have bound := word.toNat_lt
  have high : (word >>> 8).toUInt8.toNat = word.toNat / 256 := by
    rw [UInt16.toNat_toUInt8, UInt16.toNat_shiftRight]
    show word.toNat >>> 8 % 256 = _
    rw [Nat.shiftRight_eq_div_pow]
    omega
  simp only [littleEndian, List.map_cons, List.map_nil, high, UInt16.toNat_toUInt8]

/-- The byte of a relative offset is its two's complement. -/
theorem toNat_toUInt8_offset (offset : Int8) :
    (offset.toUInt8.toNat : Int) = offset.toInt % 256 := by
  have bits : offset.toUInt8.toNat = offset.toBitVec.toNat := rfl
  rw [bits, ← Int8.toInt_toBitVec, BitVec.toInt_eq_toNat_cond]
  have bound := offset.toBitVec.isLt
  split <;> omega

/-- The number that an operand gives: a constant, an address or a distance. -/
def value : Operand → Int
  | implicit | accumulator => 0
  | relative offset => offset.toInt
  | absolute word | absoluteX word | absoluteY word => word.toNat
  | immediate byte | zeroPage byte | zeroPageX byte | zeroPageY byte
  | indirect byte | indirectX byte | indirectY byte => byte.toNat

/-- The payload holds the lowest bytes of the number, the very lowest first, as
    many as the mode has room for. Those of a negative number are its two's
    complement. -/
theorem toNat_payload (operand : Operand) :
    operand.payload.map (fun byte => (byte.toNat : Int)) =
      (List.range operand.mode.payloadWidth).map fun i : Nat =>
        operand.value >>> (8 * i) % 256 := by
  have single : ∀ n : Int,
      (List.range 1).map (fun i : Nat => n >>> (8 * i) % 256) = [n % 256] := by
    intro n
    simp [List.range_succ]
  have double : ∀ n : Int,
      (List.range 2).map (fun i : Nat => n >>> (8 * i) % 256) = [n % 256, n / 256 % 256] := by
    intro n
    simp [List.range_succ, Int.shiftRight_eq_div_pow]
  cases operand with
  | implicit | accumulator => rfl
  | relative offset =>
    refine Eq.trans ?_ (single offset.toInt).symm
    rw [payload, List.map_cons, toNat_toUInt8_offset, List.map_nil]
  | absolute word | absoluteX word | absoluteY word =>
    refine Eq.trans ?_ (double word.toNat).symm
    have bound := word.toNat_lt
    show (littleEndian word).map (Int.ofNat ∘ UInt8.toNat) = _
    rw [← List.map_map, toNat_littleEndian]
    simp only [List.map_cons, List.map_nil, Int.ofNat_eq_natCast, List.cons.injEq, and_true]
    omega
  | immediate byte | zeroPage byte | zeroPageX byte | zeroPageY byte
  | indirect byte | indirectX byte | indirectY byte =>
    refine Eq.trans ?_ (single byte.toNat).symm
    have bound := byte.toNat_lt
    simp only [payload, List.map_cons, List.map_nil, List.cons.injEq, and_true]
    omega

end Operand

end Mos6502
