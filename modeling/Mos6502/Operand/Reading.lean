import Mos6502.Operand.Basic
import Mos6502.Text.Blank
import Mos6502.Text.Case
import Mos6502.Text.Numeral

/-! # Reading Operands

    The text of an operand, trimmed of blanks and taken in upper case, fixes
    its addressing mode:

      * nothing is `implicit` and `A` is `accumulator`;
      * `#hh` and `#$hh` are `immediate`;
      * `$hh` and `$hhhh`, plain or followed by `,X` or `,Y`, are zero-page and
        absolute addresses, told apart by the number of digits alone;
      * `($hh)`, `($hh,X)` and `($hh),Y` are the indirect modes;
      * `*` and a signed decimal, or a byte in hexadecimal, is `relative`.
-/

namespace Mos6502

open Text

/-- Why a text is not an operand. Literals are kept as they were written, in
    upper case. -/
inductive OperandFault where
  /-- The text has the shape of no addressing mode. -/
  | unrecognized (text : String)
  /-- A literal has no digit, or a character that is not one. -/
  | invalidHex (literal : String)
  /-- A literal has neither two nor four digits. -/
  | hexDigitCount (literal : String)
  /-- A relative offset is neither a byte nor a short signed decimal. -/
  | invalidDecimal (text : String)
  /-- A relative offset does not fit in a signed byte. -/
  | offsetOutOfRange (offset : Int)
  /-- A word stands where a byte is needed. -/
  | byteOutOfRange (literal : String)
deriving DecidableEq, Repr

/-- The text of a diagnostic. -/
def OperandFault.message : OperandFault → String
  | .unrecognized text => s!"unrecognized operand '{text}'"
  | .invalidHex literal => s!"invalid hex literal '{literal}'"
  | .hexDigitCount literal => s!"hex literal '{literal}' must have 2 or 4 digits"
  | .invalidDecimal text =>
    s!"invalid relative offset '{text}': expected a signed decimal of at most 4 characters"
  | .offsetOutOfRange offset => s!"relative offset {offset} is outside -128..127"
  | .byteOutOfRange literal => s!"'{literal}' does not fit in one byte"

namespace Operand

/-! ### Literals -/

/-- A hexadecimal literal, sized by the number of its digits. -/
inductive Literal where
  | byte (value : UInt8)
  | word (value : UInt16)
deriving DecidableEq, Repr

/-- Reads the digits of a literal. -/
def readLiteral (digits : List Char) : Except OperandFault Literal :=
  if digits.isEmpty || !digits.all Char.isHexDigit then
    .error (.invalidHex (.ofList ('$' :: digits)))
  else
    match digits.length with
    | 2 => .ok (.byte (.ofNat (hexValue digits)))
    | 4 => .ok (.word (.ofNat (hexValue digits)))
    | _ => .error (.hexDigitCount (.ofList ('$' :: digits)))

/-- Reads the digits of a literal that has to be a byte. A word is out of range
    and is reported as it was written. -/
def readByte (digits written : List Char) : Except OperandFault UInt8 :=
  match readLiteral digits with
  | .ok (.byte value) => .ok value
  | .ok (.word _) => .error (.byteOutOfRange (.ofList written))
  | .error fault => .error fault

/-! ### Relative offsets -/

/-- Two hexadecimal digits, at least one of them a letter: a byte that needs
    no mark to be told from a decimal. -/
def isBareByte (text : List Char) : Bool :=
  text.length = 2 && text.all Char.isHexDigit && text.any Char.isAlpha

/-- Splits off a sign; the first part says whether it is a minus. -/
def splitSign : List Char → Bool × List Char
  | '-' :: digits => (true, digits)
  | '+' :: digits => (false, digits)
  | digits => (false, digits)

/-- Reads a decimal of at most four characters, its sign included. -/
def readDecimal (text : List Char) : Except OperandFault Int :=
  let (negative, digits) := splitSign text
  if digits.isEmpty || 4 < text.length || !digits.all Char.isDigit then
    .error (.invalidDecimal (.ofList text))
  else
    let magnitude : Int := decimalValue digits
    .ok (if negative then -magnitude else magnitude)

/-- Reads what follows the `*`: a byte in two's complement, or a decimal. -/
def readOffset (text : List Char) : Except OperandFault Int8 :=
  match text with
  | '$' :: digits => (readByte digits text).map UInt8.toInt8
  | _ =>
    if isBareByte text then
      (readByte text text).map UInt8.toInt8
    else
      match readDecimal text with
      | .error fault => .error fault
      | .ok offset =>
        if -128 ≤ offset ∧ offset ≤ 127 then .ok (.ofInt offset)
        else .error (.offsetOutOfRange offset)

/-! ### Addresses and pointers -/

/-- The register that an address is indexed by. -/
inductive Index where
  | none
  | x
  | y
deriving DecidableEq, Repr

/-- Splits an index off the end of an address. -/
def splitIndex (text : List Char) : List Char × Index :=
  match [',', 'X'].isSuffixOf? text with
  | some digits => (digits, .x)
  | .none =>
    match [',', 'Y'].isSuffixOf? text with
    | some digits => (digits, .y)
    | .none => (text, .none)

/-- The address that a literal and an index denote. -/
def ofLiteral : Literal → Index → Operand
  | .byte address, .none => zeroPage address
  | .byte address, .x => zeroPageX address
  | .byte address, .y => zeroPageY address
  | .word address, .none => absolute address
  | .word address, .x => absoluteX address
  | .word address, .y => absoluteY address

/-- Reads what follows the `$` of an address. -/
def readAddress (text : List Char) : Except OperandFault Operand :=
  let (digits, index) := splitIndex text
  (readLiteral digits).map (ofLiteral · index)

/-- Reads the pointer of an indirect operand, which needs a `$`; `text` is the
    whole operand. -/
def readPointer (text pointer : List Char) : Except OperandFault UInt8 :=
  match pointer with
  | '$' :: digits => readByte digits pointer
  | _ => .error (.unrecognized (.ofList text))

/-- Reads what follows the `(` of an indirect operand; `text` is the whole
    operand. -/
def readIndirect (text rest : List Char) : Except OperandFault Operand :=
  match [',', 'X', ')'].isSuffixOf? rest with
  | some pointer => (readPointer text pointer).map indirectX
  | none =>
    match [')', ',', 'Y'].isSuffixOf? rest with
    | some pointer => (readPointer text pointer).map indirectY
    | none =>
      match [')'].isSuffixOf? rest with
      | some pointer => (readPointer text pointer).map indirect
      | none => .error (.unrecognized (.ofList text))

/-! ### Operands -/

/-- Reads an operand that is trimmed and in upper case. -/
def readUpper (text : List Char) : Except OperandFault Operand :=
  match text with
  | [] => .ok implicit
  | ['A'] => .ok accumulator
  | '#' :: '$' :: digits => (readByte digits ('$' :: digits)).map immediate
  | '#' :: digits => (readByte digits digits).map immediate
  | '*' :: offset => (readOffset offset).map relative
  | '(' :: rest => readIndirect text rest
  | '$' :: address => readAddress address
  | _ => .error (.unrecognized (.ofList text))

/-- Reads the text of an operand in any letter case, blanks around it
    ignored. -/
def read (text : String) : Except OperandFault Operand :=
  readUpper ((trim text.toList).map Char.toUpper)

end Operand

end Mos6502
