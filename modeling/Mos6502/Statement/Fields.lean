import Mos6502.Text.Case
import Mos6502.Text.Cursor

/-! # The Fields of a Source Line

    A line has up to four fields, always in this order:

        [label:] [mnemonic [operand]] [; comment]

    A label is a word of letters and digits ended by a colon, a mnemonic is
    a word of three letters, and an operand is one word; blanks may stand
    between all fields. The first field that breaks these rules is reported
    with the column at which it starts. Operands are not looked into here.
-/

namespace Mos6502

open Text

/-- What is wrong with the fields of a line. -/
inductive FieldFault where
  /-- A colon without a label. -/
  | emptyLabel
  /-- A label with a character that is neither a letter nor a digit. -/
  | invalidLabel (label : String)
  /-- A word in the place of the mnemonic that is not three letters. -/
  | invalidMnemonic (word : String)
  /-- Text between the operand and the comment. -/
  | trailingText (text : String)
deriving DecidableEq, Repr

/-- The text of a diagnostic. -/
def FieldFault.message : FieldFault → String
  | .emptyLabel => "empty label name"
  | .invalidLabel label =>
    s!"invalid label '{label}': labels may only contain letters and digits"
  | .invalidMnemonic word => s!"invalid mnemonic '{word}': expected exactly three letters"
  | .trailingText text => s!"unexpected '{text}' after instruction"

/-- A fault and the column in bytes at which the offending field starts. -/
structure FieldError where
  /-- Column of the offending field. -/
  column : Nat
  /-- What is wrong with it. -/
  fault : FieldFault
deriving DecidableEq, Repr

/-- The mnemonic of a line with its operand. -/
structure Operation where
  /-- The mnemonic in upper case. -/
  mnemonic : String
  /-- Column of the mnemonic. -/
  column : Nat
  /-- The operand as written; empty if there is none. -/
  operand : String
  /-- Column of the operand, or where it would start. -/
  operandColumn : Nat
deriving DecidableEq, Repr

/-- A line split into its fields. -/
structure Fields where
  /-- The label without its colon. -/
  label : Option String
  /-- The mnemonic and its operand. -/
  operation : Option Operation
  /-- The text behind the semicolon. -/
  comment : Option String
deriving DecidableEq, Repr

namespace Fields

/-- Does the line hold nothing but a comment? -/
def isEmpty (fields : Fields) : Bool := fields.label.isNone && fields.operation.isNone

/-! ### Words -/

/-- A word ends at a blank or at the semicolon of a comment. -/
def isWordChar (c : Char) : Bool := !isBlank c && c != ';'

/-- The word in the place of a label also ends at a colon. -/
def isLabelChar (c : Char) : Bool := isWordChar c && c != ':'

/-- A mnemonic is three ASCII letters. -/
def isMnemonic (word : List Char) : Bool := word.length = 3 && word.all Char.isAlpha

/-! ### Reading a line -/

/-- Is the word, which starts at the column, a label? -/
def checkLabel (column : Nat) (word : List Char) : Except FieldError Unit :=
  if word.isEmpty then .error ⟨column, .emptyLabel⟩
  else if word.all Char.isAlphanum then .ok ()
  else .error ⟨column, .invalidLabel (.ofList word)⟩

/-- Reads the label, if the first word is ended by a colon. Without a label the
    reading position stays where it is. -/
def readLabel (c : Cursor) : Except FieldError (Option String × Cursor) :=
  let first := c.skipBlanks
  let word := first.run isLabelChar
  match first.skip isLabelChar with
  | ⟨column, ':' :: rest⟩ => do
    checkLabel first.column word
    return (some (.ofList word), ⟨column + 1, rest⟩)
  | _ => .ok (none, c)

/-- Reads the mnemonic and the operand, if there is another word. -/
def readOperation (c : Cursor) : Except FieldError (Option Operation × Cursor) :=
  let first := c.skipBlanks
  let word := first.run isWordChar
  if word.isEmpty then .ok (none, c)
  else if isMnemonic word then
    let second := (first.skip isWordChar).skipBlanks
    .ok (some
      { mnemonic := .ofList (word.map Char.toUpper)
        column := first.column
        operand := .ofList (second.run isWordChar)
        operandColumn := second.column }, second.skip isWordChar)
  else .error ⟨first.column, .invalidMnemonic (.ofList word)⟩

/-- Reads the comment, before which only blanks may be left. -/
def readComment (c : Cursor) : Except FieldError (Option String) :=
  match c.skipBlanks with
  | ⟨_, []⟩ => .ok none
  | ⟨_, ';' :: text⟩ => .ok (some (.ofList text))
  | ⟨column, rest⟩ => .error ⟨column, .trailingText (.ofList (trimEnd rest))⟩

/-- Splits a line into its fields. -/
def read (text : String) : Except FieldError Fields := do
  let (label, c) ← readLabel (.start text.toList)
  let (operation, c) ← readOperation c
  let comment ← readComment c
  return { label, operation, comment }

/-! ### The leading label -/

/-- The label that a line starts with, whatever is wrong behind it. This is a
    scan of its own, which stops at the colon. -/
def leadingLabel (text : String) : Option String :=
  let first := (Cursor.start text.toList).skipBlanks
  let word := first.run isLabelChar
  if (first.skip isLabelChar).rest.head? = some ':' ∧ (checkLabel first.column word).isOk then
    some (.ofList word)
  else none

end Fields

end Mos6502
