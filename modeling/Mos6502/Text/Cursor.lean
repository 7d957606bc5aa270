import Mos6502.Text.Blank

/-! # Cursors

    A cursor is a reading position in one line of text. Columns count the
    bytes of the UTF-8 encoding, from zero, so a character beyond ASCII moves
    the column by more than one.
-/

namespace Mos6502.Text

/-- Bytes that the characters take in UTF-8. -/
def utf8Width : List Char → Nat
  | [] => 0
  | c :: cs => c.utf8Size + utf8Width cs

@[simp] theorem utf8Width_nil : utf8Width [] = 0 := rfl

@[simp] theorem utf8Width_cons (c : Char) (cs : List Char) :
    utf8Width (c :: cs) = c.utf8Size + utf8Width cs := rfl

@[simp] theorem utf8Width_append (cs ds : List Char) :
    utf8Width (cs ++ ds) = utf8Width cs + utf8Width ds := by
  induction cs with
  | nil => simp
  | cons c cs ih => rw [List.cons_append, utf8Width_cons, ih, utf8Width_cons, Nat.add_assoc]

/-- A position in a line: the bytes before it and the characters after it. -/
structure Cursor where
  /-- Offset of the next character in bytes. -/
  column : Nat
  /-- The characters still to be read. -/
  rest : List Char
deriving Repr, DecidableEq

namespace Cursor

/-- The position before the first character of a line. -/
def start (text : List Char) : Cursor := ⟨0, text⟩

/-- The longest run of accepted characters from here. -/
def run (accept : Char → Bool) (c : Cursor) : List Char := c.rest.takeWhile accept

/-- The position behind the longest run of accepted characters. -/
def skip (accept : Char → Bool) (c : Cursor) : Cursor :=
  ⟨c.column + utf8Width (c.run accept), c.rest.dropWhile accept⟩

/-- The position of the next character that is not blank. -/
def skipBlanks (c : Cursor) : Cursor := c.skip isBlank

end Cursor

end Mos6502.Text
