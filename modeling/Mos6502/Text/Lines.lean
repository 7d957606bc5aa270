/-! # Lines

    Source text is a sequence of lines, each ended by a line feed. A carriage
    return directly before the line feed belongs to the line end; any other
    carriage return is text. The end of the text ends a last line that is not
    empty.
-/

namespace Mos6502.Text

/-- The lines of a text, without their ends. -/
def splitLines : List Char → List (List Char)
  | [] => []
  | c :: rest =>
    if c = '\n' then
      [] :: splitLines rest
    else if c = '\r' ∧ rest.head? = some '\n' then
      splitLines rest
    else
      match splitLines rest with
      | [] => [[c]]
      | line :: lines => (c :: line) :: lines

/-- The lines of a text. -/
def lines (text : String) : List String := (splitLines text.toList).map String.ofList

/-- A line without line feeds that does not end in a carriage return is read
    back from in front of a line feed. -/
theorem splitLines_append_newline {line : List Char} (rest : List Char)
    (noFeed : '\n' ∉ line) (noReturn : line.getLast? ≠ some '\r') :
    splitLines (line ++ '\n' :: rest) = line :: splitLines rest := by
  induction line with
  | nil => simp [splitLines]
  | cons c line ih =>
    have ne : c ≠ '\n' := fun h => noFeed (h ▸ List.mem_cons_self)
    have tail := ih (fun h => noFeed (List.mem_cons_of_mem _ h)) (by
      cases line with
      | nil => simp
      | cons d line => simpa using noReturn)
    have plain : ¬ (c = '\r' ∧ (line ++ '\n' :: rest).head? = some '\n') := by
      rintro ⟨rfl, next⟩
      cases line with
      | nil => simp at noReturn
      | cons d line =>
        simp only [List.cons_append, List.head?_cons, Option.some.injEq] at next
        exact noFeed (by simp [next])
    simp only [List.cons_append, splitLines, ne, plain, if_false, tail]

end Mos6502.Text
