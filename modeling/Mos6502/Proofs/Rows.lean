import Mos6502.Listing
import Mos6502.Proofs.Image
import Mos6502.Proofs.LineText
import Mos6502.Proofs.StableSort

/-! # The Rows of a Listing

    A listing is sorted by line, labels before instructions. For a program that
    is the image of some statements there is nothing to sort: its rows are
    those of the statements, one statement after the other (`rows_eq`).

    A row has a margin of sixteen characters and a text. The margin is that
    wide because an instruction has at most three bytes, and the text is not
    trimmed because it ends in a visible character (`Row.Tidy`). So the lines
    of a listing are its rows, and the texts are found behind the margins
    (`sourceLines_listing`).
-/

namespace Mos6502

open Text

namespace Text

/-- Spaces are the only blanks in a listing. -/
def isTypeset (c : Char) : Bool := c = ' ' || !isBlank c

theorem isTypeset_of_isPlain {cs : List Char} (h : cs.all isPlain) : cs.all isTypeset := by
  rw [List.all_eq_true] at h ⊢
  intro c hc
  simp [isTypeset, (isPlain_iff.mp (h c hc)).1]

end Text

namespace Listing

/-! ### Rows as text -/

namespace Row

/-- What stands before the text of a row: its address and its bytes. -/
def margin (row : Row) : List Char :=
  hexDigits 4 row.address.toNat ++ [' ', ' '] ++ row.bytesText.rightpad bytesWidth ' ' ++ [' ', ' ']

/-- A row that fits the columns of the listing. -/
structure Tidy (row : Row) : Prop where
  /-- Its bytes are those of an instruction. -/
  length_bytes_le : row.bytes.length ≤ 3
  /-- Its text can be set in a line, -/
  typeset_text : row.text.toList.all isTypeset
  /-- and it does not end in a blank. -/
  last_text : ∃ c, row.text.toList.getLast? = some c ∧ isBlank c = false

/-- Every byte takes two digits, and a space stands between two of them. -/
theorem length_bytesText (row : Row) : row.bytesText.length = 3 * row.bytes.length - 1 := by
  unfold bytesText
  induction row.bytes with
  | nil => rfl
  | cons byte rest ih =>
    cases rest with
    | nil => simp
    | cons next rest =>
      -- two digits and the space before the next byte
      simp only [List.map_cons, List.intercalate_cons_cons, List.length_append, List.length_cons,
        length_hexDigits, List.length_nil] at ih ⊢
      omega

theorem Tidy.length_bytesColumn {row : Row} (h : row.Tidy) :
    (row.bytesText.rightpad bytesWidth ' ').length = 8 := by
  have hbytes := row.length_bytesText
  have hfew := h.length_bytes_le
  rw [List.length_rightpad, bytesWidth]
  omega

theorem Tidy.length_margin {row : Row} (h : row.Tidy) : row.margin.length = 16 := by
  simp only [margin, List.length_append, length_hexDigits, h.length_bytesColumn, List.length_cons,
    List.length_nil]

/-- Nothing is trimmed off a row. -/
theorem Tidy.render_eq {row : Row} (h : row.Tidy) : row.render = row.margin ++ row.text.toList := by
  obtain ⟨last, hlast, hvisible⟩ := h.last_text
  apply trimEnd_eq_self
  intro c hc
  -- the last character of the row is that of its text
  rw [List.getLast?_append, hlast] at hc
  rwa [← Option.some.inj hc]

theorem all_isTypeset_bytesText (row : Row) : row.bytesText.all isTypeset := by
  unfold bytesText
  induction row.bytes with
  | nil => rfl
  | cons byte rest ih =>
    have hbyte := isTypeset_of_isPlain (all_isPlain_hexDigits 2 byte.toNat)
    cases rest with
    | nil => simpa using hbyte
    | cons next rest =>
      rw [List.map_cons] at ih
      rw [List.map_cons, List.map_cons, List.intercalate_cons_cons, List.all_append,
        List.all_append, hbyte, ih]
      rfl

/-- A row can be set in a line. -/
theorem Tidy.all_isTypeset_render {row : Row} (h : row.Tidy) : row.render.all isTypeset := by
  have haddress := isTypeset_of_isPlain (all_isPlain_hexDigits 4 row.address.toNat)
  have hpad : ∀ n, (List.replicate n ' ').all isTypeset := by
    intro n
    rw [List.all_replicate]
    split <;> rfl
  rw [h.render_eq, margin, List.rightpad, List.all_append, List.all_append, List.all_append,
    List.all_append, List.all_append, haddress, row.all_isTypeset_bytesText, hpad, h.typeset_text]
  rfl

/-- It does not run over several lines. -/
theorem Tidy.newline_notMem_render {row : Row} (h : row.Tidy) : '\n' ∉ row.render := by
  intro hmem
  have hnewline := List.all_eq_true.mp h.all_isTypeset_render '\n' hmem
  exact absurd hnewline (by decide)

/-- So the line of a row is the row, -/
theorem Tidy.splitLines_render {row : Row} (h : row.Tidy) (rest : List Char) :
    splitLines (row.render ++ '\n' :: rest) = row.render :: splitLines rest := by
  apply splitLines_append_newline
  · exact h.newline_notMem_render
  · intro hlast
    have hreturn := List.all_eq_true.mp h.all_isTypeset_render '\r' (List.mem_of_getLast? hlast)
    exact absurd hreturn (by decide)

/-- and the text of a row is what stands behind its margin. -/
theorem Tidy.drop_render {row : Row} (h : row.Tidy) : row.render.drop 16 = row.text.toList := by
  rw [h.render_eq, ← h.length_margin, List.drop_left]

end Row

/-! ### The source in a listing -/

/-- The source lines that a listing shows behind its margin. -/
def sourceLines (listing : String) : List String :=
  (lines listing).map fun line => .ofList (line.toList.drop 16)

theorem sourceLines_of_tidy {rows : List Row} (h : ∀ row ∈ rows, row.Tidy) :
    sourceLines (.ofList (rows.flatMap fun row => row.render ++ ['\n'])) = rows.map Row.text := by
  unfold sourceLines lines
  rw [String.toList_ofList]
  induction rows with
  | nil => rfl
  | cons row rest ih =>
    have hrow := h row List.mem_cons_self
    have hrest := ih fun next hnext => h next (List.mem_cons_of_mem row hnext)
    rw [List.flatMap_cons, List.append_assoc, List.singleton_append, hrow.splitLines_render,
      List.map_cons, List.map_cons, hrest, String.toList_ofList, hrow.drop_render,
      String.ofList_toList, List.map_cons]

/-! ### The rows of an image -/

/-- The place of a row in the listing as a number. -/
def Row.key (row : Row) : Nat := 2 * row.line + if row.isInstruction then 1 else 0

/-- Rows are sorted by these numbers. -/
theorem Row.le_eq : Row.le = StableSort.byKey Row.key := by
  funext a b
  rw [Bool.eq_iff_iff]
  cases ha : a.isInstruction <;> cases hb : b.isInstruction <;>
    simp [Row.le, StableSort.byKey, Row.key, ha, hb] <;> omega

/-- Labels stand in even places and instructions in odd ones. -/
theorem Row.key_ofSymbol (symbol : Symbol) : (ofSymbol symbol).key = 2 * symbol.line := rfl

theorem Row.key_ofInstruction (e : Encoded) : (ofInstruction e).key = 2 * e.line + 1 := rfl

/-- The rows of a statement at its address: its label and its instruction. -/
def rowsAt (table : InstructionSet) (address : Nat) (s : Statement) : List Row :=
  (s.symbolAt address).toList.map Row.ofSymbol ++
    (s.encodedAt table address).toList.map Row.ofInstruction

/-- The rows of statements, in order. -/
def rowsFrom (table : InstructionSet) (address : Nat) (statements : List Statement) : List Row :=
  (Statement.addressed table address statements).flatMap fun (address, s) => rowsAt table address s

theorem rowsFrom_cons (table : InstructionSet) (address : Nat) (s : Statement)
    (rest : List Statement) :
    rowsFrom table address (s :: rest) =
      rowsAt table address s ++ rowsFrom table (address + s.room table) rest := rfl

variable {table : InstructionSet} {address : Nat}

theorem line_of_mem_rowsAt {s : Statement} {row : Row} (h : row ∈ rowsAt table address s) :
    row.line = s.line := by
  rcases List.mem_append.mp h with h | h
  · obtain ⟨symbol, hsymbol, rfl⟩ := List.mem_map.mp h
    rw [Option.mem_toList, Statement.symbolAt, Option.map_eq_some_iff] at hsymbol
    obtain ⟨name, -, rfl⟩ := hsymbol
    rfl
  · obtain ⟨e, he, rfl⟩ := List.mem_map.mp h
    exact Statement.line_of_encodedAt (Option.mem_toList.mp he)

theorem exists_line_of_mem_rowsFrom {statements : List Statement} {row : Row}
    (h : row ∈ rowsFrom table address statements) : ∃ s ∈ statements, row.line = s.line := by
  obtain ⟨p, hp, hrow⟩ := List.mem_flatMap.mp h
  exact ⟨p.2, (Statement.mem_of_mem_addressed hp).1, line_of_mem_rowsAt hrow⟩

/-- The rows of statements on ascending lines are in order, and no two of them in
    the same place. -/
theorem pairwise_key_rowsFrom {statements : List Statement}
    (h : statements.Pairwise fun s t => s.line < t.line) :
    (rowsFrom table address statements).Pairwise fun a b => a.key < b.key := by
  induction statements generalizing address with
  | nil => exact .nil
  | cons s rest ih =>
    obtain ⟨hs, hrest⟩ := List.pairwise_cons.mp h
    rw [rowsFrom_cons, List.pairwise_append]
    refine ⟨?_, ih hrest, ?_⟩
    · -- the label of a statement comes before its instruction
      rw [rowsAt, List.pairwise_append]
      refine ⟨by cases s.symbolAt address <;> simp,
        by cases s.encodedAt table address <;> simp, ?_⟩
      intro a ha b hb
      obtain ⟨symbol, hsymbol, rfl⟩ := List.mem_map.mp ha
      obtain ⟨e, he, rfl⟩ := List.mem_map.mp hb
      have hsymbolLine := Statement.line_of_symbolAt (Option.mem_toList.mp hsymbol)
      have hline := Statement.line_of_encodedAt (Option.mem_toList.mp he)
      rw [Row.key_ofSymbol, Row.key_ofInstruction]
      omega
    · -- rows of later statements have larger line numbers
      intro a ha b hb
      obtain ⟨t, ht, hline⟩ := exists_line_of_mem_rowsFrom hb
      have hlt := hs t ht
      rw [← hline, ← line_of_mem_rowsAt ha] at hlt
      unfold Row.key
      split <;> split <;> omega

theorem filter_map_ofSymbol (symbols : List Symbol) {k : Nat} (hk : k % 2 = 1) :
    (symbols.map Row.ofSymbol).filter (fun row => row.key = k) = [] := by
  apply StableSort.filter_eq_nil_of_forall_ne
  intro row hrow
  obtain ⟨symbol, -, rfl⟩ := List.mem_map.mp hrow
  rw [Row.key_ofSymbol]
  omega

theorem filter_map_ofInstruction (instructions : List Encoded) {k : Nat} (hk : k % 2 = 0) :
    (instructions.map Row.ofInstruction).filter (fun row => row.key = k) = [] := by
  apply StableSort.filter_eq_nil_of_forall_ne
  intro row hrow
  obtain ⟨e, -, rfl⟩ := List.mem_map.mp hrow
  rw [Row.key_ofInstruction]
  omega

/-- In each place stand the same rows, whether the labels are put in front of
    all instructions or each in front of its own. -/
theorem filter_rowsFrom (statements : List Statement) (k : Nat) :
    (rowsFrom table address statements).filter (fun row => row.key = k) =
      ((Statement.symbolsFrom table address statements).map Row.ofSymbol ++
        (Statement.instructionsFrom table address statements).map Row.ofInstruction).filter
        fun row => row.key = k := by
  induction statements generalizing address with
  | nil => rfl
  | cons s rest ih =>
    rw [rowsFrom_cons, Statement.symbolsFrom_cons, Statement.instructionsFrom_cons, List.map_append,
      List.map_append, List.filter_append, ih, rowsAt]
    simp only [List.filter_append, List.append_assoc]
    -- the labels to come change places with the instruction of the statement
    rcases Nat.mod_two_eq_zero_or_one k with hk | hk
    · rw [filter_map_ofInstruction _ hk, List.nil_append, List.nil_append]
    · simp only [filter_map_ofSymbol _ hk, List.nil_append]

/-- **The rows of a program** are those of the statements that it is the image
    of. -/
theorem rows_eq {origin : UInt16} {statements : List Statement} {program : Program}
    (h : program.IsImage table origin statements)
    (hline : statements.Pairwise fun s t => s.line < t.line) :
    rows program = rowsFrom table origin.toNat statements := by
  rw [rows, Row.le_eq, h.symbols_eq, h.instructions_eq]
  apply StableSort.mergeSort_eq_of_filter_eq
  · exact (pairwise_key_rowsFrom hline).imp Nat.le_of_lt
  · exact filter_rowsFrom statements

/-! ### The listing of an image -/

theorem Row.tidy_ofSymbol {symbol : Symbol} (h : Fields.IsLabel symbol.name) :
    (ofSymbol symbol).Tidy where
  length_bytes_le := Nat.zero_le 3
  typeset_text := by
    have hname : symbol.name.toList.all isTypeset := by
      rw [List.all_eq_true]
      intro c hc
      simp [isTypeset, isBlank_eq_false_of_isAlphanum (List.all_eq_true.mp h.2 c hc)]
    rw [ofSymbol, String.toList_append, List.all_append, hname]
    decide
  last_text := ⟨':', by simp [ofSymbol], by decide⟩

theorem Row.tidy_ofInstruction {e : Encoded} (hmnemonic : Fields.IsMnemonic e.mnemonic)
    (hsize : e.size ≤ 3) : (ofInstruction e).Tidy := by
  obtain ⟨blanks, htext, hshape⟩ := Fields.toList_format e.mnemonic e.operand
  have hplain := e.operand.all_isPlain_text
  constructor
  · show e.bytes.length ≤ 3
    rwa [Encoded.length_bytes]
  · have hblanks : blanks.all isTypeset := by
      rcases hshape with ⟨rfl, -⟩ | ⟨rfl, -⟩ <;> decide
    show (Instruction.format e.mnemonic e.operand).toList.all isTypeset
    rw [htext, List.all_append, List.all_append, isTypeset_of_isPlain hmnemonic.2, hblanks,
      isTypeset_of_isPlain hplain]
    rfl
  · show ∃ c, (Instruction.format e.mnemonic e.operand).toList.getLast? = some c ∧ _
    rw [htext]
    rcases hshape with ⟨rfl, hnil⟩ | ⟨rfl, hne⟩
    · -- without an operand the mnemonic ends the row
      rw [hnil, List.append_nil, List.append_nil]
      exact exists_getLast?_of_isPlain hmnemonic.letters.1 hmnemonic.2
    · obtain ⟨c, hlast, hc⟩ := exists_getLast?_of_isPlain hne hplain
      exact ⟨c, by rw [List.getLast?_append, List.getLast?_append, hlast]; rfl, hc⟩

/-- The rows of well-formed, admissible statements are tidy. -/
theorem tidy_of_mem_rowsFrom {statements : List Statement}
    (hwell : ∀ s ∈ statements, s.WellFormed)
    (h : Statement.Admissible table address statements) {row : Row}
    (hrow : row ∈ rowsFrom table address statements) : row.Tidy := by
  obtain ⟨p, hp, hrow⟩ := List.mem_flatMap.mp hrow
  have hwellP := hwell p.2 (Statement.mem_of_mem_addressed hp).1
  rcases List.mem_append.mp hrow with hrow | hrow
  · obtain ⟨symbol, hsymbol, rfl⟩ := List.mem_map.mp hrow
    obtain ⟨name, hname, rfl⟩ := Option.map_eq_some_iff.mp (Option.mem_toList.mp hsymbol)
    exact Row.tidy_ofSymbol (hwellP.label name hname)
  · obtain ⟨e, he, rfl⟩ := List.mem_map.mp hrow
    have hencodes := Statement.encodes_of_encodedAt (h.admissibleAt hp) (Option.mem_toList.mp he)
    exact Row.tidy_ofInstruction (hwellP.mnemonic _ hencodes.instruction_eq) hencodes.size_le

/-- **The listing of a program** shows the texts of its rows. -/
theorem sourceLines_listing {origin : UInt16} {statements : List Statement} {program : Program}
    (himage : program.IsImage table origin statements)
    (hline : statements.Pairwise fun s t => s.line < t.line)
    (hwell : ∀ s ∈ statements, s.WellFormed)
    (h : Statement.Admissible table origin.toNat statements) :
    sourceLines program.listing = (rowsFrom table origin.toNat statements).map Row.text := by
  rw [Program.listing, rows_eq himage hline]
  apply sourceLines_of_tidy
  intro row hrow
  exact tidy_of_mem_rowsFrom hwell h hrow

end Listing

end Mos6502
