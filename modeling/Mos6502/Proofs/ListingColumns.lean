import Mathlib
import Mos6502.Opcode.Nmos
import Mos6502.Proofs.Acceptance
import Mos6502.Proofs.Rows

/-! # The Columns of a Listing

    A listing says what a program is: there is a line for each symbol and for
    each instruction, in the order of the source and of the addresses, and the
    address, the bytes and the text of a line stand in fixed columns
    (`Program.ListedAs`). So the code of a program can be read off its listing
    again.

    The columns are fixed because rows are tidy (`Listing.Row.Tidy`), and that
    comes from the layout, as does the order of the addresses: the rows of a
    program are those of its statements, one statement behind the other
    (`Listing.rows_eq`).
-/

namespace Mos6502

open Text

namespace Listing

/-! ### A row in its columns -/

/-- **A line that shows a row** in the columns of a listing. -/
structure Row.SetAs (row : Row) (line : List Char) : Prop where
  /-- Columns 0 to 3 hold the address, in four digits, -/
  address : Operand.IsLiteral (line.take 4) (.word row.address)
  /-- columns 6 to 13 hold the bytes, in two digits each, with a space between two
      of them and spaces behind the last, -/
  bytes : ∃ digits : List (List Char),
    List.Forall₂ (fun byte word => Operand.IsLiteral word (.byte byte)) row.bytes digits ∧
      (line.drop 6).take 8 = ([' '].intercalate digits).rightpad 8 ' '
  /-- and two spaces stand in front of the bytes and behind them. -/
  spaces : (line.drop 4).take 2 = [' ', ' '] ∧ (line.drop 14).take 2 = [' ', ' ']
  /-- The text starts in column 16, -/
  text : line.drop 16 = row.text.toList
  /-- there are no blanks behind it, -/
  last : ∃ c, line.getLast? = some c ∧ isBlank c = false
  /-- and it does not run over several lines. -/
  noFeed : '\n' ∉ line

/-- The bytes that digits stand for, two digits each, whatever spaces are between
    them. -/
def readBytes : List Char → List UInt8
  | ' ' :: rest => readBytes rest
  | high :: low :: rest => .ofNat (hexValue [high, low]) :: readBytes rest
  | _ => []

/-- The bytes that a line of a listing shows. -/
def bytesIn (line : List Char) : List UInt8 := readBytes ((line.drop 6).take 8)

theorem take_drop_eq (front part rest : List Char) {line : List Char} {start width : Nat}
    (hline : line = front ++ (part ++ rest)) (hstart : front.length = start)
    (hwidth : part.length = width) : (line.drop start).take width = part := by
  rw [hline, ← hstart, ← hwidth, List.drop_left, List.take_left]

namespace Row

variable {row : Row}

theorem Tidy.take_drop_render (h : row.Tidy) :
    (row.render.drop 6).take 8 = row.bytesText.rightpad bytesWidth ' ' := by
  refine take_drop_eq (hexDigits 4 row.address.toNat ++ [' ', ' ']) _
    ([' ', ' '] ++ row.text.toList) ?_ (by simp) h.length_bytesColumn
  rw [h.render_eq, margin]
  simp only [List.append_assoc]

theorem Tidy.take_drop_render_front (h : row.Tidy) :
    (row.render.drop 4).take 2 = [' ', ' '] := by
  refine take_drop_eq (hexDigits 4 row.address.toNat) _
    (row.bytesText.rightpad bytesWidth ' ' ++ ([' ', ' '] ++ row.text.toList)) ?_
    (length_hexDigits 4 _) rfl
  rw [h.render_eq, margin]
  simp only [List.append_assoc]

theorem Tidy.take_drop_render_behind (h : row.Tidy) :
    (row.render.drop 14).take 2 = [' ', ' '] := by
  refine take_drop_eq (hexDigits 4 row.address.toNat ++ [' ', ' '] ++
    row.bytesText.rightpad bytesWidth ' ') _ row.text.toList ?_ ?_ rfl
  · rw [h.render_eq, margin]
    simp only [List.append_assoc]
  · simp only [List.length_append, length_hexDigits, h.length_bytesColumn, List.length_cons,
      List.length_nil]

/-- **A tidy row is set in the columns of the listing.** -/
theorem Tidy.setAs (h : row.Tidy) : row.SetAs row.render := by
  constructor
  case address =>
    rw [h.render_eq, margin, List.append_assoc, List.append_assoc, List.append_assoc,
      List.take_left' (length_hexDigits 4 _)]
    exact Operand.isLiteral_word row.address
  case bytes =>
    refine ⟨row.bytes.map fun byte => hexDigits 2 byte.toNat, ?_, ?_⟩
    · rw [List.forall₂_map_right_iff, List.forall₂_same]
      exact fun byte _ => Operand.isLiteral_byte byte
    · exact h.take_drop_render
  case spaces => exact ⟨h.take_drop_render_front, h.take_drop_render_behind⟩
  case text => exact h.drop_render
  case last =>
    obtain ⟨c, hlast, hvisible⟩ := h.last_text
    rw [h.render_eq, List.getLast?_append, hlast]
    exact ⟨c, rfl, hvisible⟩
  case noFeed => exact h.newline_notMem_render

end Row

/-! ### Reading the bytes again -/

theorem readBytes_hexDigits (byte : UInt8) (rest : List Char) :
    readBytes (hexDigits 2 byte.toNat ++ rest) = byte :: readBytes rest := by
  have hvalue : hexValue (hexDigits 2 byte.toNat) = byte.toNat := by
    have hlt := byte.toNat_lt
    rw [hexValue_hexDigits, Nat.mod_eq_of_lt (by omega)]
  have hspace : hexDigit (byte.toNat / 16 % 16) ≠ ' ' := by
    have hdigits : ∀ value : Fin 16, hexDigit value ≠ ' ' := by decide
    exact hdigits ⟨_, Nat.mod_lt _ (by decide)⟩
  simp only [hexDigits, List.nil_append, List.singleton_append] at hvalue ⊢
  rw [List.cons_append, List.singleton_append, readBytes, hvalue, UInt8.ofNat_toNat]
  exact fun h => absurd h hspace

theorem readBytes_replicate (n : Nat) : readBytes (List.replicate n ' ') = [] := by
  induction n with
  | zero => rfl
  | succ n ih => rw [List.replicate_succ, readBytes, ih]

/-- **The bytes of a row are read off its line.** -/
theorem Row.Tidy.bytesIn_render {row : Row} (h : row.Tidy) : bytesIn row.render = row.bytes := by
  rw [bytesIn, h.take_drop_render, List.rightpad, Row.bytesText]
  generalize bytesWidth - _ = n
  induction row.bytes with
  | nil => exact readBytes_replicate n
  | cons byte rest ih =>
    cases rest with
    | nil => simpa [readBytes_replicate] using readBytes_hexDigits byte (List.replicate n ' ')
    | cons next rest =>
      -- behind the digits of the byte there is a space, and then the next byte
      rw [List.map_cons] at ih
      rw [List.map_cons, List.map_cons, List.intercalate_cons_cons, List.append_assoc,
        List.append_assoc, readBytes_hexDigits, List.singleton_append, readBytes, ih]

/-! ### The order of the rows -/

/-- A row comes before another one if it is on an earlier line, or if it is the
    label of the instruction on the same line. -/
theorem Row.key_lt_iff {a b : Row} :
    a.key < b.key ↔
      a.line < b.line ∨ a.line = b.line ∧ a.isInstruction = false ∧ b.isInstruction = true := by
  unfold Row.key
  cases a.isInstruction <;> cases b.isInstruction <;> simp <;> omega

variable {table : InstructionSet} {address : Nat}

theorem address_of_mem_rowsAt {s : Statement} (h : Statement.AdmissibleAt table address s)
    {row : Row} (hrow : row ∈ rowsAt table address s) : row.address.toNat = address := by
  rcases List.mem_append.mp hrow with hrow | hrow
  · obtain ⟨symbol, hsymbol, rfl⟩ := List.mem_map.mp hrow
    obtain ⟨name, hname, rfl⟩ := Option.map_eq_some_iff.mp (Option.mem_toList.mp hsymbol)
    have hle := h.label_within (by simp [hname])
    exact Nat.mod_eq_of_lt (Nat.lt_succ_of_le hle)
  · obtain ⟨e, he, rfl⟩ := List.mem_map.mp hrow
    exact (Statement.encodes_of_encodedAt h (Option.mem_toList.mp he)).address_eq

theorem le_address_of_mem_rowsFrom {statements : List Statement}
    (h : Statement.Admissible table address statements) {row : Row}
    (hrow : row ∈ rowsFrom table address statements) : address ≤ row.address.toNat := by
  obtain ⟨p, hp, hrow⟩ := List.mem_flatMap.mp hrow
  rw [address_of_mem_rowsAt (h.admissibleAt hp) hrow]
  exact (Statement.mem_of_mem_addressed hp).2

/-- The addresses that rows show never decrease. -/
theorem pairwise_address_rowsFrom {statements : List Statement}
    (h : Statement.Admissible table address statements) :
    (rowsFrom table address statements).Pairwise fun a b => a.address ≤ b.address := by
  induction statements generalizing address with
  | nil => exact .nil
  | cons s rest ih =>
    obtain ⟨hs, -, hrest⟩ := Statement.admissible_cons_iff.mp h
    rw [rowsFrom_cons, List.pairwise_append]
    refine ⟨?_, ih hrest, ?_⟩
    · -- the label and the instruction of a statement have the same address
      apply List.pairwise_of_forall_mem_list
      intro a ha b hb
      rw [UInt16.le_iff_toNat_le, address_of_mem_rowsAt hs ha, address_of_mem_rowsAt hs hb]
    · intro a ha b hb
      have hle := le_address_of_mem_rowsFrom hrest hb
      rw [UInt16.le_iff_toNat_le, address_of_mem_rowsAt hs ha]
      omega

/-- The bytes of the rows are those of the instructions, in order. -/
theorem flatMap_bytes_rowsFrom (statements : List Statement) :
    (rowsFrom table address statements).flatMap Row.bytes =
      (Statement.instructionsFrom table address statements).flatMap Encoded.bytes := by
  induction statements generalizing address with
  | nil => rfl
  | cons s rest ih =>
    rw [rowsFrom_cons, Statement.instructionsFrom_cons, List.flatMap_append, List.flatMap_append,
      ih, rowsAt, List.flatMap_append, List.flatMap_map, List.flatMap_map]
    -- a label has no bytes
    cases s.symbolAt address <;> rfl

end Listing

/-! ### The listing of a program -/

open Listing

/-- **The listing of a program** in the given rows. -/
structure Program.ListedAs (program : Program) (rows : List Row) : Prop where
  /-- There is a row for each symbol and for each instruction, -/
  rows_perm : rows.Perm (program.symbols.symbols.map Row.ofSymbol ++
    program.instructions.map Row.ofInstruction)
  /-- by source line, and on a line the label before the instruction, -/
  ordered : rows.Pairwise fun a b => a.line < b.line ∨
    a.line = b.line ∧ a.isInstruction = false ∧ b.isInstruction = true
  /-- at addresses that never decrease. -/
  ascending : rows.Pairwise fun a b => a.address ≤ b.address
  /-- The listing has a line for each row, which shows it in its columns, and the
      bytes that the lines show are the code of the program. -/
  lines : ∃ lines : List (List Char),
    program.listing.toList = lines.flatMap (fun line => line ++ ['\n']) ∧
      List.Forall₂ Row.SetAs rows lines ∧ lines.flatMap bytesIn = program.bytes

/-- **Every assembled program is listed in full**, in fixed columns and in the
    order of its addresses. -/
theorem listedAs_of_assembleLines_eq_ok (table : InstructionSet) (options : Options)
    (lines : List String) (program : Program)
    (h : assembleLines table options lines = .ok program) :
    ∃ rows, program.ListedAs rows := by
  obtain ⟨statements, hread, hadmissible, himage⟩ := exists_image_of_assembleLines_eq_ok h
  have hrows := rows_eq himage hread.pairwise_line
  have htidy : ∀ row ∈ rows program, row.Tidy := by
    intro row hrow
    rw [hrows] at hrow
    exact tidy_of_mem_rowsFrom hread.wellFormed hadmissible hrow
  refine ⟨rows program, ?_, ?_, ?_, (rows program).map Row.render, ?_, ?_, ?_⟩
  · exact List.mergeSort_perm _ _
  · rw [hrows]
    exact (pairwise_key_rowsFrom hread.pairwise_line).imp Row.key_lt_iff.mp
  · rw [hrows]
    exact pairwise_address_rowsFrom hadmissible
  · rw [Program.listing, String.toList_ofList, List.flatMap_map]
  · rw [List.forall₂_map_right_iff, List.forall₂_same]
    exact fun row hrow => (htidy row hrow).setAs
  · rw [List.flatMap_map, List.flatMap_congr fun row hrow => (htidy row hrow).bytesIn_render, hrows,
      flatMap_bytes_rowsFrom, himage.bytes_eq, himage.instructions_eq]

/-- The label and the instruction of a line have a row each. -/
theorem listedAs_label_with_instruction :
    ∃ program, assembleLines .nmos { origin := 0xFF0A } ["loop: sta $0200 ; store", "DEX"] =
        .ok program ∧
      program.listing =
        "FF0A            loop:\nFF0A  8D 00 02  STA $0200\nFF0D  CA        DEX\n" ∧
      ∃ rows, program.ListedAs rows := by
  obtain ⟨program, h, hlisting⟩ : ∃ program, assembleLines .nmos { origin := 0xFF0A }
      ["loop: sta $0200 ; store", "DEX"] = .ok program ∧ program.listing =
        "FF0A            loop:\nFF0A  8D 00 02  STA $0200\nFF0D  CA        DEX\n" := by
    refine ⟨?_, ?_, ?_⟩
    rotate_left
    · cbv
      rfl
    · cbv
  exact ⟨program, h, hlisting, listedAs_of_assembleLines_eq_ok .nmos _ _ program h⟩

end Mos6502
