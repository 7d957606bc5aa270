import Mos6502.Proofs.OpcodeHistory
import Mos6502.Proofs.RoundTrip

/-! # Decoding Machine Code

    Machine code is decoded from the front: the opcode byte tells the mnemonic,
    the mode and the width of the operand field, and the field holds the
    payload of the operand, filled up with zero bytes. The next opcode byte
    stands behind the field.

    If a table has no two keys with one opcode (`OpcodeTable.Unambiguous`),
    decoding undoes assembly: it gives back the address, the mnemonic and the
    operand of every instruction (`decode_flatMap_bytes`). So the code of a
    program determines its instructions, however they were written.
-/

namespace Mos6502

open Text

/-! ### Operands -/

namespace Operand

/-- The word of two bytes. -/
def ofLittleEndian (low high : UInt8) : UInt16 := .ofNat (low.toNat + 256 * high.toNat)

/-- The operand of a mode and a payload, if the payload is as wide as the mode
    says. -/
def ofPayload? : Mode → List UInt8 → Option Operand
  | .implicit, [] => some implicit
  | .accumulator, [] => some accumulator
  | .immediate, [value] => some (immediate value)
  | .zeroPage, [address] => some (zeroPage address)
  | .zeroPageX, [address] => some (zeroPageX address)
  | .zeroPageY, [address] => some (zeroPageY address)
  | .relative, [offset] => some (relative offset.toInt8)
  | .absolute, [low, high] => some (absolute (ofLittleEndian low high))
  | .absoluteX, [low, high] => some (absoluteX (ofLittleEndian low high))
  | .absoluteY, [low, high] => some (absoluteY (ofLittleEndian low high))
  | .indirect, [pointer] => some (indirect pointer)
  | .indirectX, [pointer] => some (indirectX pointer)
  | .indirectY, [pointer] => some (indirectY pointer)
  | _, _ => none

/-- The operand of a mode in an operand field, which has zero bytes behind the
    payload. -/
def ofField? (mode : Mode) (field : List UInt8) : Option Operand :=
  if (field.drop mode.payloadWidth).all (· = 0) then
    ofPayload? mode (field.take mode.payloadWidth)
  else none

theorem ofLittleEndian_of_eq {word : UInt16} {low high : UInt8}
    (h : littleEndian word = [low, high]) : ofLittleEndian low high = word := by
  have hdigits := toNat_littleEndian word
  rw [h] at hdigits
  simp only [List.map_cons, List.map_nil, List.cons.injEq, and_true] at hdigits
  obtain ⟨hlow, hhigh⟩ := hdigits
  have hlt := word.toNat_lt
  apply UInt16.toNat_inj.mp
  rw [ofLittleEndian, UInt16.toNat_ofNat', hlow, hhigh]
  omega

theorem ofPayload?_payload (operand : Operand) :
    ofPayload? operand.mode operand.payload = some operand := by
  cases operand <;> simp [mode, payload, littleEndian, ofPayload?, ofLittleEndian_of_eq rfl]

/-- Filling the field up does not hide the payload. -/
theorem ofField?_append_replicate (operand : Operand) (n : Nat) :
    ofField? operand.mode (operand.payload ++ List.replicate n 0) = some operand := by
  have hlength := operand.length_payload
  rw [ofField?, List.drop_left' hlength, List.take_left' hlength, ofPayload?_payload, if_pos]
  simp

end Operand

/-! ### Opcodes -/

namespace OpcodeTable

/-- No two keys of the table have one opcode. -/
def Unambiguous (table : OpcodeTable) : Prop :=
  ∀ a ∈ table.rows, ∀ b ∈ table.rows, a.opcode.byte = b.opcode.byte →
    a.mnemonic = b.mnemonic ∧ a.mode = b.mode

/-- The 151 opcodes of the NMOS 6502 are all different. -/
theorem nodup_nmosRows : (nmosRows.map fun row => row.opcode.byte.toNat).Nodup := by
  decide +kernel

/-- So its table is unambiguous. -/
theorem unambiguous_nmos : nmos.Unambiguous := by
  intro a ha b hb hbyte
  rw [rows_nmos] at ha hb
  have hsame : a = b :=
    List.inj_on_of_nodup_map nodup_nmosRows ha hb (congrArg UInt8.toNat hbyte)
  rw [hsame]
  exact ⟨rfl, rfl⟩

/-- The row of an opcode byte. -/
def rowOf? (table : OpcodeTable) (byte : UInt8) : Option Row :=
  table.rows.find? fun row => row.opcode.byte = byte

variable {table : OpcodeTable}

theorem eq_of_mnemonic_eq_of_mode_eq {a b : Row} (ha : a ∈ table.rows) (hb : b ∈ table.rows)
    (hmnemonic : a.mnemonic = b.mnemonic) (hmode : a.mode = b.mode) : a = b := by
  obtain ⟨-, hgeta⟩ := mem_rows_iff.mp ha
  obtain ⟨-, hgetb⟩ := mem_rows_iff.mp hb
  obtain ⟨mnemonic, mode, opcode⟩ := a
  obtain rfl : mnemonic = b.mnemonic := hmnemonic
  obtain rfl : mode = b.mode := hmode
  obtain rfl : opcode = b.opcode := Option.some.inj (hgeta.symm.trans hgetb)
  rfl

theorem mem_rows_of_lookup_eq_ok {mnemonic : String} {mode : Mode} {opcode : Opcode}
    (h : table.lookup mnemonic mode = .ok opcode) :
    Row.mk (upper mnemonic) mode opcode ∈ table.rows := by
  have hupper := upper_upper mnemonic
  exact mem_rows_iff.mpr ⟨hupper, (get?_congr hupper).trans (lookup_eq_ok_iff.mp h)⟩

/-- In an unambiguous table the opcode byte leads back to the key. -/
theorem rowOf?_of_lookup_eq_ok (h : table.Unambiguous) {mnemonic : String} {mode : Mode}
    {opcode : Opcode} (hlookup : table.lookup mnemonic mode = .ok opcode) :
    table.rowOf? opcode.byte = some ⟨upper mnemonic, mode, opcode⟩ := by
  have hmem := mem_rows_of_lookup_eq_ok hlookup
  apply StableSort.find?_eq_some_of_unique hmem (by simp)
  -- a row with the opcode has the key, and so it is the row of the key
  intro row hrow hbyte
  obtain ⟨hmnemonic, hmode⟩ := h row hrow _ hmem (by simpa using hbyte)
  exact eq_of_mnemonic_eq_of_mode_eq hrow hmem hmnemonic hmode

end OpcodeTable

/-! ### Instructions -/

/-- An instruction as it is read off machine code. -/
structure Decoded where
  /-- Address of the opcode byte. -/
  address : Nat
  /-- The name of the operation. -/
  mnemonic : String
  /-- The operand. -/
  operand : Operand
deriving DecidableEq, Repr

/-- Decodes machine code, the first byte of which stands at the address. -/
def decode (table : OpcodeTable) (address : Nat) : List UInt8 → Option (List Decoded)
  | [] => some []
  | byte :: rest =>
    match table.rowOf? byte with
    | none => none
    | some row =>
      if rest.length < row.opcode.fieldWidth then none
      else
        match Operand.ofField? row.mode (rest.take row.opcode.fieldWidth) with
        | none => none
        | some operand =>
          (decode table (address + row.opcode.size) (rest.drop row.opcode.fieldWidth)).map
            (⟨address, row.mnemonic, operand⟩ :: ·)
termination_by bytes => bytes.length
decreasing_by
  rw [List.length_drop, List.length_cons]
  omega

@[simp] theorem decode_nil (table : OpcodeTable) (address : Nat) :
    decode table address [] = some [] := by
  rw [decode]

namespace Encoded

/-- What decoding can tell about an instruction. -/
def decoded (e : Encoded) : Decoded := ⟨e.address.toNat, e.mnemonic, e.operand⟩

end Encoded

variable {table : OpcodeTable} {address : Nat}

/-- **One instruction is decoded** from the front of the code, and decoding
    goes on behind it. -/
theorem decode_bytes_append (h : table.Unambiguous) {s : Statement} {e : Encoded}
    (he : Statement.Encodes table address s e) (hupper : upper e.mnemonic = e.mnemonic)
    (rest : List UInt8) :
    decode table address (e.bytes ++ rest) =
      (decode table (address + e.size) rest).map (e.decoded :: ·) := by
  obtain ⟨opcode, hlookup, -, hsize, hencode⟩ := he.opcode_eq
  -- the field holds the payload and is as wide as the opcode says
  have hfield : e.bytes = opcode.byte :: (e.operand.payload ++
      List.replicate (opcode.fieldWidth - e.operand.mode.payloadWidth) 0) ∧
      e.operand.mode.payloadWidth ≤ opcode.fieldWidth := by
    unfold Opcode.encode at hencode
    cases hoperand : e.operand.encode opcode.fieldWidth with
    | error fault => simp [hoperand, Except.map] at hencode
    | ok field =>
      obtain ⟨hnarrow, -, hpadded⟩ := Operand.encode_eq_ok_iff.mp hoperand
      simp only [hoperand, Except.map, Except.ok.injEq] at hencode
      rw [← hencode, hpadded]
      exact ⟨rfl, hnarrow⟩
  obtain ⟨hbytes, hnarrow⟩ := hfield
  have hlength : (e.operand.payload ++ List.replicate
      (opcode.fieldWidth - e.operand.mode.payloadWidth) (0 : UInt8)).length =
      opcode.fieldWidth := by
    rw [List.length_append, Operand.length_payload, List.length_replicate]
    omega
  rw [hbytes, List.cons_append, decode, OpcodeTable.rowOf?_of_lookup_eq_ok h hlookup]
  simp only [List.take_left' hlength, List.drop_left' hlength,
    Operand.ofField?_append_replicate, hupper, hsize]
  rw [if_neg (by rw [List.length_append, hlength]; omega), Encoded.decoded, he.address_eq]

/-- **The code of a program is decoded** to its instructions. -/
theorem decode_flatMap_bytes (h : table.Unambiguous) {statements : List Statement}
    (hwell : ∀ s ∈ statements, s.WellFormed)
    (hadmissible : Statement.Admissible table address statements) :
    decode table address
        ((Statement.instructionsFrom table address statements).flatMap Encoded.bytes) =
      some ((Statement.instructionsFrom table address statements).map Encoded.decoded) := by
  induction statements generalizing address with
  | nil => exact decode_nil table address
  | cons s rest ih =>
    obtain ⟨hs, -, hrest⟩ := Statement.admissible_cons_iff.mp hadmissible
    have hlater := ih (fun t ht => hwell t (List.mem_cons_of_mem s ht)) hrest
    rw [Statement.instructionsFrom_cons]
    rcases Statement.encodedAt_cases hs with ⟨-, hroom, hnone⟩ | ⟨e, hsome, he⟩
    · -- no instruction and no room: nothing is decoded
      rw [hroom, Nat.add_zero] at hlater
      rw [hnone, hroom, Option.toList_none, List.nil_append, Nat.add_zero]
      exact hlater
    · -- the mnemonic has been read, so it is in upper case
      have hupper : upper e.mnemonic = e.mnemonic := by
        have hmnemonic := (hwell s List.mem_cons_self).mnemonic _ he.instruction_eq
        rw [upper, map_toUpper_of_isPlain hmnemonic.2, String.ofList_toList]
      rw [he.room_eq] at hlater
      rw [hsome, Option.toList_some, List.singleton_append, List.flatMap_cons,
        decode_bytes_append h he hupper, he.room_eq, hlater]
      rfl

/-! ### Programs -/

/-- **Machine code determines the instructions.** With an unambiguous table,
    such as that of the NMOS 6502, the code of a program is decoded to its
    instructions. So two programs with one origin and the same code have the
    same instructions at the same addresses, however they were written. -/
theorem instructions_eq_of_bytes_eq (table : OpcodeTable) (h : table.Unambiguous)
    (origin : UInt16) (limit limit' : Option Nat) (lines lines' : List String) (p q : Program)
    (hp : assembleLines table ⟨origin, limit⟩ lines = .ok p)
    (hq : assembleLines table ⟨origin, limit'⟩ lines' = .ok q) :
    (p.bytes = q.bytes →
      p.instructions.map (fun e => (e.address, e.mnemonic, e.operand)) =
        q.instructions.map fun e => (e.address, e.mnemonic, e.operand)) ∧
    decode table origin.toNat p.bytes =
      some (p.instructions.map fun e => ⟨e.address.toNat, e.mnemonic, e.operand⟩) ∧
    OpcodeTable.nmos.Unambiguous := by
  -- every program is decoded to its instructions
  have hdecode : ∀ {limit lines r}, assembleLines table ⟨origin, limit⟩ lines = .ok r →
      decode table origin.toNat r.bytes = some (r.instructions.map Encoded.decoded) := by
    intro limit lines r hr
    obtain ⟨statements, hread, hadmissible, himage⟩ := exists_image_of_assembleLines_eq_ok hr
    rw [himage.bytes_eq, himage.instructions_eq]
    exact decode_flatMap_bytes h hread.wellFormed hadmissible
  refine ⟨?_, hdecode hp, OpcodeTable.unambiguous_nmos⟩
  intro hbytes
  have hsame : p.instructions.map Encoded.decoded = q.instructions.map Encoded.decoded := by
    have hboth := hdecode hp
    rw [hbytes, hdecode hq] at hboth
    exact (Option.some.inj hboth).symm
  -- addresses were decoded as numbers
  have haddress := congrArg
    (List.map fun d : Decoded => (UInt16.ofNat d.address, d.mnemonic, d.operand)) hsame
  simpa [Encoded.decoded, Function.comp_def] using haddress

/-- Three instructions in two spellings: decimal and hexadecimal offsets, letter
    case, comments, labels and blank lines make no difference. -/
theorem instructions_eq_of_bytes_eq_spellings :
    ∃ p q,
      assembleLines .nmos { origin := 0x0600 }
        ["loop: lda #$10 ; load", "  bne *-4", "jmp ($fc)"] = .ok p ∧
      assembleLines .nmos { origin := 0x0600 }
        ["LDA #10", "", "BNE *FC", "; forever", "JMP ($FC)"] = .ok q ∧
      p.bytes = q.bytes ∧
      p.instructions.map (fun e => (e.address, e.mnemonic, e.operand)) =
        q.instructions.map (fun e => (e.address, e.mnemonic, e.operand)) ∧
      decode .nmos 0x0600 p.bytes =
        some (p.instructions.map fun e => ⟨e.address.toNat, e.mnemonic, e.operand⟩) := by
  obtain ⟨p, hp, hpBytes⟩ := @exists_program_of_ofLines_eq_nil .nmos { origin := 0x0600 }
    ["loop: lda #$10 ; load", "  bne *-4", "jmp ($fc)"] (by decide +kernel)
  obtain ⟨q, hq, hqBytes⟩ := @exists_program_of_ofLines_eq_nil .nmos { origin := 0x0600 }
    ["LDA #10", "", "BNE *FC", "; forever", "JMP ($FC)"] (by decide +kernel)
  have hbytes : p.bytes = q.bytes := by
    rw [hpBytes, hqBytes]
    decide +kernel
  obtain ⟨hsame, hdecode, -⟩ := instructions_eq_of_bytes_eq .nmos OpcodeTable.unambiguous_nmos
    0x0600 none none _ _ p q hp hq
  exact ⟨p, q, hp, hq, hbytes, hsame hbytes, hdecode⟩

end Mos6502
