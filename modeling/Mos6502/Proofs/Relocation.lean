import Mos6502.Proofs.LineTable

/-! # Relocation

    No operand of an instruction depends on an address, so a source that is
    assembled at another origin has the same code. What moves are the
    addresses, all of them by the distance of the origins
    (`Program.Relocated`).

    Addresses are words, so a move is first an addition of words
    (`Encoded.moved`), which holds of any two images of the same statements.
    That no address wraps around on the way is what admissibility at both
    origins adds. It only has to be asked for at the higher one: further down
    there is more room (`Statement.Admissible.of_le`).
-/

namespace Mos6502

/-! ### Moved instructions and symbols -/

/-- The instruction at an address that is larger by the shift. -/
def Encoded.moved (shift : UInt16) (e : Encoded) : Encoded := { e with address := e.address + shift }

/-- The symbol at an address that is larger by the shift. -/
def Symbol.moved (shift : UInt16) (symbol : Symbol) : Symbol :=
  { symbol with address := symbol.address + shift }

@[simp] theorem Encoded.size_moved (shift : UInt16) (e : Encoded) :
    (e.moved shift).size = e.size := rfl

namespace Statement

variable {table : InstructionSet} {a b : Nat} {shift : UInt16} {statements : List Statement}

theorem symbolAt_moved (hshift : UInt16.ofNat b = .ofNat a + shift) (s : Statement) :
    symbolAt b s = (symbolAt a s).map (Symbol.moved shift) := by
  unfold symbolAt
  cases s.label with
  | none => rfl
  | some name => simp [Symbol.moved, hshift]

theorem encodedAt_moved (hshift : UInt16.ofNat b = .ofNat a + shift) (s : Statement) :
    encodedAt table b s = (encodedAt table a s).map (Encoded.moved shift) := by
  unfold encodedAt
  cases s.instruction with
  | none => rfl
  | some instruction =>
    simp only
    cases table.lookup instruction.mnemonic instruction.operand.mode with
    | error fault => rfl
    | ok opcode => simp [Encoded.moved, hshift]

private theorem ofNat_add_room (hshift : UInt16.ofNat b = .ofNat a + shift) (s : Statement) :
    UInt16.ofNat (b + s.room table) = .ofNat (a + s.room table) + shift := by
  rw [UInt16.ofNat_add, UInt16.ofNat_add, hshift]
  ac_rfl

theorem symbolsFrom_moved (hshift : UInt16.ofNat b = .ofNat a + shift) :
    symbolsFrom table b statements = (symbolsFrom table a statements).map (Symbol.moved shift) := by
  induction statements generalizing a b with
  | nil => rfl
  | cons s rest ih =>
    rw [symbolsFrom_cons, symbolsFrom_cons, List.map_append, symbolAt_moved hshift,
      ih (ofNat_add_room hshift s)]
    cases symbolAt a s <;> rfl

theorem instructionsFrom_moved (hshift : UInt16.ofNat b = .ofNat a + shift) :
    instructionsFrom table b statements =
      (instructionsFrom table a statements).map (Encoded.moved shift) := by
  induction statements generalizing a b with
  | nil => rfl
  | cons s rest ih =>
    rw [instructionsFrom_cons, instructionsFrom_cons, List.map_append, encodedAt_moved hshift,
      ih (ofNat_add_room hshift s)]
    cases encodedAt table a s <;> rfl

/-! ### Exact distances -/

/-- Statements that are admissible at an address are so at every lower one. -/
theorem Admissible.of_le (h : Admissible table a statements) (hle : b ≤ a) :
    Admissible table b statements where
  labels_nodup := h.labels_nodup
  encodable := h.encodable
  label_within := by
    intro i s hs hlabel
    have hwithin := h.label_within i s hs hlabel
    unfold addressOf at hwithin ⊢
    omega
  instruction_within := by
    intro i s hs hinstruction
    have hwithin := h.instruction_within i s hs hinstruction
    unfold addressOf at hwithin ⊢
    omega

/-- Where statements are admissible, their symbols have moved by exactly the
    distance of the first addresses. -/
theorem address_moved_of_mem_symbolsFrom (ha : Admissible table a statements)
    (hb : Admissible table b statements) (hshift : UInt16.ofNat b = .ofNat a + shift)
    {symbol : Symbol} (hsymbol : symbol ∈ symbolsFrom table a statements) :
    (symbol.moved shift).address.toNat + a = symbol.address.toNat + b := by
  induction statements generalizing a b with
  | nil => simp [symbolsFrom, addressed] at hsymbol
  | cons s rest ih =>
    obtain ⟨hsa, -, hrestA⟩ := admissible_cons_iff.mp ha
    obtain ⟨hsb, -, hrestB⟩ := admissible_cons_iff.mp hb
    rw [symbolsFrom_cons] at hsymbol
    rcases List.mem_append.mp hsymbol with hsymbol | hsymbol
    · -- neither address has been truncated
      obtain ⟨name, hname, rfl⟩ := Option.map_eq_some_iff.mp (Option.mem_toList.mp hsymbol)
      have hlabel : s.label ≠ none := by simp [hname]
      have hwithinA := hsa.label_within hlabel
      have hwithinB := hsb.label_within hlabel
      show (UInt16.ofNat a + shift).toNat + a = (UInt16.ofNat a).toNat + b
      rw [← hshift, UInt16.toNat_ofNat', UInt16.toNat_ofNat', Nat.mod_eq_of_lt (by omega),
        Nat.mod_eq_of_lt (by omega), Nat.add_comm]
    · have hrest := ih hrestA hrestB (ofNat_add_room hshift s) hsymbol
      omega

end Statement

/-- Where moved instructions lie one behind the other as well, they have moved
    by exactly the distance of the first addresses. -/
theorem Encoded.Contiguous.address_moved {a b : Nat} {shift : UInt16} {l : List Encoded}
    (ha : Contiguous a l) (hb : Contiguous b (l.map (moved shift))) {e : Encoded} (he : e ∈ l) :
    (e.moved shift).address.toNat + a = e.address.toNat + b := by
  induction l generalizing a b with
  | nil => simp at he
  | cons f rest ih =>
    obtain ⟨hfa, hrestA⟩ := ha
    obtain ⟨hfb, hrestB⟩ := hb
    rcases List.mem_cons.mp he with rfl | he
    · omega
    · have hrest := ih hrestA hrestB he
      rw [size_moved] at hrest
      omega

/-! ### Relocated programs -/

/-- **A relocated program** has the same code, and all of its addresses have
    moved by the same distance. -/
structure Program.Relocated (distance : Int) (p q : Program) : Prop where
  /-- The code is the same, -/
  bytes_eq : q.bytes = p.bytes
  /-- and so are the instructions, their encodings and their places in the
      source, -/
  instructions_eq :
    q.instructions.map (fun e => (e.line, e.column, e.mnemonic, e.operand, e.opcode, e.field)) =
      p.instructions.map fun e => (e.line, e.column, e.mnemonic, e.operand, e.opcode, e.field)
  /-- and the names of the symbols and the lines that define them. -/
  symbols_eq : q.symbols.symbols.map (fun symbol => (symbol.name, symbol.line)) =
    p.symbols.symbols.map fun symbol => (symbol.name, symbol.line)
  /-- Every instruction has moved, -/
  instructions_moved : q.instructions.map (fun e => (e.address.toNat : Int)) =
    p.instructions.map fun e => e.address.toNat + distance
  /-- every symbol, -/
  symbols_moved : q.symbols.symbols.map (fun symbol => (symbol.address.toNat : Int)) =
    p.symbols.symbols.map fun symbol => symbol.address.toNat + distance
  /-- the end, -/
  endAddress_moved : (q.endAddress : Int) = p.endAddress + distance
  /-- and the range of every line. -/
  range_moved : ∀ n, (q.range? n).map (fun range => ((range.start.toNat : Int), (range.stop : Int))) =
    (p.range? n).map fun range => (range.start.toNat + distance, range.stop + distance)
  /-- Every address of a byte has moved to one that comes from the same place. -/
  location_moved : ∀ a : UInt16, p.origin.toNat ≤ a.toNat → a.toNat < p.endAddress →
    ∃ b : UInt16, (b.toNat : Int) = a.toNat + distance ∧ q.location? b = p.location? a

namespace Program.IsImage

variable {table : InstructionSet} {o₁ o₂ : UInt16} {lines : List String}
  {statements : List Statement} {p q : Program}

theorem ofNat_toNat_shift (o₁ o₂ : UInt16) :
    UInt16.ofNat o₂.toNat = .ofNat o₁.toNat + (o₂ - o₁) := by
  rw [UInt16.ofNat_toNat, UInt16.ofNat_toNat, UInt16.add_comm, UInt16.sub_add_cancel]

/-- Two images of the same statements have the same instructions, but for a
    shift of their addresses, -/
theorem instructions_eq_map_moved (hp : p.IsImage table o₁ statements)
    (hq : q.IsImage table o₂ statements) :
    q.instructions = p.instructions.map (Encoded.moved (o₂ - o₁)) := by
  rw [hq.instructions_eq, hp.instructions_eq]
  exact Statement.instructionsFrom_moved (ofNat_toNat_shift o₁ o₂)

/-- and the same symbols. -/
theorem symbols_eq_map_moved (hp : p.IsImage table o₁ statements)
    (hq : q.IsImage table o₂ statements) :
    q.symbols.symbols = p.symbols.symbols.map (Symbol.moved (o₂ - o₁)) := by
  rw [hq.symbols_eq, hp.symbols_eq]
  exact Statement.symbolsFrom_moved (ofNat_toNat_shift o₁ o₂)

theorem bytes_eq_bytes (hp : p.IsImage table o₁ statements)
    (hq : q.IsImage table o₂ statements) : q.bytes = p.bytes := by
  rw [hq.bytes_eq, hp.bytes_eq, hp.instructions_eq_map_moved hq, List.flatMap_map]
  rfl

theorem address_moved (hp : p.IsImage table o₁ statements) (hq : q.IsImage table o₂ statements)
    (ha : Statement.Admissible table o₁.toNat statements)
    (hb : Statement.Admissible table o₂.toNat statements) {e : Encoded}
    (he : e ∈ p.instructions) :
    ((e.moved (o₂ - o₁)).address.toNat : Int) = e.address.toNat + (o₂.toNat - o₁.toNat) := by
  have hcontiguous := hq.contiguous hb
  rw [hp.instructions_eq_map_moved hq] at hcontiguous
  have hmoved := (hp.contiguous ha).address_moved hcontiguous he
  rw [hp.origin_eq, hq.origin_eq] at hmoved
  omega

theorem range?_moved (hp : p.IsImage table o₁ statements) (hq : q.IsImage table o₂ statements)
    (ha : Statement.Admissible table o₁.toNat statements)
    (hb : Statement.Admissible table o₂.toNat statements)
    (hread : Statement.ReadAs 1 lines statements) (n : Nat) :
    (q.range? n).map (fun range => ((range.start.toNat : Int), (range.stop : Int))) =
      (p.range? n).map fun range =>
        (range.start.toNat + ((o₂.toNat : Int) - o₁.toNat),
          range.stop + ((o₂.toNat : Int) - o₁.toNat)) := by
  have hinstructions := hp.instructions_eq_map_moved hq
  cases hrange : p.range? n with
  | some range =>
    -- the line holds an instruction, which has moved
    obtain ⟨e, he, hline, rfl⟩ := (hp.range?_eq_some_iff ha hread).mp hrange
    have hmoved := hp.address_moved hq ha hb he
    have hrange' : q.range? n = some (LineTable.rangeOf (e.moved (o₂ - o₁))) := by
      rw [hq.range?_eq_some_iff hb hread, hinstructions]
      exact ⟨_, List.mem_map_of_mem he, hline, rfl⟩
    rw [hrange', Option.map_some, Option.map_some, Option.some.injEq, Prod.mk.injEq]
    simp only [LineTable.rangeOf, Encoded.endAddress, Encoded.size_moved]
    omega
  | none =>
    -- a line without an instruction has no range at either origin
    have hnone : q.range? n = none := by
      rw [Option.eq_none_iff_forall_ne_some]
      intro range hsome
      rw [hq.range?_eq_some_iff hb hread, hinstructions] at hsome
      obtain ⟨f, hf, hline, -⟩ := hsome
      obtain ⟨e, he, rfl⟩ := List.mem_map.mp hf
      have hrange' := (hp.range?_eq_some_iff ha hread).mpr ⟨e, he, hline, rfl⟩
      rw [hrange] at hrange'
      simp at hrange'
    rw [hnone]
    rfl

theorem location?_moved (hp : p.IsImage table o₁ statements) (hq : q.IsImage table o₂ statements)
    (ha : Statement.Admissible table o₁.toNat statements)
    (hb : Statement.Admissible table o₂.toNat statements) {a : UInt16}
    (hstart : p.origin.toNat ≤ a.toNat) (hstop : a.toNat < p.endAddress) :
    ∃ b : UInt16, (b.toNat : Int) = a.toNat + (o₂.toNat - o₁.toNat) ∧
      q.location? b = p.location? a := by
  rw [hp.endAddress_eq] at hstop
  obtain ⟨e, he, hcovers⟩ := (hp.contiguous ha).exists_covers_iff.mpr ⟨hstart, hstop⟩
  have hmoved := hp.address_moved hq ha hb he
  have hmem : e.moved (o₂ - o₁) ∈ q.instructions := by
    rw [hp.instructions_eq_map_moved hq]
    exact List.mem_map_of_mem he
  -- the moved instruction ends within the address space, and so does the moved address
  have hend : (e.moved (o₂ - o₁)).endAddress ≤ 0x10000 := by
    rw [hq.instructions_eq] at hmem
    obtain ⟨s, -, at_, hencodes⟩ := Statement.exists_encodes_of_mem hb hmem
    rw [Encoded.endAddress, hencodes.address_eq]
    exact hencodes.within
  have hlower := hcovers.1
  have hupper := hcovers.2
  simp only [Encoded.endAddress, Encoded.size_moved] at hend hupper
  have hlt : a.toNat + o₂.toNat - o₁.toNat < 2 ^ 16 := by omega
  have hnat : (UInt16.ofNat (a.toNat + o₂.toNat - o₁.toNat)).toNat =
      a.toNat + o₂.toNat - o₁.toNat := by
    rw [UInt16.toNat_ofNat', Nat.mod_eq_of_lt hlt]
  refine ⟨.ofNat (a.toNat + o₂.toNat - o₁.toNat), ?_, ?_⟩
  · rw [hnat]
    omega
  · -- both addresses are covered by the same instruction
    rw [(hp.location?_eq_some_iff ha).mpr ⟨e, he, hcovers, rfl⟩, hq.location?_eq_some_iff hb]
    refine ⟨_, hmem, ?_, rfl⟩
    rw [Encoded.Covers, Encoded.endAddress, Encoded.size_moved, hnat]
    omega

/-- **Two images of the same statements are relocations of each other.** -/
theorem relocated (hp : p.IsImage table o₁ statements) (hq : q.IsImage table o₂ statements)
    (ha : Statement.Admissible table o₁.toNat statements)
    (hb : Statement.Admissible table o₂.toNat statements)
    (hread : Statement.ReadAs 1 lines statements) :
    p.Relocated (o₂.toNat - o₁.toNat) q where
  bytes_eq := hp.bytes_eq_bytes hq
  instructions_eq := by
    rw [hp.instructions_eq_map_moved hq, List.map_map]
    rfl
  symbols_eq := by
    rw [hp.symbols_eq_map_moved hq, List.map_map]
    rfl
  instructions_moved := by
    rw [hp.instructions_eq_map_moved hq, List.map_map]
    apply List.map_congr_left
    intro e he
    exact hp.address_moved hq ha hb he
  symbols_moved := by
    rw [hp.symbols_eq_map_moved hq, List.map_map]
    apply List.map_congr_left
    intro symbol hsymbol
    rw [hp.symbols_eq] at hsymbol
    have hmoved :=
      Statement.address_moved_of_mem_symbolsFrom ha hb (ofNat_toNat_shift o₁ o₂) hsymbol
    simp only [Function.comp_apply]
    omega
  endAddress_moved := by
    rw [endAddress, endAddress, hp.bytes_eq_bytes hq, hp.origin_eq, hq.origin_eq]
    omega
  range_moved := hp.range?_moved hq ha hb hread
  location_moved := by
    intro a hstart hstop
    exact hp.location?_moved hq ha hb hstart hstop

end Program.IsImage

/-- **Relocation**: a source that assembles at an origin assembles at every
    lower one, and its programs at two origins are relocations of each other
    by the distance of the origins. -/
theorem assembleLines_relocated (table : InstructionSet) (o₁ o₂ : UInt16) (limit limit' : Option Nat)
    (lines : List String) :
    ((∃ p, assembleLines table ⟨o₁, limit⟩ lines = .ok p) → o₂ ≤ o₁ →
      ∃ q, assembleLines table ⟨o₂, limit'⟩ lines = .ok q) ∧
    ∀ p q, assembleLines table ⟨o₁, limit⟩ lines = .ok p →
      assembleLines table ⟨o₂, limit'⟩ lines = .ok q →
      p.Relocated (o₂.toNat - o₁.toNat) q := by
  refine ⟨?_, ?_⟩
  · rintro ⟨p, hp⟩ hle
    obtain ⟨statements, hread, hadmissible, -⟩ := exists_image_of_assembleLines_eq_ok hp
    obtain ⟨q, hq, -⟩ := exists_program_of_admissible ⟨o₂, limit'⟩ hread
      (hadmissible.of_le (UInt16.le_iff_toNat_le.mp hle))
    exact ⟨q, hq⟩
  · intro p q hp hq
    obtain ⟨statements, hread, ha, himage⟩ := exists_image_of_assembleLines_eq_ok hp
    obtain ⟨others, hothers, hb, himage'⟩ := exists_image_of_assembleLines_eq_ok hq
    -- both programs are images of what the lines read as
    obtain rfl := hread.unique hothers
    exact himage.relocated himage' ha hb hread

/-- A label behind the last instruction, moved down from the end of the address
    space to the zero page. -/
theorem assembleLines_relocated_to_zero_page :
    ∃ p q, assembleLines .nmos { origin := 0xFFF8 } ["start: LDA $10,X", "BNE *-4", "end:"] = .ok p ∧
      assembleLines .nmos { origin := 0x0040 } ["start: LDA $10,X", "BNE *-4", "end:"] = .ok q ∧
      p.Relocated (0x0040 - 0xFFF8) q := by
  obtain ⟨p, hp, -⟩ := @exists_program_of_ofLines_eq_nil .nmos { origin := 0xFFF8 }
    ["start: LDA $10,X", "BNE *-4", "end:"] (by decide +kernel)
  obtain ⟨relocates, relocated⟩ := assembleLines_relocated .nmos 0xFFF8 0x0040 none none
    ["start: LDA $10,X", "BNE *-4", "end:"]
  obtain ⟨q, hq⟩ := relocates ⟨p, hp⟩ (by decide)
  exact ⟨p, q, hp, hq, relocated p q hp hq⟩

end Mos6502
