import Mathlib.Data.List.Basic
import Mos6502.Opcode.Nmos
import Mos6502.Proofs.Contiguity
import Mos6502.Proofs.Renumbering

/-! # One Source Behind Another

    Of two sources that stand one behind the other, the first does not notice
    the second: it has the same diagnostics as by itself. And if it assembles,
    all that it hands on is the address at which it ends and the labels it has
    used up. So the second one is assembled as if it stood by itself at that
    address, with its lines numbered on, provided that it uses no label of the
    first (`assembleLines_append`).

    That is read off the image of a source. The running sums of rooms, and with
    them symbols and instructions, go on behind the first statements where
    these end (`Statement.addressed_append`).
-/

namespace Mos6502

namespace Statement

variable {table : InstructionSet}

/-! ### Statements one behind the other -/

/-- The address behind some statements, the first of which has the address
    given. -/
def addressAfter (table : InstructionSet) (address : Nat) (statements : List Statement) : Nat :=
  address + (statements.map (room table)).sum

/-- Addresses go on where the first statements end, -/
theorem addressed_append (address : Nat) (statements others : List Statement) :
    addressed table address (statements ++ others) =
      addressed table address statements ++
        addressed table (addressAfter table address statements) others := by
  induction statements generalizing address with
  | nil => simp [addressed, addressAfter]
  | cons s rest ih => simp [addressed, ih, addressAfter, Nat.add_assoc]

/-- and so do symbols -/
theorem symbolsFrom_append (address : Nat) (statements others : List Statement) :
    symbolsFrom table address (statements ++ others) =
      symbolsFrom table address statements ++
        symbolsFrom table (addressAfter table address statements) others := by
  simp only [symbolsFrom, addressed_append, List.filterMap_append]

/-- and instructions. -/
theorem instructionsFrom_append (address : Nat) (statements others : List Statement) :
    instructionsFrom table address (statements ++ others) =
      instructionsFrom table address statements ++
        instructionsFrom table (addressAfter table address statements) others := by
  simp only [instructionsFrom, addressed_append, List.filterMap_append]

/-- Apart from their labels, statements behind others are admissible or not as
    they are by themselves. -/
theorem admissible_append_iff {address : Nat} {statements others : List Statement} :
    Admissible table address (statements ++ others) ↔
      Admissible table address statements ∧
        Admissible table (addressAfter table address statements) others ∧
        (statements.filterMap label).Disjoint (others.filterMap label) := by
  simp only [admissible_iff, addressed_append, List.filterMap_append, List.nodup_append',
    List.forall_mem_append]
  tauto

/-! ### Sources one behind the other -/

theorem readAs_append_iff {first : Nat} {l m : List String} {statements : List Statement} :
    ReadAs first (l ++ m) statements ↔
      ∃ front back, statements = front ++ back ∧ ReadAs first l front ∧
        ReadAs (first + l.length) m back := by
  induction l generalizing first statements with
  | nil => simp
  | cons text l ih =>
    have hlength : first + (text :: l).length = first + 1 + l.length := by
      rw [List.length_cons]
      omega
    rw [List.cons_append, readAs_cons_iff, hlength]
    constructor
    · rintro ⟨s, rest, rfl, hs, hrest⟩
      obtain ⟨front, back, rfl, hfront, hback⟩ := ih.mp hrest
      exact ⟨s :: front, back, rfl, readAs_cons_iff.mpr ⟨s, front, rfl, hs, hfront⟩, hback⟩
    · rintro ⟨whole, back, rfl, hwhole, hback⟩
      obtain ⟨s, front, rfl, hs, hfront⟩ := readAs_cons_iff.mp hwhole
      exact ⟨s, front ++ back, rfl, hs, ih.mpr ⟨front, back, rfl, hfront, hback⟩⟩

/-- Behind a source that reads as some statements, another one reads as it does
    by itself, with its lines numbered on. -/
theorem ReadAs.readAs_append_iff {l m : List String} {front statements : List Statement}
    (hfront : ReadAs 1 l front) :
    ReadAs 1 (l ++ m) statements ↔
      ∃ back, statements = front ++ back.map (Statement.renumber (· + l.length)) ∧
        ReadAs 1 m back := by
  rw [Statement.readAs_append_iff]
  simp only [readAs_add_iff]
  constructor
  · intro ⟨first, _, hsplit, hfirst, back, hnumbered, hback⟩
    rw [hsplit, hnumbered, hfirst.unique hfront]
    exact ⟨back, rfl, hback⟩
  · intro ⟨back, hsplit, hback⟩
    exact ⟨front, _, hsplit, hfront, back, rfl, hback⟩

theorem ReadAs.labels {first : Nat} {lines : List String} {statements : List Statement}
    (h : ReadAs first lines statements) :
    statements.filterMap label = lines.filterMap Fields.leadingLabel := by
  induction lines generalizing first statements with
  | nil => rw [readAs_nil.mp h]; rfl
  | cons text lines ih =>
    obtain ⟨s, rest, rfl, hs, hrest⟩ := readAs_cons_iff.mp h
    rw [List.filterMap_cons, List.filterMap_cons, label_of_read hs, ih hrest]

end Statement

/-- The labels that the lines of a source start with. -/
def sourceLabels (lines : List String) : List String := lines.filterMap Fields.leadingLabel

namespace Program

/-- **A program followed by another one.** The code, the instructions and the
    symbols of the second one stand behind those of the first, and its lines
    are numbered on from the given one. -/
structure IsFollowedBy (p q : Program) (lines : Nat) (whole : Program) : Prop where
  /-- The whole starts where the first program does. -/
  origin_eq : whole.origin = p.origin
  /-- The code of both, -/
  bytes_eq : whole.bytes = p.bytes ++ q.bytes
  /-- the instructions of both, -/
  instructions_eq : whole.instructions =
    p.instructions ++ q.instructions.map (Encoded.renumber (· + lines))
  /-- and the symbols of both. -/
  symbols_eq : whole.symbols.symbols =
    p.symbols.symbols ++ q.symbols.symbols.map (Symbol.renumber (· + lines))

namespace IsImage

variable {table : InstructionSet} {origin e : UInt16} {front back : List Statement}
  {p q whole : Program}

theorem endAddress_eq_addressAfter (hp : p.IsImage table origin front)
    (h : Statement.Admissible table origin.toNat front) :
    p.endAddress = Statement.addressAfter table origin.toNat front := by
  rw [endAddress, hp.origin_eq, hp.bytes_eq, Encoded.length_flatMap_bytes, hp.instructions_eq,
    (Statement.contiguous_instructionsFrom h).2]
  rfl

/-- The image of two sources is the image of the first followed by that of the
    second at the end of the first. -/
theorem isFollowedBy (hp : p.IsImage table origin front) (hq : q.IsImage table e back)
    (he : e.toNat = Statement.addressAfter table origin.toNat front) {n : Nat}
    (hwhole : whole.IsImage table origin (front ++ back.map (Statement.renumber (· + n)))) :
    p.IsFollowedBy q n whole := by
  have hinstructions : whole.instructions =
      p.instructions ++ q.instructions.map (Encoded.renumber (· + n)) := by
    rw [hwhole.instructions_eq, Statement.instructionsFrom_append,
      Statement.instructionsFrom_renumber, ← he, hp.instructions_eq, hq.instructions_eq]
  refine ⟨?_, ?_, hinstructions, ?_⟩
  · rw [hwhole.origin_eq, hp.origin_eq]
  · rw [hwhole.bytes_eq, hinstructions, List.flatMap_append, List.flatMap_map, hp.bytes_eq,
      hq.bytes_eq]
    rfl
  · rw [hwhole.symbols_eq, Statement.symbolsFrom_append, Statement.symbolsFrom_renumber, ← he,
      hp.symbols_eq, hq.symbols_eq]

end IsImage

end Program

/-! ### Diagnostics -/

/-- Everything that is found up to the end of the first source is found in it
    by itself. -/
theorem Scan.filter_line_ofLines_append (table : InstructionSet) (origin : UInt16)
    (l m : List String) :
    (ofLines table origin (l ++ m)).filter (fun d => d.line ≤ l.length) =
      ofLines table origin l := by
  have hfront : ∀ d ∈ ofLines table origin l, d.line ≤ l.length := by
    intro d hd
    have hlt := line_lt_of_mem_diagnostics hd
    omega
  have hback : ∀ d ∈ diagnostics table ((start origin).after table (Reading.ofLines l))
      (Reading.ofLinesFrom (1 + l.length) m), ¬ d.line ≤ l.length := by
    intro d hd
    have hle := le_line_of_mem_diagnostics hd
    omega
  have hsplit : ofLines table origin (l ++ m) = ofLines table origin l ++
      diagnostics table ((start origin).after table (Reading.ofLines l))
        (Reading.ofLinesFrom (1 + l.length) m) := by
    unfold ofLines
    rw [Reading.ofLines_eq, Reading.ofLinesFrom_append, diagnostics_append]
    rfl
  rw [hsplit, List.filter_append, List.filter_eq_self.mpr (by simpa using hfront),
    List.filter_eq_nil_iff.mpr (by simpa using hback), List.append_nil]

/-- **Concatenation.** Behind a source that assembles and ends at an address
    `e`, another one assembles exactly when it does so by itself at `e` and
    shares no label with the first; the program of both is then the one
    followed by the other. And whether or not anything assembles, the first
    source has the same diagnostics as by itself. -/
theorem assembleLines_append (table : InstructionSet) (origin : UInt16) (limit : Option Nat)
    (l m : List String) :
    (∀ (p : Program) (e : UInt16), assembleLines table ⟨origin, limit⟩ l = .ok p →
      p.endAddress = e.toNat →
      ((∃ whole, assembleLines table ⟨origin, limit⟩ (l ++ m) = .ok whole) ↔
        (∃ q, assembleLines table ⟨e, limit⟩ m = .ok q) ∧
          (sourceLabels l).Disjoint (sourceLabels m)) ∧
      ∀ q whole, assembleLines table ⟨e, limit⟩ m = .ok q →
        assembleLines table ⟨origin, limit⟩ (l ++ m) = .ok whole →
        p.IsFollowedBy q l.length whole) ∧
    (diagnosticsOf (assembleLines table { origin } (l ++ m))).filter
        (fun d => d.line ≤ l.length) =
      diagnosticsOf (assembleLines table { origin } l) := by
  refine ⟨?_, ?_⟩
  · intro p e hp hend
    obtain ⟨front, hfront, hadmissible, himage⟩ := exists_image_of_assembleLines_eq_ok hp
    rw [himage.endAddress_eq_addressAfter hadmissible] at hend
    refine ⟨⟨?_, ?_⟩, ?_⟩
    · intro ⟨whole, hwhole⟩
      obtain ⟨statements, hread, hall, -⟩ := exists_image_of_assembleLines_eq_ok hwhole
      obtain ⟨back, rfl, hback⟩ := hfront.readAs_append_iff.mp hread
      obtain ⟨-, hadmissible', hdisjoint⟩ := Statement.admissible_append_iff.mp hall
      rw [Statement.admissible_renumber_iff, hend] at hadmissible'
      rw [Statement.labels_renumber, hfront.labels, hback.labels] at hdisjoint
      obtain ⟨q, hq, -⟩ := exists_program_of_admissible ⟨e, limit⟩ hback hadmissible'
      exact ⟨⟨q, hq⟩, hdisjoint⟩
    · intro ⟨⟨q, hq⟩, hdisjoint⟩
      obtain ⟨back, hback, hadmissible', -⟩ := exists_image_of_assembleLines_eq_ok hq
      have hall : Statement.Admissible table origin.toNat
          (front ++ back.map (Statement.renumber (· + l.length))) := by
        rw [Statement.admissible_append_iff, Statement.admissible_renumber_iff, hend,
          Statement.labels_renumber, hfront.labels, hback.labels]
        exact ⟨hadmissible, hadmissible', hdisjoint⟩
      obtain ⟨whole, hwhole, -⟩ := exists_program_of_admissible ⟨origin, limit⟩
        (hfront.readAs_append_iff.mpr ⟨back, rfl, hback⟩) hall
      exact ⟨whole, hwhole⟩
    · intro q whole hq hwhole
      obtain ⟨back, hback, -, himage'⟩ := exists_image_of_assembleLines_eq_ok hq
      obtain ⟨statements, hread, -, hall⟩ := exists_image_of_assembleLines_eq_ok hwhole
      -- all three programs are images of what their lines read as
      obtain rfl := hread.unique (hfront.readAs_append_iff.mpr ⟨back, rfl, hback⟩)
      exact himage.isFollowedBy himage' hend.symm hall
  · rw [diagnosticsOf_assembleLines, diagnosticsOf_assembleLines]
    exact Scan.filter_line_ofLines_append table origin l m

/-- A loop behind the instruction that sets its counter. The jump back ends the
    second source, whose first line is the second line of the whole. -/
theorem assembleLines_append_loop :
    ∃ p q whole, assembleLines .nmos { origin := 0x0600 } ["start: LDX #$05"] = .ok p ∧
      p.endAddress = (0x0602 : UInt16).toNat ∧
      assembleLines .nmos { origin := 0x0602 } ["loop: DEX", "BNE *-3"] = .ok q ∧
      assembleLines .nmos { origin := 0x0600 } (["start: LDX #$05"] ++ ["loop: DEX", "BNE *-3"]) =
        .ok whole ∧
      p.IsFollowedBy q 1 whole := by
  obtain ⟨p, hp, hbytes⟩ := @exists_program_of_ofLines_eq_nil .nmos { origin := 0x0600 }
    ["start: LDX #$05"] (by decide +kernel)
  obtain ⟨q, hq, -⟩ := @exists_program_of_ofLines_eq_nil .nmos { origin := 0x0602 }
    ["loop: DEX", "BNE *-3"] (by decide +kernel)
  have hend : p.endAddress = (0x0602 : UInt16).toNat := by
    obtain ⟨statements, -, -, himage⟩ := exists_image_of_assembleLines_eq_ok hp
    rw [Program.endAddress, himage.origin_eq, hbytes]
    decide +kernel
  obtain ⟨happend, hfollowed⟩ := (assembleLines_append .nmos 0x0600 none ["start: LDX #$05"]
    ["loop: DEX", "BNE *-3"]).1 p 0x0602 hp hend
  obtain ⟨whole, hwhole⟩ := happend.mpr
    ⟨⟨q, hq⟩, List.disjoint_left.mpr (by decide +kernel)⟩
  exact ⟨p, q, whole, hp, hend, hq, hwhole, hfollowed q whole hq hwhole⟩

end Mos6502
