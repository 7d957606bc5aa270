import Mos6502.Proofs.Contiguity
import Mos6502.Proofs.StableSort

/-! # Tracing Bytes to Lines

    A line table is asked in two directions. From an address it gives the entry
    that starts last at the address or before it, if the entry reaches so far;
    from a line it gives the entry with the number of the line.

    Both are found by bisection, which indexing prepares by sorting the entries.
    If no two ranges have a common address, an entry that covers an address is
    the one that starts last (`location?_index_eq_some_iff`), and if no two
    entries have the same line, the one that is found is the only one
    (`range?_index_eq_some_iff`). The instructions of a program lie one behind
    the other and on ascending lines, so its line table has both properties: it
    answers for every byte of the code and for every line with an instruction
    (`Program.Traced`).
-/

namespace Mos6502

/-! ### Ranges -/

namespace AddressRange

theorem contains_iff {range : AddressRange} {address : UInt16} :
    range.contains address = true ↔
      range.start.toNat ≤ address.toNat ∧ address.toNat < range.stop := by
  simp [contains, UInt16.le_iff_toNat_le]

/-- Two ranges have no common address. -/
def Disjoint (a b : AddressRange) : Prop :=
  ∀ address, ¬ (a.contains address = true ∧ b.contains address = true)

theorem Disjoint.symm {a b : AddressRange} (h : a.Disjoint b) : b.Disjoint a := by
  intro address hboth
  exact h address hboth.symm

theorem disjoint_of_stop_le {a b : AddressRange} (h : a.stop ≤ b.start.toNat) :
    a.Disjoint b := by
  intro address hboth
  have ha := contains_iff.mp hboth.1
  have hb := contains_iff.mp hboth.2
  omega

end AddressRange

namespace LineTable

/-! ### From addresses to lines -/

/-- The start of the range of an entry, by which the entries are sorted. -/
def startOf (entry : AddressRange × Location) : Nat := entry.1.start.toNat

/-- No entry is empty, and no two entries have a common address. -/
structure Separated (entries : List (AddressRange × Location)) : Prop where
  /-- Every range holds at least its first address. -/
  nonempty : ∀ entry ∈ entries, startOf entry < entry.1.stop
  /-- Ranges have no address in common. -/
  disjoint : entries.Pairwise fun a b => a.1.Disjoint b.1

namespace Separated

variable {entries others : List (AddressRange × Location)}

theorem perm (h : Separated entries) (hperm : entries.Perm others) : Separated others where
  nonempty := by
    intro entry hentry
    exact h.nonempty entry (hperm.mem_iff.mpr hentry)
  disjoint := (hperm.pairwise_iff fun hab => hab.symm).mp h.disjoint

theorem sublist (h : Separated entries) (hsub : others.Sublist entries) : Separated others where
  nonempty := by
    intro entry hentry
    exact h.nonempty entry (hsub.mem hentry)
  disjoint := h.disjoint.sublist hsub

/-- If all entries start at an address or before it, the one that covers the
    address is the last. -/
theorem getLast?_eq_some (h : Separated entries)
    (hsorted : entries.Pairwise fun a b => startOf a ≤ startOf b) {address : UInt16}
    (hbefore : ∀ entry ∈ entries, startOf entry ≤ address.toNat)
    {entry : AddressRange × Location} (hentry : entry ∈ entries)
    (hcontains : entry.1.contains address = true) : entries.getLast? = some entry := by
  have hne : entries ≠ [] := List.ne_nil_of_mem hentry
  obtain ⟨last, hlast⟩ := Option.ne_none_iff_exists'.mp (mt List.getLast?_eq_none_iff.mp hne)
  obtain ⟨init, hinit⟩ := List.getLast?_eq_some_iff.mp hlast
  rw [hlast, Option.some.injEq]
  rw [hinit] at hentry
  rcases List.mem_append.mp hentry with hentry | hentry
  · -- an entry before the last one would hold the first address of the last one
    exfalso
    have hmem : last ∈ entries := by simp [hinit]
    have hle := hbefore last hmem
    have hself := h.nonempty last hmem
    have hdisjoint := h.disjoint
    rw [hinit] at hsorted hdisjoint
    have hstart := (List.pairwise_append.mp hsorted).2.2 entry hentry last (by simp)
    have hreach := (AddressRange.contains_iff.mp hcontains).2
    apply (List.pairwise_append.mp hdisjoint).2.2 entry hentry last (by simp) last.1.start
    constructor
    · exact AddressRange.contains_iff.mpr ⟨hstart, Nat.lt_of_le_of_lt hle hreach⟩
    · exact AddressRange.contains_iff.mpr ⟨Nat.le_refl _, hself⟩
  · exact (List.mem_singleton.mp hentry).symm

end Separated

theorem byAddress_index (table : LineTable) :
    table.index.byAddress = table.byAddress.mergeSort (StableSort.byKey startOf) := by
  have horder : (fun a b : AddressRange × Location => decide (a.1.start ≤ b.1.start)) =
      StableSort.byKey startOf := by
    funext a b
    exact decide_eq_decide.mpr UInt16.le_iff_toNat_le
  rw [index, horder]

/-- The first addresses of an indexed table ascend, -/
theorem pairwise_byAddress_index (table : LineTable) :
    table.index.byAddress.Pairwise fun a b => startOf a ≤ startOf b := by
  rw [byAddress_index]
  exact StableSort.pairwise_mergeSort_byKey _

/-- and so do its lines. -/
theorem pairwise_byLine_index (table : LineTable) :
    table.index.byLine.Pairwise fun a b => a.1 ≤ b.1 :=
  StableSort.pairwise_mergeSort_byKey table.byLine

theorem getLast?_takeWhile {α : Type} (p : α → Bool) (l : List α) :
    (l.takeWhile p).getLast? =
      match (l.takeWhile p).length with
      | 0 => none
      | last + 1 => l[last]? := by
  obtain ⟨behind, hsplit⟩ := List.takeWhile_prefix p (l := l)
  rw [List.getLast?_eq_getElem?]
  cases hcount : (l.takeWhile p).length with
  | zero => simp [List.eq_nil_of_length_eq_zero hcount]
  | succ last =>
    have hlast : (l.takeWhile p ++ behind)[last]? = (l.takeWhile p)[last]? :=
      List.getElem?_append_left (by omega)
    rw [hsplit] at hlast
    exact hlast.symm

/-- The entry that is looked at for an address is the last one of those that
    start at the address or before it. -/
theorem location?_index (table : LineTable) (address : UInt16) :
    table.index.location? address =
      ((table.index.byAddress.filter fun entry => startOf entry ≤ address.toNat).getLast?.bind
        fun entry => if entry.1.contains address then some entry.2 else none) := by
  have hsorted := pairwise_byAddress_index table
  have hstart : (fun entry : AddressRange × Location => decide (entry.1.start ≤ address)) =
      fun entry => decide (startOf entry ≤ address.toNat) := by
    funext entry
    exact decide_eq_decide.mpr UInt16.le_iff_toNat_le
  have hfirst : table.index.byAddress.Pairwise fun a b =>
      decide (startOf b ≤ address.toNat) = true → decide (startOf a ≤ address.toNat) = true := by
    apply hsorted.imp
    intro a b hab hb
    simp only [decide_eq_true_eq] at hb ⊢
    omega
  rw [location?, hstart, Bisection.partitionPoint_eq hfirst,
    ← StableSort.takeWhile_eq_filter hsorted, getLast?_takeWhile]
  cases (table.index.byAddress.takeWhile _).length <;> rfl

/-- **From addresses to lines**: an indexed table of separated entries gives for
    an address the location of the entry that covers it. -/
theorem location?_index_eq_some_iff {table : LineTable} (h : Separated table.byAddress)
    {address : UInt16} {location : Location} :
    table.index.location? address = some location ↔
      ∃ range, (range, location) ∈ table.byAddress ∧ range.contains address = true := by
  have hperm : table.index.byAddress.Perm table.byAddress := List.mergeSort_perm _ _
  have hsorted := pairwise_byAddress_index table
  rw [location?_index]
  constructor
  · -- whatever is found covers the address
    intro hfound
    obtain ⟨⟨range, at_⟩, hlast, hcovers⟩ := Option.bind_eq_some_iff.mp hfound
    have hmem := (List.mem_filter.mp (List.mem_of_getLast? hlast)).1
    split at hcovers
    · next hcontains =>
      obtain rfl := Option.some.inj hcovers
      exact ⟨range, hperm.mem_iff.mp hmem, hcontains⟩
    · simp at hcovers
  · rintro ⟨range, hmem, hcontains⟩
    have hstart := (AddressRange.contains_iff.mp hcontains).1
    have hsub : (table.index.byAddress.filter fun entry => startOf entry ≤ address.toNat).Sublist
        table.index.byAddress := List.filter_sublist
    have hlast : (table.index.byAddress.filter fun entry =>
        startOf entry ≤ address.toNat).getLast? = some (range, location) := by
      apply ((h.perm hperm.symm).sublist hsub).getLast?_eq_some (hsorted.sublist hsub) ?_ ?_
        hcontains
      · intro entry hentry
        exact of_decide_eq_true (List.mem_filter.mp hentry).2
      · exact List.mem_filter.mpr ⟨hperm.mem_iff.mpr hmem, decide_eq_true hstart⟩
    rw [hlast, Option.bind_some, if_pos hcontains]

/-! ### From lines to addresses -/

/-- **From lines to addresses**: an indexed table without two entries for one
    line gives for a line the range of its entry. -/
theorem range?_index_eq_some_iff {table : LineTable}
    (h : (table.byLine.map Prod.fst).Nodup) {line : Nat} {range : AddressRange} :
    table.index.range? line = some range ↔ (line, range) ∈ table.byLine := by
  have hperm : table.index.byLine.Perm table.byLine := List.mergeSort_perm _ _
  unfold range?
  cases hsearch : Bisection.search (fun entry => compare entry.1 line) table.index.byLine with
  | ok index =>
    -- what is found is an entry of the line, and there is only one
    obtain ⟨entry, hentry, hline⟩ := Bisection.exists_of_search_eq_ok hsearch
    have hmem := hperm.mem_iff.mp (List.mem_of_getElem? hentry)
    obtain rfl : entry.1 = line := Nat.compare_eq_eq.mp hline
    simp only [hentry, Option.map_some, Option.some.injEq]
    constructor
    · rintro rfl
      exact hmem
    · intro hother
      exact congrArg Prod.snd (List.inj_on_of_nodup_map h hmem hother rfl)
  | error index =>
    -- all entries are of lines before it or behind it
    have hordered : Bisection.Ordered (fun entry => compare entry.1 line) table.index.byLine := by
      apply (pairwise_byLine_index table).imp
      intro a b hab
      simp only [Nat.compare_eq_lt, Nat.compare_eq_gt]
      omega
    obtain ⟨before, behind, hsplit, -, hbefore, hbehind⟩ :=
      Bisection.split_of_search_eq_error hordered hsearch
    simp only [reduceCtorEq, false_iff]
    intro hmem
    rw [← hperm.mem_iff, hsplit, List.mem_append] at hmem
    rcases hmem with hmem | hmem
    · exact absurd (Nat.compare_eq_lt.mp (hbefore _ hmem)) (Nat.lt_irrefl line)
    · exact absurd (Nat.compare_eq_gt.mp (hbehind _ hmem)) (Nat.lt_irrefl line)

end LineTable

/-! ### Contiguous instructions -/

namespace Encoded

/-- The address is that of one of the bytes of the instruction. -/
def Covers (e : Encoded) (address : UInt16) : Prop :=
  e.address.toNat ≤ address.toNat ∧ address.toNat < e.endAddress

theorem covers_iff {e : Encoded} {address : UInt16} :
    e.Covers address ↔ (LineTable.rangeOf e).contains address = true := by
  rw [AddressRange.contains_iff]
  rfl

variable {address : Nat} {l : List Encoded}

/-- A later instruction begins where an earlier one has ended. -/
theorem Contiguous.pairwise_endAddress_le (h : Contiguous address l) :
    l.Pairwise fun e f => e.endAddress ≤ f.address.toNat := by
  induction l generalizing address with
  | nil => exact .nil
  | cons e rest ih =>
    obtain ⟨he, hrest⟩ := h
    refine List.pairwise_cons.mpr ⟨?_, ih hrest⟩
    intro f hf
    rw [endAddress, he]
    exact (hrest.slice hf).1

/-- Contiguous instructions cover the addresses from the first one to the last
    without a gap. -/
theorem Contiguous.exists_covers_iff (h : Contiguous address l) {a : UInt16} :
    (∃ e ∈ l, e.Covers a) ↔ address ≤ a.toNat ∧ a.toNat < address + (l.map size).sum := by
  induction l generalizing address with
  | nil =>
    simp only [List.not_mem_nil, false_and, exists_false, List.map_nil, List.sum_nil, false_iff]
    omega
  | cons e rest ih =>
    -- the address lies in the first instruction or behind it
    obtain ⟨he, hrest⟩ := h
    have hrest := ih hrest
    simp only [List.mem_cons, exists_eq_or_imp, List.map_cons, List.sum_cons]
    rw [hrest, Covers, endAddress, he]
    omega

end Encoded

/-! ### The line table of a program -/

theorem LineTable.location?_ofInstructions_eq_some_iff {address : Nat} {l : List Encoded}
    (h : Encoded.Contiguous address l) {a : UInt16} {location : Location} :
    (LineTable.ofInstructions l).location? a = some location ↔
      ∃ e ∈ l, e.Covers a ∧ location = locationOf e := by
  have hseparated : Separated (l.map fun e => (rangeOf e, locationOf e)) := by
    constructor
    · intro entry hentry
      obtain ⟨e, -, rfl⟩ := List.mem_map.mp hentry
      show e.address.toNat < e.endAddress
      unfold Encoded.endAddress Encoded.size
      omega
    · rw [List.pairwise_map]
      apply h.pairwise_endAddress_le.imp
      intro e f hef
      exact AddressRange.disjoint_of_stop_le hef
  rw [ofInstructions, location?_index_eq_some_iff hseparated]
  constructor
  · rintro ⟨range, hmem, hcontains⟩
    obtain ⟨e, he, heq⟩ := List.mem_map.mp hmem
    obtain ⟨rfl, rfl⟩ := Prod.mk.inj heq
    exact ⟨e, he, Encoded.covers_iff.mpr hcontains, rfl⟩
  · rintro ⟨e, he, hcovers, rfl⟩
    exact ⟨rangeOf e, List.mem_map.mpr ⟨e, he, rfl⟩, Encoded.covers_iff.mp hcovers⟩

theorem LineTable.range?_ofInstructions_eq_some_iff {l : List Encoded}
    (h : l.Pairwise fun e f => e.line < f.line) {line : Nat} {range : AddressRange} :
    (LineTable.ofInstructions l).range? line = some range ↔
      ∃ e ∈ l, e.line = line ∧ range = rangeOf e := by
  have hnodup : ((l.map fun e => (e.line, rangeOf e)).map Prod.fst).Nodup := by
    rw [List.map_map, List.Nodup, List.pairwise_map]
    exact h.imp fun hef => Nat.ne_of_lt hef
  rw [ofInstructions, range?_index_eq_some_iff hnodup, List.mem_map]
  constructor
  · rintro ⟨e, he, heq⟩
    obtain ⟨rfl, rfl⟩ := Prod.mk.inj heq
    exact ⟨e, he, rfl, rfl⟩
  · rintro ⟨e, he, rfl, rfl⟩
    exact ⟨e, he, rfl⟩

namespace Statement

/-- The instruction that a line of a source holds; lines are numbered from
    one. -/
def instructionAt (lines : List String) : Nat → Option Instruction
  | 0 => none
  | i + 1 => lines[i]?.bind (instructionOf (i + 1))

theorem mem_instructions_iff {lines : List String} {n : Nat} {instruction : Instruction} :
    (n, instruction) ∈ ((lines.zipIdx 1).filterMap fun (text, line) =>
        (instructionOf line text).map fun instruction => (line, instruction)) ↔
      instructionAt lines n = some instruction := by
  have hmem : (n, instruction) ∈ ((lines.zipIdx 1).filterMap fun (text, line) =>
        (instructionOf line text).map fun instruction => (line, instruction)) ↔
      ∃ text, (text, n) ∈ lines.zipIdx 1 ∧ instructionOf n text = some instruction := by
    rw [List.mem_filterMap]
    constructor
    · rintro ⟨⟨text, line⟩, htext, heq⟩
      obtain ⟨_, hread, heq⟩ := Option.map_eq_some_iff.mp heq
      obtain ⟨rfl, rfl⟩ := Prod.mk.inj heq
      exact ⟨text, htext, hread⟩
    · rintro ⟨text, htext, hread⟩
      exact ⟨(text, n), htext, Option.map_eq_some_iff.mpr ⟨instruction, hread, rfl⟩⟩
  rw [hmem]
  cases n with
  | zero => simp [instructionAt, List.mk_mem_zipIdx_iff_le_and_getElem?_sub]
  | succ i =>
    simp only [instructionAt, List.mk_mem_zipIdx_iff_le_and_getElem?_sub, Option.bind_eq_some_iff,
      Nat.add_sub_cancel]
    constructor
    · rintro ⟨text, ⟨-, htext⟩, hread⟩
      exact ⟨text, htext, hread⟩
    · rintro ⟨text, htext, hread⟩
      exact ⟨text, ⟨by omega, htext⟩, hread⟩

end Statement

namespace Program.IsImage

variable {table : InstructionSet} {origin : UInt16} {lines : List String}
  {statements : List Statement} {program : Program}

theorem contiguous (himage : program.IsImage table origin statements)
    (h : Statement.Admissible table origin.toNat statements) :
    Encoded.Contiguous program.origin.toNat program.instructions := by
  rw [himage.instructions_eq, himage.origin_eq]
  exact (Statement.contiguous_instructionsFrom h).1

theorem endAddress_eq (himage : program.IsImage table origin statements) :
    program.endAddress = program.origin.toNat + (program.instructions.map Encoded.size).sum := by
  rw [endAddress, himage.bytes_eq, Encoded.length_flatMap_bytes]

theorem pairwise_line (himage : program.IsImage table origin statements)
    (h : Statement.Admissible table origin.toNat statements)
    (hread : Statement.ReadAs 1 lines statements) :
    program.instructions.Pairwise fun e f => e.line < f.line := by
  rw [himage.instructions_eq]
  exact Statement.pairwise_line_instructionsFrom h hread.pairwise_line

theorem location?_eq_some_iff (himage : program.IsImage table origin statements)
    (h : Statement.Admissible table origin.toNat statements) {a : UInt16} {location : Location} :
    program.location? a = some location ↔
      ∃ e ∈ program.instructions, e.Covers a ∧ location = LineTable.locationOf e := by
  rw [Program.location?, himage.lineTable_eq]
  exact LineTable.location?_ofInstructions_eq_some_iff (himage.contiguous h)

theorem range?_eq_some_iff (himage : program.IsImage table origin statements)
    (h : Statement.Admissible table origin.toNat statements)
    (hread : Statement.ReadAs 1 lines statements) {n : Nat} {range : AddressRange} :
    program.range? n = some range ↔
      ∃ e ∈ program.instructions, e.line = n ∧ range = LineTable.rangeOf e := by
  rw [Program.range?, himage.lineTable_eq]
  exact LineTable.range?_ofInstructions_eq_some_iff (himage.pairwise_line h hread)

/-- The instruction on a line is the one that the line reads as. -/
theorem instructionAt_eq_some_iff (himage : program.IsImage table origin statements)
    (h : Statement.Admissible table origin.toNat statements)
    (hread : Statement.ReadAs 1 lines statements) {n : Nat} {instruction : Instruction} :
    Statement.instructionAt lines n = some instruction ↔
      ∃ e ∈ program.instructions, e.line = n ∧
        Instruction.mk e.mnemonic e.operand e.column = instruction := by
  rw [← Statement.mem_instructions_iff, ← Statement.map_instructionsFrom hread h,
    ← himage.instructions_eq, List.mem_map]
  simp only [Prod.mk.injEq]

/-- Two instructions that cover one address are the same: they have its
    location, and so one line. -/
theorem eq_of_covers (himage : program.IsImage table origin statements)
    (h : Statement.Admissible table origin.toNat statements)
    (hread : Statement.ReadAs 1 lines statements) {a : UInt16} {e f : Encoded}
    (he : e ∈ program.instructions) (hf : f ∈ program.instructions)
    (hea : e.Covers a) (hfa : f.Covers a) : f = e := by
  have hlocation : LineTable.locationOf f = LineTable.locationOf e :=
    Option.some.inj (((himage.location?_eq_some_iff h).mpr ⟨f, hf, hfa, rfl⟩).symm.trans
      ((himage.location?_eq_some_iff h).mpr ⟨e, he, hea, rfl⟩))
  have hnodup : (program.instructions.map Encoded.line).Nodup := by
    rw [List.Nodup, List.pairwise_map]
    exact (himage.pairwise_line h hread).imp Nat.ne_of_lt
  exact List.inj_on_of_nodup_map hnodup hf he (congrArg Location.line hlocation)

end Program.IsImage

/-- **The line table of a program** that has been assembled from some lines. -/
structure Program.Traced (lines : List String) (program : Program) : Prop where
  /-- An address has a location exactly if it is that of a byte of the code. -/
  location_isSome_iff : ∀ a : UInt16, (program.location? a).isSome ↔
    program.origin.toNat ≤ a.toNat ∧ a.toNat < program.endAddress
  /-- The location is the place of the only instruction that covers the
      address. -/
  location_eq : ∀ a location, program.location? a = some location →
    ∃ e ∈ program.instructions, e.Covers a ∧ location = ⟨e.line, e.column⟩ ∧
      ∀ f ∈ program.instructions, f.Covers a → f = e
  /-- A line has a range exactly if it holds an instruction. -/
  range_isSome_iff : ∀ n, (program.range? n).isSome ↔
    (Statement.instructionAt lines n).isSome
  /-- The range is that of the instruction. -/
  range_eq : ∀ n range, program.range? n = some range →
    ∃ e ∈ program.instructions, e.line = n ∧
      Statement.instructionAt lines n = some ⟨e.mnemonic, e.operand, e.column⟩ ∧
      range = ⟨e.address, e.endAddress⟩
  /-- The range of the line that an address comes from holds the address, -/
  range_of_location : ∀ a location, program.location? a = some location →
    ∃ range, program.range? location.line = some range ∧ range.contains a = true
  /-- and every address in the range of a line comes from the line. -/
  location_of_range : ∀ n range a, program.range? n = some range →
    range.contains a = true →
    ∃ location, program.location? a = some location ∧ location.line = n

/-- **Every byte of a program is traced to its line, and every line to its
    bytes**, up to a byte at the end of the address space. -/
theorem traced_of_assembleLines_eq_ok (table : InstructionSet) (options : Options)
    (lines : List String) (program : Program)
    (h : assembleLines table options lines = .ok program) : program.Traced lines := by
  obtain ⟨statements, hread, hadmissible, himage⟩ := exists_image_of_assembleLines_eq_ok h
  have hlocation := @Program.IsImage.location?_eq_some_iff _ _ _ _ himage hadmissible
  have hrange := @Program.IsImage.range?_eq_some_iff _ _ _ _ _ himage hadmissible hread
  have hline := @Program.IsImage.instructionAt_eq_some_iff _ _ _ _ _ himage hadmissible hread
  exact
    { location_isSome_iff := by
        intro a
        rw [himage.endAddress_eq, ← (himage.contiguous hadmissible).exists_covers_iff,
          Option.isSome_iff_exists]
        constructor
        · rintro ⟨location, hsome⟩
          obtain ⟨e, he, hcovers, -⟩ := hlocation.mp hsome
          exact ⟨e, he, hcovers⟩
        · rintro ⟨e, he, hcovers⟩
          exact ⟨_, hlocation.mpr ⟨e, he, hcovers, rfl⟩⟩
      location_eq := by
        intro a location hsome
        obtain ⟨e, he, hcovers, rfl⟩ := hlocation.mp hsome
        refine ⟨e, he, hcovers, rfl, ?_⟩
        intro f hf hfa
        exact himage.eq_of_covers hadmissible hread he hf hcovers hfa
      range_isSome_iff := by
        intro n
        rw [Option.isSome_iff_exists, Option.isSome_iff_exists]
        constructor
        · rintro ⟨range, hsome⟩
          obtain ⟨e, he, hn, -⟩ := hrange.mp hsome
          exact ⟨_, hline.mpr ⟨e, he, hn, rfl⟩⟩
        · rintro ⟨instruction, hsome⟩
          obtain ⟨e, he, hn, -⟩ := hline.mp hsome
          exact ⟨_, hrange.mpr ⟨e, he, hn, rfl⟩⟩
      range_eq := by
        intro n range hsome
        obtain ⟨e, he, hn, rfl⟩ := hrange.mp hsome
        exact ⟨e, he, hn, hline.mpr ⟨e, he, hn, rfl⟩, rfl⟩
      range_of_location := by
        intro a location hsome
        obtain ⟨e, he, hcovers, rfl⟩ := hlocation.mp hsome
        exact ⟨_, hrange.mpr ⟨e, he, rfl, rfl⟩, Encoded.covers_iff.mp hcovers⟩
      location_of_range := by
        intro n range a hsome hcontains
        obtain ⟨e, he, hn, rfl⟩ := hrange.mp hsome
        exact ⟨_, hlocation.mpr ⟨e, he, Encoded.covers_iff.mpr hcontains, rfl⟩, hn⟩ }

/-- Two instructions with a blank line between them, the second of which ends
    with the address space. -/
theorem traced_at_end_of_address_space :
    ∃ program, assembleLines .nmos { origin := 0xFFFB } ["LDA #$01", "", "  STA $0200"] =
        .ok program ∧
      program.Traced ["LDA #$01", "", "  STA $0200"] := by
  obtain ⟨program, h, -⟩ := @exists_program_of_ofLines_eq_nil .nmos { origin := 0xFFFB }
    ["LDA #$01", "", "  STA $0200"] (by decide +kernel)
  exact ⟨program, h, traced_of_assembleLines_eq_ok .nmos _ _ program h⟩

end Mos6502
