import Mos6502.Proofs.LineTable

/-! # Entries in Any Order

    A line table is filled entry by entry and indexed when all of them are there
    (`LineTable.ofEntries`). What it answers afterwards does not depend on the
    order in which the entries have come: if no two of them have a common
    address, an address is looked up among the entries as in a set, and if no
    two of them have the same line, so is a line (`LineTable.Holds`). Indexing
    a table that is indexed already leaves it as it is, whatever its entries are
    (`LineTable.index_index`).
-/

namespace Mos6502

theorem StableSort.mergeSort_mergeSort {α : Type} {key : α → Nat} (l : List α) :
    (l.mergeSort (byKey key)).mergeSort (byKey key) = l.mergeSort (byKey key) := by
  apply mergeSort_eq_of_filter_eq (pairwise_mergeSort_byKey l)
  intro k
  rfl

namespace LineTable

/-! ### Filling a table -/

/-- The table with some entries added, one after the other. -/
def addAll (table : LineTable) (entries : List (AddressRange × Location)) : LineTable :=
  entries.foldl (fun table entry => table.add entry.1 entry.2) table

/-- The indexed table of some entries. -/
def ofEntries (entries : List (AddressRange × Location)) : LineTable :=
  (empty.addAll entries).index

theorem addAll_eq (table : LineTable) (entries : List (AddressRange × Location)) :
    table.addAll entries =
      { byAddress := table.byAddress ++ entries
        byLine := table.byLine ++ entries.map fun entry => (entry.2.line, entry.1) } := by
  induction entries generalizing table with
  | nil => simp [addAll]
  | cons entry rest ih =>
    have hstep : table.addAll (entry :: rest) = (table.add entry.1 entry.2).addAll rest := rfl
    rw [hstep, ih]
    simp [add, List.append_assoc]

theorem byAddress_addAll_empty (entries : List (AddressRange × Location)) :
    (empty.addAll entries).byAddress = entries := by
  rw [addAll_eq]
  exact List.nil_append entries

theorem byLine_addAll_empty (entries : List (AddressRange × Location)) :
    (empty.addAll entries).byLine = entries.map fun entry => (entry.2.line, entry.1) := by
  rw [addAll_eq]
  exact List.nil_append _

theorem lines_addAll_empty (entries : List (AddressRange × Location)) :
    (empty.addAll entries).byLine.map Prod.fst = entries.map fun entry => entry.2.line := by
  rw [byLine_addAll_empty, List.map_map]
  rfl

/-- **Indexing is done once**: another time it changes nothing. -/
theorem index_index (table : LineTable) : table.index.index = table.index := by
  have haddress : table.index.index.byAddress = table.index.byAddress := by
    rw [byAddress_index, byAddress_index, StableSort.mergeSort_mergeSort]
  have hline : table.index.index.byLine = table.index.byLine := by
    show (table.byLine.mergeSort (StableSort.byKey Prod.fst)).mergeSort
      (StableSort.byKey Prod.fst) = table.byLine.mergeSort (StableSort.byKey Prod.fst)
    exact StableSort.mergeSort_mergeSort table.byLine
  calc table.index.index
      = ⟨table.index.index.byAddress, table.index.index.byLine⟩ := rfl
    _ = ⟨table.index.byAddress, table.index.byLine⟩ := by rw [haddress, hline]

/-! ### Asking it -/

/-- **A table holds entries** if it gives them for every address and every
    line, and nothing else. -/
structure Holds (entries : List (AddressRange × Location)) (table : LineTable) : Prop where
  /-- An address has the location of an entry that covers it. -/
  location?_eq_some_iff : ∀ address location, table.location? address = some location ↔
    ∃ range, (range, location) ∈ entries ∧ range.contains address = true
  /-- A line has the range of an entry for it, if no two entries share a line. -/
  range?_eq_some_iff : (entries.map fun entry => entry.2.line).Nodup →
    ∀ line range, table.range? line = some range ↔
      ∃ location, (range, location) ∈ entries ∧ location.line = line

variable {entries others : List (AddressRange × Location)}

theorem holds_ofEntries (h : Separated entries) : (ofEntries entries).Holds entries where
  location?_eq_some_iff := by
    intro address location
    have hseparated : Separated (empty.addAll entries).byAddress := by
      rwa [byAddress_addAll_empty]
    rw [ofEntries, location?_index_eq_some_iff hseparated, byAddress_addAll_empty]
  range?_eq_some_iff := by
    intro hlines line range
    have hnodup : ((empty.addAll entries).byLine.map Prod.fst).Nodup := by
      rwa [lines_addAll_empty]
    rw [ofEntries, range?_index_eq_some_iff hnodup, byLine_addAll_empty, List.mem_map]
    constructor
    · intro hfound
      obtain ⟨⟨own, location⟩, hmem, heq⟩ := hfound
      obtain ⟨hline, rfl⟩ := Prod.mk.inj heq
      exact ⟨location, hmem, hline⟩
    · intro hfound
      obtain ⟨location, hmem, hline⟩ := hfound
      exact ⟨(range, location), hmem, by rw [hline]⟩

theorem Holds.perm {table : LineTable} (h : table.Holds entries) (hperm : entries.Perm others) :
    table.Holds others where
  location?_eq_some_iff := by
    intro address location
    simp only [h.location?_eq_some_iff, hperm.mem_iff]
  range?_eq_some_iff := by
    intro hlines line range
    simp only [h.range?_eq_some_iff ((hperm.map _).nodup_iff.mpr hlines), hperm.mem_iff]

/-- Two tables that hold the same entries answer alike. -/
theorem Holds.location?_eq {table other : LineTable} (h : table.Holds entries)
    (hother : other.Holds entries) (address : UInt16) :
    table.location? address = other.location? address := by
  apply Option.ext
  intro location
  rw [h.location?_eq_some_iff, hother.location?_eq_some_iff]

theorem Holds.range?_eq {table other : LineTable} (h : table.Holds entries)
    (hother : other.Holds entries) (hlines : (entries.map fun entry => entry.2.line).Nodup)
    (line : Nat) : table.range? line = other.range? line := by
  apply Option.ext
  intro range
  rw [h.range?_eq_some_iff hlines, hother.range?_eq_some_iff hlines]

/-- **A line table is a set of entries.** Filled with ranges that are not empty
    and have no common address, it gives for an address the location of the
    entry that covers it, and for a line, if no line comes twice, the range of
    the entry for it. The order in which the entries are added does not matter,
    and a table may be indexed again at any time. -/
theorem holds_in_any_order (entries : List (AddressRange × Location)) (h : Separated entries) :
    (ofEntries entries).Holds entries ∧
    (∀ others, entries.Perm others →
      (∀ address, (ofEntries others).location? address = (ofEntries entries).location? address) ∧
      ((entries.map fun entry => entry.2.line).Nodup →
        ∀ line, (ofEntries others).range? line = (ofEntries entries).range? line)) ∧
    ∀ table : LineTable, table.index.index = table.index := by
  have hholds := holds_ofEntries h
  refine ⟨hholds, ?_, index_index⟩
  intro others hperm
  -- what the other table holds are the same entries
  have hothers : (ofEntries others).Holds entries := (holds_ofEntries (h.perm hperm)).perm hperm.symm
  constructor
  · intro address
    exact hothers.location?_eq hholds address
  · intro hlines line
    exact hothers.range?_eq hholds hlines line

/-- Three entries from the last one to the first, with a gap between them, the
    last of which ends with the address space. -/
theorem holds_in_any_order_descending :
    let entries : List (AddressRange × Location) :=
      [(⟨0xFFFE, 0x10000⟩, ⟨3, 0⟩), (⟨0x8002, 0x8005⟩, ⟨2, 4⟩), (⟨0x8000, 0x8002⟩, ⟨1, 4⟩)]
    Separated entries ∧ (entries.map fun entry => entry.2.line).Nodup ∧
      (ofEntries entries).location? 0xFFFF = some ⟨3, 0⟩ ∧
      (ofEntries entries).location? 0x8005 = none ∧
      (ofEntries entries).range? 2 = some ⟨0x8002, 0x8005⟩ ∧
      (ofEntries entries.reverse).location? 0x8001 = some ⟨1, 4⟩ ∧
      (ofEntries entries).index = ofEntries entries := by
  intro entries
  have hseparated : Separated entries := by
    refine ⟨by decide, ?_⟩
    have hfirst : ∀ entry ∈ entries.tail, (⟨0xFFFE, 0x10000⟩ : AddressRange).Disjoint entry.1 := by
      intro entry hentry
      apply (AddressRange.disjoint_of_stop_le _).symm
      revert entry
      decide
    have hsecond : (⟨0x8002, 0x8005⟩ : AddressRange).Disjoint ⟨0x8000, 0x8002⟩ :=
      (AddressRange.disjoint_of_stop_le (by decide)).symm
    refine .cons hfirst (.cons ?_ (List.pairwise_singleton _ _))
    simpa using hsecond
  have hlines : (entries.map fun entry => entry.2.line).Nodup := by decide
  obtain ⟨hholds, hperm, hagain⟩ := holds_in_any_order entries hseparated
  refine ⟨hseparated, hlines, ?_, ?_, ?_, ?_, hagain _⟩
  · exact (hholds.location?_eq_some_iff _ _).mpr ⟨⟨0xFFFE, 0x10000⟩, by simp [entries], by decide⟩
  · rw [Option.eq_none_iff_forall_ne_some]
    intro location hsome
    obtain ⟨range, hmem, hcontains⟩ := (hholds.location?_eq_some_iff _ _).mp hsome
    have hnone : ∀ entry ∈ entries, entry.1.contains 0x8005 = false := by decide
    rw [hnone _ hmem] at hcontains
    exact Bool.false_ne_true hcontains
  · exact (hholds.range?_eq_some_iff hlines _ _).mpr ⟨⟨2, 4⟩, by simp [entries], rfl⟩
  · rw [(hperm _ entries.reverse_perm.symm).1]
    exact (hholds.location?_eq_some_iff _ _).mpr ⟨⟨0x8000, 0x8002⟩, by simp [entries], by decide⟩

end LineTable

end Mos6502
