import Mathlib.Data.Finset.Card
import Mathlib.Data.Finset.Dedup
import Mos6502.Opcode.Table
import Mos6502.Proofs.StableSort

/-! # What an Opcode Table Remembers

    An opcode table comes about by insertions, one row after the other, and a
    later row replaces an earlier one with the same key: the mnemonic in
    whatever letter case, and the mode. `OpcodeTable.Remembers` says what the
    table answers in terms of the insertions alone. An opcode is that of the
    last insertion with the key; a mnemonic is known once it has been inserted
    in any mode; and there are as many rows as there are different keys.

    Two insertions next to each other may change places if their keys are
    different, and so may, in the end, all insertions if no two of them have the
    same key (`reordered_of_perm`). No answer of the table notices
    (`Reordered.answersAlike`), and neither do the answers that the insertions
    themselves give (`Reordered.perm_replacements`).
-/

namespace Mos6502.OpcodeTable

open Text

/-! ### Look-ups -/

section Lookup

variable {table : OpcodeTable} {mnemonic other : String} {mode : Mode} {opcode : Opcode}

theorem get?_congr (h : upper mnemonic = upper other) :
    table.get? mnemonic mode = table.get? other mode := by
  rw [get?, get?, h]

theorem lookup_eq_ok_iff :
    table.lookup mnemonic mode = .ok opcode ↔ table.get? mnemonic mode = some opcode := by
  rcases lookup_cases table mnemonic mode with
    ⟨found, hget, -, hlookup⟩ | ⟨hget, -, hlookup⟩ | ⟨hget, -, hlookup⟩
  all_goals simp [hget, hlookup]

theorem lookup_eq_unsupportedMode_iff :
    table.lookup mnemonic mode = .error (.unsupportedMode mnemonic mode) ↔
      table.get? mnemonic mode = none ∧ table.contains mnemonic = true := by
  rcases lookup_cases table mnemonic mode with
    ⟨found, hget, hknown, hlookup⟩ | ⟨hget, hknown, hlookup⟩ | ⟨hget, hknown, hlookup⟩
  all_goals simp [hget, hknown, hlookup]

theorem lookup_eq_unknownMnemonic_iff :
    table.lookup mnemonic mode = .error (.unknownMnemonic mnemonic) ↔
      table.get? mnemonic mode = none ∧ table.contains mnemonic = false := by
  rcases lookup_cases table mnemonic mode with
    ⟨found, hget, hknown, hlookup⟩ | ⟨hget, hknown, hlookup⟩ | ⟨hget, hknown, hlookup⟩
  all_goals simp [hget, hknown, hlookup]

theorem toOption_lookup : (table.lookup mnemonic mode).toOption = table.get? mnemonic mode := by
  rcases lookup_cases table mnemonic mode with
    ⟨found, hget, -, hlookup⟩ | ⟨hget, -, hlookup⟩ | ⟨hget, -, hlookup⟩
  all_goals simp [hget, hlookup, Except.toOption]

theorem mem_modes_iff : mode ∈ table.modes mnemonic ↔ (table.get? mnemonic mode).isSome = true := by
  rw [modes, List.mem_mergeSort, get?]
  cases table.byMnemonic.get? (upper mnemonic) with
  | none => simp
  | some opcodes => exact FiniteMap.isSome_get?_iff.symm

theorem nodup_modes (table : OpcodeTable) (mnemonic : String) :
    (table.modes mnemonic).Nodup := by
  refine (List.mergeSort_perm _ _).nodup_iff.mpr ?_
  cases table.byMnemonic.get? (upper mnemonic) with
  | none => exact .nil
  | some opcodes => exact opcodes.distinct

theorem modes_eq_filter (table : OpcodeTable) (mnemonic : String) :
    table.modes mnemonic = Mode.all.filter fun mode => (table.get? mnemonic mode).isSome := by
  -- modes are in the order of their numbers
  have horder : (fun a b : Mode => (compare a b).isLE) = StableSort.byKey Mode.ctorIdx := by
    funext a b
    rw [Bool.eq_iff_iff, StableSort.byKey, decide_eq_true_iff]
    exact Nat.isLE_compare
  have hsorted : (table.modes mnemonic).Pairwise fun a b => a.ctorIdx ≤ b.ctorIdx := by
    rw [modes, horder]
    exact StableSort.pairwise_mergeSort_byKey _
  have hall : Mode.all.Pairwise fun a b => a.ctorIdx < b.ctorIdx :=
    Mode.pairwise_all.imp Nat.compare_eq_lt.mp
  have hperm : (table.modes mnemonic).Perm
      (Mode.all.filter fun mode => (table.get? mnemonic mode).isSome) := by
    have hnodup : Mode.all.Nodup := hall.imp fun hlt heq => Nat.ne_of_lt hlt (congrArg _ heq)
    rw [List.perm_ext_iff_of_nodup (nodup_modes table mnemonic) (hnodup.filter _)]
    intro mode
    simp [mem_modes_iff, Mode.mem_all]
  refine hperm.eq_of_pairwise ?_ hsorted ((hall.imp Nat.le_of_lt).filter _)
  intro a b _ _ hab hba
  rw [← Mode.ofNat_ctorIdx a, Nat.le_antisymm hab hba, Mode.ofNat_ctorIdx]

theorem pairwise_modes (table : OpcodeTable) (mnemonic : String) :
    (table.modes mnemonic).Pairwise fun a b => compare a b = .lt := by
  rw [modes_eq_filter]
  exact Mode.pairwise_all.filter _

end Lookup

/-! ### Insertions one after the other -/

/-- What a row is inserted under: its mnemonic, whatever the letter case, and
    its mode. -/
def Row.key (row : Row) : String × Mode := (upper row.mnemonic, row.mode)

/-- Is the row inserted under this mnemonic and this mode? -/
def Row.isOf (mnemonic : String) (mode : Mode) (row : Row) : Bool :=
  row.key = (upper mnemonic, mode)

theorem Row.isOf_iff {mnemonic : String} {mode : Mode} {row : Row} :
    row.isOf mnemonic mode = true ↔ upper row.mnemonic = upper mnemonic ∧ row.mode = mode := by
  simp [isOf, key]

/-- The table after some more insertions. -/
def insertAll (table : OpcodeTable) (rows : List Row) : OpcodeTable :=
  rows.foldl (fun table row => table.insert row.mnemonic row.mode row.opcode) table

@[simp] theorem insertAll_nil (table : OpcodeTable) : table.insertAll [] = table := rfl

theorem insertAll_append (table : OpcodeTable) (rows others : List Row) :
    table.insertAll (rows ++ others) = (table.insertAll rows).insertAll others :=
  List.foldl_append

theorem insertAll_concat (table : OpcodeTable) (rows : List Row) (row : Row) :
    table.insertAll (rows ++ [row]) =
      (table.insertAll rows).insert row.mnemonic row.mode row.opcode := by
  rw [insertAll_append]
  rfl

/-- **Step**: an insertion gives its key a new opcode and no other key. -/
theorem get?_insert_row (table : OpcodeTable) (row : Row) (mnemonic : String) (mode : Mode) :
    (table.insert row.mnemonic row.mode row.opcode).get? mnemonic mode =
      if row.isOf mnemonic mode then some row.opcode else table.get? mnemonic mode := by
  rw [get?_insert]
  simp only [Row.isOf_iff]

/-- **Run**: the last insertion of a key counts, and without one the table is as
    before. -/
theorem get?_insertAll (table : OpcodeTable) (rows : List Row) (mnemonic : String) (mode : Mode) :
    (table.insertAll rows).get? mnemonic mode =
      ((rows.filter (Row.isOf mnemonic mode)).getLast?.map Row.opcode).or
        (table.get? mnemonic mode) := by
  induction rows using List.reverseRecOn with
  | nil => rfl
  | append_singleton rows row ih =>
    rw [insertAll_concat, get?_insert_row, List.filter_append, ih]
    by_cases hkey : row.isOf mnemonic mode = true
    · have hlast : [row].filter (Row.isOf mnemonic mode) = [row] := by simp [hkey]
      rw [if_pos hkey, hlast, List.getLast?_concat]
      rfl
    · have hlast : [row].filter (Row.isOf mnemonic mode) = [] := by simp [hkey]
      rw [if_neg hkey, hlast, List.append_nil]

theorem contains_insertAll (table : OpcodeTable) (rows : List Row) (mnemonic : String) :
    (table.insertAll rows).contains mnemonic = true ↔
      (∃ row ∈ rows, upper row.mnemonic = upper mnemonic) ∨ table.contains mnemonic = true := by
  induction rows using List.reverseRecOn with
  | nil => simp
  | append_singleton rows row ih =>
    rw [insertAll_concat, contains_insert, ih]
    simp only [List.mem_append, List.mem_singleton, or_and_right, exists_or, exists_eq_left]
    rw [← or_assoc, or_comm (a := upper row.mnemonic = upper mnemonic)]

/-! ### The insertions into a new table -/

theorem isSome_get?_ofRows (history : List Row) (mnemonic : String) (mode : Mode) :
    ((ofRows history).get? mnemonic mode).isSome = true ↔
      (upper mnemonic, mode) ∈ history.map Row.key := by
  show ((empty.insertAll history).get? mnemonic mode).isSome = true ↔ _
  rw [get?_insertAll, get?_empty, Option.or_none, Option.isSome_map, List.getLast?_isSome,
    List.mem_map, ne_eq, List.filter_eq_nil_iff]
  simp [Row.isOf]

/-- There are as many rows as different keys. -/
theorem size_ofRows (history : List Row) :
    (ofRows history).size = (history.map Row.key).toFinset.card := by
  induction history using List.reverseRecOn with
  | nil => rfl
  | append_singleton history row ih =>
    have hkeys : ((history ++ [row]).map Row.key).toFinset =
        Insert.insert row.key (history.map Row.key).toFinset := by
      ext key
      simp
    have hsize : (ofRows (history ++ [row])).size = (ofRows history).size +
        if ((ofRows history).get? row.mnemonic row.mode).isSome then 0 else 1 := by
      show (empty.insertAll (history ++ [row])).size = _
      rw [insertAll_concat, size_insert]
      rfl
    rw [hkeys, hsize, ih]
    -- the key counts unless it has been inserted before
    by_cases hold : row.key ∈ history.map Row.key
    · rw [if_pos ((isSome_get?_ofRows history _ _).mpr hold),
        Finset.insert_eq_of_mem (List.mem_toFinset.mpr hold), Nat.add_zero]
    · rw [if_neg (mt (isSome_get?_ofRows history _ _).mp hold),
        Finset.card_insert_of_notMem (mt List.mem_toFinset.mp hold)]

/-- **What a table remembers of the insertions that it has come about by.** -/
structure Remembers (table : OpcodeTable) (history : List Row) : Prop where
  /-- A mnemonic has the opcode in a mode that has been inserted last. -/
  lookup_eq_ok_iff : ∀ mnemonic mode opcode, table.lookup mnemonic mode = .ok opcode ↔
    (history.filter (Row.isOf mnemonic mode)).getLast?.map Row.opcode = some opcode
  /-- It does not support a mode if it has been inserted, but never in this
      mode. -/
  lookup_eq_unsupportedMode_iff : ∀ mnemonic mode,
    table.lookup mnemonic mode = .error (.unsupportedMode mnemonic mode) ↔
      (∃ row ∈ history, upper row.mnemonic = upper mnemonic) ∧
        ∀ row ∈ history, row.isOf mnemonic mode = false
  /-- It is unknown if it has never been inserted, -/
  lookup_eq_unknownMnemonic_iff : ∀ mnemonic mode,
    table.lookup mnemonic mode = .error (.unknownMnemonic mnemonic) ↔
      ∀ row ∈ history, upper row.mnemonic ≠ upper mnemonic
  /-- and only then it is not in the table. -/
  contains_eq_false_iff : ∀ mnemonic, table.contains mnemonic = false ↔
    ∀ row ∈ history, upper row.mnemonic ≠ upper mnemonic
  /-- There are as many rows as different keys. -/
  size_eq : table.size = (history.map Row.key).toFinset.card
  /-- The modes of a mnemonic ascend. -/
  pairwise_modes : ∀ mnemonic, (table.modes mnemonic).Pairwise fun a b => compare a b = .lt
  /-- They are those in which it is looked up with success. -/
  mem_modes_iff : ∀ mnemonic mode,
    mode ∈ table.modes mnemonic ↔ ∃ opcode, table.lookup mnemonic mode = .ok opcode

/-- A table remembers its insertions. -/
theorem remembers_ofRows (history : List Row) : (ofRows history).Remembers history := by
  have hget : ∀ mnemonic mode, (ofRows history).get? mnemonic mode =
      (history.filter (Row.isOf mnemonic mode)).getLast?.map Row.opcode := by
    intro mnemonic mode
    show (empty.insertAll history).get? mnemonic mode = _
    rw [get?_insertAll, get?_empty, Option.or_none]
  have hnone : ∀ mnemonic mode, (ofRows history).get? mnemonic mode = none ↔
      ∀ row ∈ history, row.isOf mnemonic mode = false := by
    intro mnemonic mode
    rw [hget, Option.map_eq_none_iff, List.getLast?_eq_none_iff, List.filter_eq_nil_iff]
    simp only [Bool.not_eq_true]
  have hcontains : ∀ mnemonic, (ofRows history).contains mnemonic = true ↔
      ∃ row ∈ history, upper row.mnemonic = upper mnemonic := by
    intro mnemonic
    have hall := contains_insertAll empty history mnemonic
    rwa [show empty.contains mnemonic = false from rfl, or_iff_left Bool.false_ne_true] at hall
  have hunknown : ∀ mnemonic, (ofRows history).contains mnemonic = false ↔
      ∀ row ∈ history, upper row.mnemonic ≠ upper mnemonic := by
    intro mnemonic
    rw [← Bool.not_eq_true, hcontains]
    simp only [not_exists, not_and, ne_eq]
  refine ⟨?_, ?_, ?_, hunknown, size_ofRows history, OpcodeTable.pairwise_modes _, ?_⟩
  · intro mnemonic mode opcode
    rw [OpcodeTable.lookup_eq_ok_iff, hget]
  · intro mnemonic mode
    rw [OpcodeTable.lookup_eq_unsupportedMode_iff, hnone, hcontains, and_comm]
  · intro mnemonic mode
    rw [OpcodeTable.lookup_eq_unknownMnemonic_iff, hnone, hunknown, and_iff_right_iff_imp]
    -- a mnemonic that has never been inserted has not been in this mode either
    intro hnever row hrow
    rw [← Bool.not_eq_true, Row.isOf_iff]
    intro hkey
    exact hnever row hrow hkey.1
  · intro mnemonic mode
    simp only [OpcodeTable.mem_modes_iff, OpcodeTable.lookup_eq_ok_iff, Option.isSome_iff_exists]

/-! ### The order of the insertions -/

/-- **Insertions in another order**: neighbours with different keys change
    places, as often as one likes. -/
inductive Reordered : List Row → List Row → Prop
  /-- Nothing changes places. -/
  | refl (rows : List Row) : Reordered rows rows
  /-- Two neighbours change places. -/
  | swap (front : List Row) (a b : Row) (back : List Row) (different : a.key ≠ b.key) :
      Reordered (front ++ a :: b :: back) (front ++ b :: a :: back)
  /-- There may be one change after the other. -/
  | trans {rows others last : List Row} (first : Reordered rows others)
      (second : Reordered others last) : Reordered rows last

/-- Two tables answer alike. -/
structure AnswersAlike (table other : OpcodeTable) : Prop where
  /-- They have the same opcodes, -/
  get?_eq : ∀ mnemonic mode, table.get? mnemonic mode = other.get? mnemonic mode
  /-- with the same reasons where there is none, -/
  lookup_eq : ∀ mnemonic mode, table.lookup mnemonic mode = other.lookup mnemonic mode
  /-- they know the same mnemonics, -/
  contains_eq : ∀ mnemonic, table.contains mnemonic = other.contains mnemonic
  /-- in the same modes, -/
  modes_eq : ∀ mnemonic, table.modes mnemonic = other.modes mnemonic
  /-- and they are of the same size. -/
  size_eq : table.size = other.size

theorem Reordered.cons {rows others : List Row} (h : Reordered rows others) (row : Row) :
    Reordered (row :: rows) (row :: others) := by
  induction h with
  | refl rows => exact .refl _
  | swap front a b back different => exact .swap (row :: front) a b back different
  | trans _ _ first second => exact first.trans second

/-- Insertions no two of which have the same key may come in any order. -/
theorem reordered_of_perm {rows others : List Row} (hperm : rows.Perm others)
    (hkeys : (rows.map Row.key).Nodup) : Reordered rows others := by
  induction hperm with
  | nil => exact .refl []
  | cons row _ ih => exact (ih (List.nodup_cons.mp hkeys).2).cons row
  | swap a b rows =>
    refine .swap [] b a rows ?_
    intro hsame
    exact (List.nodup_cons.mp hkeys).1 (by simp [hsame])
  | trans hfirst _ ihfirst ihsecond =>
    exact (ihfirst hkeys).trans (ihsecond ((hfirst.map Row.key).nodup_iff.mp hkeys))

theorem get?_insertAll_swap (table : OpcodeTable) {a b : Row} (different : a.key ≠ b.key)
    (mnemonic : String) (mode : Mode) :
    (table.insertAll [a, b]).get? mnemonic mode = (table.insertAll [b, a]).get? mnemonic mode := by
  rw [get?_insertAll, get?_insertAll]
  -- at most one of the two is for the key that is asked for
  by_cases ha : a.isOf mnemonic mode = true
  · have hb : b.isOf mnemonic mode = false := by
      rw [← Bool.not_eq_true]
      intro hb
      exact different ((of_decide_eq_true ha).trans (of_decide_eq_true hb).symm)
    simp [ha, hb]
  · simp [ha]

/-- It does not matter for a look-up in which of two orders rows are inserted. -/
theorem Reordered.get?_insertAll_eq {rows others : List Row} (h : Reordered rows others)
    (table : OpcodeTable) (mnemonic : String) (mode : Mode) :
    (table.insertAll rows).get? mnemonic mode = (table.insertAll others).get? mnemonic mode := by
  induction h with
  | refl rows => rfl
  | swap front a b back different =>
    have hsplit : ∀ x y : Row, table.insertAll (front ++ x :: y :: back) =
        ((table.insertAll front).insertAll [x, y]).insertAll back := by
      intro x y
      rw [← insertAll_append, ← insertAll_append]
      rfl
    rw [hsplit, hsplit, get?_insertAll, get?_insertAll _ back, get?_insertAll_swap _ different]
  | trans _ _ first second => exact first.trans second

theorem Reordered.perm {rows others : List Row} (h : Reordered rows others) :
    rows.Perm others := by
  induction h with
  | refl rows => exact .refl rows
  | swap front a b back _ => exact (List.Perm.swap b a back).append_left front
  | trans _ _ first second => exact first.trans second

/-- **The order of insertions does not matter** for what the table answers. -/
theorem Reordered.answersAlike {rows others : List Row} (h : Reordered rows others) :
    (ofRows rows).AnswersAlike (ofRows others) := by
  have hget : ∀ mnemonic mode,
      (ofRows rows).get? mnemonic mode = (ofRows others).get? mnemonic mode :=
    h.get?_insertAll_eq empty
  have hcontains : ∀ mnemonic,
      (ofRows rows).contains mnemonic = (ofRows others).contains mnemonic := by
    intro mnemonic
    rw [Bool.eq_iff_iff]
    show (empty.insertAll rows).contains mnemonic = true ↔
      (empty.insertAll others).contains mnemonic = true
    simp only [contains_insertAll, h.perm.mem_iff]
  refine ⟨hget, ?_, hcontains, ?_, ?_⟩
  · intro mnemonic mode
    rcases lookup_cases (ofRows rows) mnemonic mode with
      ⟨opcode, hfound, -, hlookup⟩ | ⟨hnone, hknown, hlookup⟩ | ⟨hnone, hknown, hlookup⟩
    · rw [hlookup, lookup_eq_ok_iff.mpr (hget _ _ ▸ hfound)]
    · rw [hlookup, lookup_eq_unsupportedMode_iff.mpr ⟨hget _ _ ▸ hnone, hcontains _ ▸ hknown⟩]
    · rw [hlookup, lookup_eq_unknownMnemonic_iff.mpr ⟨hget _ _ ▸ hnone, hcontains _ ▸ hknown⟩]
  · intro mnemonic
    simp only [modes_eq_filter, hget]
  · rw [size_ofRows, size_ofRows, List.toFinset_eq_of_perm _ _ (h.perm.map Row.key)]

/-! ### The answers to the insertions -/

/-- Rows with the opcodes that they replace when they are inserted one after the
    other. -/
def replacements (table : OpcodeTable) : List Row → List (Row × Option Opcode)
  | [] => []
  | row :: rows =>
    let (replaced, next) := table.getThenInsert row.mnemonic row.mode row.opcode
    (row, replaced) :: replacements next rows

theorem replacements_cons (table : OpcodeTable) (row : Row) (rows : List Row) :
    table.replacements (row :: rows) =
      (row, table.get? row.mnemonic row.mode) ::
        (table.insert row.mnemonic row.mode row.opcode).replacements rows := by
  rw [replacements, getThenInsert_eq]

theorem replacements_append (table : OpcodeTable) (rows others : List Row) :
    table.replacements (rows ++ others) =
      table.replacements rows ++ (table.insertAll rows).replacements others := by
  induction rows generalizing table with
  | nil => rfl
  | cons row rows ih =>
    rw [List.cons_append, replacements_cons, replacements_cons, ih]
    rfl

/-- What rows replace depends on the table only as far as it is looked up in it. -/
theorem replacements_congr {table other : OpcodeTable} (rows : List Row)
    (h : ∀ mnemonic mode, table.get? mnemonic mode = other.get? mnemonic mode) :
    table.replacements rows = other.replacements rows := by
  induction rows generalizing table other with
  | nil => rfl
  | cons row rows ih =>
    have hnext : ∀ mnemonic mode,
        (table.insert row.mnemonic row.mode row.opcode).get? mnemonic mode =
          (other.insert row.mnemonic row.mode row.opcode).get? mnemonic mode := by
      intro mnemonic mode
      rw [get?_insert_row, get?_insert_row, h]
    rw [replacements_cons, replacements_cons, h, ih hnext]

/-- **Nor does it matter** for what the insertions replace. -/
theorem Reordered.perm_replacements {rows others : List Row} (h : Reordered rows others)
    (table : OpcodeTable) : (table.replacements rows).Perm (table.replacements others) := by
  induction h with
  | refl rows => exact .refl _
  | swap front a b back different =>
    have hsplit : ∀ x y : Row, table.replacements (front ++ x :: y :: back) =
        table.replacements front ++ ((table.insertAll front).replacements [x, y] ++
          ((table.insertAll front).insertAll [x, y]).replacements back) := by
      intro x y
      rw [← replacements_append, ← replacements_append]
      rfl
    -- neither of the two insertions sees the other
    have hpair : ∀ x y : Row, x.key ≠ y.key → (table.insertAll front).replacements [x, y] =
        [(x, (table.insertAll front).get? x.mnemonic x.mode),
          (y, (table.insertAll front).get? y.mnemonic y.mode)] := by
      intro x y hne
      have hother : x.isOf y.mnemonic y.mode = false := decide_eq_false hne
      rw [replacements_cons, replacements_cons, get?_insert_row, hother]
      rfl
    rw [hsplit, hsplit, hpair a b different, hpair b a different.symm,
      replacements_congr back (get?_insertAll_swap _ different)]
    exact ((List.Perm.swap _ _ []).append_right _).append_left _
  | trans _ _ first second => exact first.trans second

/-- **A table is the map that its insertions make**, whatever their order as far
    as their keys are different. Each insertion tells what has been looked up
    under its key before, and adds a row exactly if that has been nothing. -/
theorem remembers_insertions (history : List Row) :
    (ofRows history).Remembers history ∧
    (∀ row : Row,
      let (replaced, next) := (ofRows history).getThenInsert row.mnemonic row.mode row.opcode
      next = ofRows (history ++ [row]) ∧
      next = (ofRows history).insert row.mnemonic row.mode row.opcode ∧
      replaced = ((ofRows history).lookup row.mnemonic row.mode).toOption ∧
      next.size = (ofRows history).size + if replaced = none then 1 else 0) ∧
    (∀ others, Reordered history others →
      (ofRows history).AnswersAlike (ofRows others) ∧
      (empty.replacements history).Perm (empty.replacements others)) ∧
    ∀ others, history.Perm others → (history.map Row.key).Nodup → Reordered history others := by
  refine ⟨remembers_ofRows history, ?_, ?_, ?_⟩
  · intro row
    rw [getThenInsert_eq]
    refine ⟨(insertAll_concat empty history row).symm, rfl, toOption_lookup.symm, ?_⟩
    rw [size_insert]
    cases (ofRows history).get? row.mnemonic row.mode <;> rfl
  · intro others h
    exact ⟨h.answersAlike, h.perm_replacements empty⟩
  · intro others hperm hkeys
    exact reordered_of_perm hperm hkeys

/-- A row that is replaced by another one in a different letter case, and a row
    that might as well have been inserted between them. -/
theorem remembers_insertions_mixed_case :
    let first : Row := ⟨"lda", .immediate, ⟨0x01, 1⟩⟩
    let second : Row := ⟨"LDA", .immediate, ⟨0xA9, 1⟩⟩
    let third : Row := ⟨"Dex", .implicit, ⟨0xCA, 0⟩⟩
    (ofRows [first, second, third]).lookup "Lda" .immediate = .ok ⟨0xA9, 1⟩ ∧
      (ofRows [first, second, third]).lookup "lda" .absolute =
        .error (.unsupportedMode "lda" .absolute) ∧
      (ofRows [first, second, third]).lookup "sta" .absolute = .error (.unknownMnemonic "sta") ∧
      (ofRows [first, second, third]).size = 2 ∧
      ((ofRows [first]).getThenInsert "LDA" .immediate ⟨0xA9, 1⟩).1 = some ⟨0x01, 1⟩ ∧
      (ofRows [first, second, third]).AnswersAlike (ofRows [first, third, second]) := by
  intro first second third
  obtain ⟨hremembers, -, hreordered, -⟩ := remembers_insertions [first, second, third]
  obtain ⟨-, hinsert, -⟩ := remembers_insertions [first]
  obtain ⟨-, -, hreplaced, -⟩ := hinsert second
  have hfirst : (ofRows [first]).lookup "LDA" .immediate = .ok ⟨0x01, 1⟩ :=
    ((remembers_insertions [first]).1.lookup_eq_ok_iff _ _ _).mpr (by decide +kernel)
  refine ⟨?_, ?_, ?_, ?_, ?_, ?_⟩
  · exact (hremembers.lookup_eq_ok_iff _ _ _).mpr (by decide +kernel)
  · exact (hremembers.lookup_eq_unsupportedMode_iff _ _).mpr (by decide +kernel)
  · exact (hremembers.lookup_eq_unknownMnemonic_iff _ _).mpr (by decide +kernel)
  · rw [hremembers.size_eq]
    decide +kernel
  · exact hreplaced.trans (congrArg Except.toOption hfirst)
  · exact (hreordered _ (.swap [first] second third [] (by decide +kernel))).1

end Mos6502.OpcodeTable
