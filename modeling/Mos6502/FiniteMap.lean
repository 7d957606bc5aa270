/-! # Finite Maps

    A finite map holds one value for each of finitely many keys. It is a list
    of entries, and no operation tells the order of the list.
-/

namespace Mos6502

/-- A map from finitely many keys. -/
structure FiniteMap (κ α : Type) where
  /-- The keys with their values. -/
  entries : List (κ × α)
  /-- No key has two values. -/
  distinct : (entries.map Prod.fst).Nodup
deriving DecidableEq

namespace FiniteMap

variable {κ α : Type}

/-- The map without keys. -/
def empty : FiniteMap κ α := ⟨[], .nil⟩

/-- The keys that have a value. -/
def keys (map : FiniteMap κ α) : List κ := map.entries.map Prod.fst

/-- The number of keys. -/
def size (map : FiniteMap κ α) : Nat := map.entries.length

/-- The sum over all values of what each of them weighs. -/
def total (weight : α → Nat) (map : FiniteMap κ α) : Nat :=
  map.entries.foldr (fun entry sum => weight entry.2 + sum) 0

variable [DecidableEq κ]

/-- Has the key a value? -/
def contains (map : FiniteMap κ α) (key : κ) : Bool :=
  map.entries.any fun entry => entry.1 = key

/-- The value of a key. -/
def get? (map : FiniteMap κ α) (key : κ) : Option α :=
  (map.entries.find? fun entry => entry.1 = key).map Prod.snd

/-! ### Insertion -/

/-- Puts a value under a key, in the place of the old one or at the end, and
    gives the old one. -/
def exchange (key : κ) (value : α) : List (κ × α) → Option α × List (κ × α)
  | [] => (none, [(key, value)])
  | entry :: entries =>
    if entry.1 = key then (some entry.2, (key, value) :: entries)
    else
      let (old, rest) := exchange key value entries
      (old, entry :: rest)

variable {key : κ} {value : α}

/-- A walk through the entries stops at the key and else goes on. -/
theorem exchange_cons (key : κ) (value : α) (entry : κ × α) (entries : List (κ × α)) :
    exchange key value (entry :: entries) =
      if entry.1 = key then (some entry.2, (key, value) :: entries)
      else ((exchange key value entries).1, entry :: (exchange key value entries).2) := rfl

theorem keys_exchange (entries : List (κ × α)) :
    (exchange key value entries).2.map Prod.fst =
      if key ∈ entries.map Prod.fst then entries.map Prod.fst
      else entries.map Prod.fst ++ [key] := by
  induction entries with
  | nil => simp [exchange]
  | cons entry entries ih =>
    by_cases same : entry.1 = key
    · simp [exchange_cons, same]
    · have other : ¬ key = entry.1 := fun h => same h.symm
      rw [exchange_cons, if_neg same, List.map_cons, ih]
      by_cases taken : key ∈ entries.map Prod.fst
      · simp only [taken, if_true, List.map_cons, List.mem_cons, or_true]
      · simp only [taken, if_false, List.map_cons, List.mem_cons, other, or_self, List.cons_append]

theorem nodup_keys_exchange {entries : List (κ × α)} (h : (entries.map Prod.fst).Nodup) :
    ((exchange key value entries).2.map Prod.fst).Nodup := by
  rw [keys_exchange]
  split
  · exact h
  · next new =>
    refine List.nodup_append.mpr ⟨h, by simp, ?_⟩
    intro a ha b hb same
    rw [List.mem_singleton] at hb
    exact new (hb ▸ same ▸ ha)

/-- Puts a value under a key and gives the value that it replaces. -/
def getThenInsert (map : FiniteMap κ α) (key : κ) (value : α) : Option α × FiniteMap κ α :=
  let outcome := exchange key value map.entries
  (outcome.1, ⟨outcome.2, nodup_keys_exchange map.distinct⟩)

/-- The map with a value put under a key. -/
def insert (map : FiniteMap κ α) (key : κ) (value : α) : FiniteMap κ α :=
  (map.getThenInsert key value).2

/-! ### What is looked up -/

variable {map : FiniteMap κ α}

@[simp] theorem get?_empty (key : κ) : (empty : FiniteMap κ α).get? key = none := rfl

/-- A key has the value that stands in the entries with it. -/
theorem get?_eq_some_iff : map.get? key = some value ↔ (key, value) ∈ map.entries := by
  unfold get?
  constructor
  · intro h
    obtain ⟨⟨found, _⟩, hfind, rfl⟩ := Option.map_eq_some_iff.mp h
    have same : found = key := by simpa using List.find?_some hfind
    exact same ▸ List.mem_of_find?_eq_some hfind
  · obtain ⟨entries, distinct⟩ := map
    intro mem
    induction entries with
    | nil => exact absurd mem List.not_mem_nil
    | cons entry entries ih =>
      obtain ⟨new, distinct⟩ := List.nodup_cons.mp distinct
      rcases List.mem_cons.mp mem with rfl | mem
      · simp
      · -- the entry in front has another key
        have other : entry.1 ≠ key := fun same => new (same ▸ List.mem_map.mpr ⟨_, mem, rfl⟩)
        rw [List.find?_cons_of_neg (by simpa using other)]
        exact ih distinct mem

theorem contains_eq_isSome_get? (map : FiniteMap κ α) (key : κ) :
    map.contains key = (map.get? key).isSome := by
  rw [get?, Option.isSome_map, List.isSome_find?, contains]

theorem isSome_get?_iff : (map.get? key).isSome = true ↔ key ∈ map.keys := by
  rw [← contains_eq_isSome_get?, contains, keys, List.any_eq_true, List.mem_map]
  simp only [decide_eq_true_eq]

/-! ### What an insertion changes -/

theorem fst_exchange (key : κ) (value : α) (entries : List (κ × α)) :
    (exchange key value entries).1 =
      (entries.find? fun entry => entry.1 = key).map Prod.snd := by
  induction entries with
  | nil => rfl
  | cons entry entries ih =>
    by_cases same : entry.1 = key
    · simp [exchange_cons, same]
    · simp [exchange_cons, same, ih]

theorem find?_exchange (key other : κ) (value : α) (entries : List (κ × α)) :
    ((exchange key value entries).2.find? fun entry => entry.1 = other).map Prod.snd =
      if key = other then some value
      else (entries.find? fun entry => entry.1 = other).map Prod.snd := by
  induction entries with
  | nil => by_cases same : key = other <;> simp [exchange, same]
  | cons entry entries ih =>
    by_cases same : entry.1 = key
    · by_cases hother : key = other <;> simp [exchange_cons, same, hother]
    · rw [exchange_cons, if_neg same]
      by_cases hother : entry.1 = other
      · have hne : key ≠ other := fun h => same (hother.trans h.symm)
        simp [hother, hne]
      · simpa [hother] using ih

theorem length_exchange (key : κ) (value : α) (entries : List (κ × α)) :
    (exchange key value entries).2.length =
      entries.length + if (exchange key value entries).1.isSome then 0 else 1 := by
  induction entries with
  | nil => rfl
  | cons entry entries ih =>
    by_cases same : entry.1 = key
    · simp [exchange_cons, same]
    · simp only [exchange_cons, same, if_false, List.length_cons]
      omega

theorem total_exchange (weight : α → Nat) (key : κ) (value : α) (entries : List (κ × α)) :
    (exchange key value entries).2.foldr (fun entry sum => weight entry.2 + sum) 0 +
        ((exchange key value entries).1.map weight).getD 0 =
      entries.foldr (fun entry sum => weight entry.2 + sum) 0 + weight value := by
  induction entries with
  | nil => simp [exchange]
  | cons entry entries ih =>
    by_cases same : entry.1 = key
    · simp only [exchange_cons, same, if_true, List.foldr_cons, Option.map_some, Option.getD_some]
      omega
    · simp only [exchange_cons, same, if_false, List.foldr_cons]
      omega

/-- The value that is given back is the one that the key has had. -/
theorem fst_getThenInsert (map : FiniteMap κ α) (key : κ) (value : α) :
    (map.getThenInsert key value).1 = map.get? key :=
  fst_exchange key value map.entries

/-- After an insertion its key has the new value and every other key the old
    one. -/
theorem get?_insert (map : FiniteMap κ α) (key other : κ) (value : α) :
    (map.insert key value).get? other = if key = other then some value else map.get? other :=
  find?_exchange key other value map.entries

theorem mem_keys_insert {other : κ} :
    other ∈ (map.insert key value).keys ↔ key = other ∨ other ∈ map.keys := by
  rw [← isSome_get?_iff, ← isSome_get?_iff, get?_insert]
  by_cases same : key = other <;> simp [same]

/-- An insertion adds a key exactly when it replaces no value. -/
theorem size_insert (map : FiniteMap κ α) (key : κ) (value : α) :
    (map.insert key value).size = map.size + if (map.get? key).isSome then 0 else 1 := by
  rw [← fst_getThenInsert map key value]
  exact length_exchange key value map.entries

/-- In a sum over all values, an insertion replaces the old value by the new
    one. -/
theorem total_insert (weight : α → Nat) (map : FiniteMap κ α) (key : κ) (value : α) :
    (map.insert key value).total weight + ((map.get? key).map weight).getD 0 =
      map.total weight + weight value := by
  rw [← fst_getThenInsert map key value]
  exact total_exchange weight key value map.entries

end FiniteMap

end Mos6502
