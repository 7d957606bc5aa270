/-! # Stable Sorting by a Key

    Diagnostics, listing rows and line tables are sorted by a number that is
    read off their elements, and elements with one number keep their order.
    These two facts leave no choice: `mergeSort_eq_of_filter_eq` says that a
    list is the sorted form of another one as soon as it ascends and has the
    same elements, in the same order, under each number.

    A sorted list is searched from the front. What is found does not depend on
    the order of the elements if only one of them is looked for
    (`find?_eq_some_of_unique`).
-/

namespace Mos6502.StableSort

variable {α : Type} {key : α → Nat}

/-! ### Lists that ascend -/

/-- An ascending list is determined by its elements under each key. -/
theorem eq_of_filter_eq {l m : List α}
    (hl : l.Pairwise fun a b => key a ≤ key b) (hm : m.Pairwise fun a b => key a ≤ key b)
    (h : ∀ k, l.filter (fun a => key a = k) = m.filter (fun a => key a = k)) : l = m := by
  induction l generalizing m with
  | nil =>
    cases m with
    | nil => rfl
    | cons b m => simpa using h (key b)
  | cons a l ih =>
    cases m with
    | nil => simpa using h (key a)
    | cons b m =>
      obtain ⟨ha, hl'⟩ := List.pairwise_cons.mp hl
      obtain ⟨hb, hm'⟩ := List.pairwise_cons.mp hm
      -- each head occurs in the other list, so neither key is the larger one
      have hab : a ∈ b :: m := by
        have hmem : a ∈ (a :: l).filter (fun x => key x = key a) := by simp
        rw [h (key a)] at hmem
        exact (List.mem_filter.mp hmem).1
      have hba : b ∈ a :: l := by
        have hmem : b ∈ (b :: m).filter (fun x => key x = key b) := by simp
        rw [← h (key b)] at hmem
        exact (List.mem_filter.mp hmem).1
      have hkey : key a = key b := by
        rcases List.mem_cons.mp hab with rfl | hab
        · rfl
        · rcases List.mem_cons.mp hba with rfl | hba
          · rfl
          · have h1 := ha b hba
            have h2 := hb a hab
            omega
      have hhead := h (key b)
      simp only [List.filter_cons, hkey, decide_true, if_true, List.cons.injEq] at hhead
      obtain ⟨rfl, -⟩ := hhead
      -- without the common head, each key has lost the same element
      have htail : l = m := by
        apply ih hl' hm'
        intro k
        have hk := h k
        simp only [List.filter_cons] at hk
        split at hk
        · exact (List.cons.inj hk).2
        · exact hk
      rw [htail]

theorem filter_eq_nil_of_forall_ne {l : List α} {k : Nat} (h : ∀ a ∈ l, key a ≠ k) :
    l.filter (fun a => key a = k) = [] := by
  rw [List.filter_eq_nil_iff]
  intro a ha hak
  exact h a ha (by simpa using hak)

/-- In an ascending list, the elements up to a key stand in front of the
    others. -/
theorem takeWhile_eq_filter {l : List α} (hl : l.Pairwise fun a b => key a ≤ key b) (n : Nat) :
    l.takeWhile (fun a => key a ≤ n) = l.filter fun a => key a ≤ n := by
  induction l with
  | nil => rfl
  | cons a l ih =>
    obtain ⟨ha, hl'⟩ := List.pairwise_cons.mp hl
    by_cases hle : key a ≤ n
    · simp [hle, ih hl']
    · -- behind the first key that is too large there are only larger ones
      have hnone : l.filter (fun b => key b ≤ n) = [] := by
        rw [List.filter_eq_nil_iff]
        intro b hb hbn
        have hab := ha b hb
        simp only [decide_eq_true_eq] at hbn
        omega
      simp [hle, hnone]

/-! ### Searching -/

theorem find?_eq_some_of_unique {l : List α} {p : α → Bool} {a : α} (ha : a ∈ l) (hp : p a)
    (hunique : ∀ b ∈ l, p b → b = a) : l.find? p = some a := by
  have hsome : (l.find? p).isSome := by
    rw [List.find?_isSome]
    exact ⟨a, ha, hp⟩
  obtain ⟨b, hb⟩ := Option.isSome_iff_exists.mp hsome
  rw [hb, hunique b (List.mem_of_find?_eq_some hb) (List.find?_some hb)]

/-! ### Sorting -/

/-- The order of the keys, as the sorting functions take it. -/
def byKey (key : α → Nat) (a b : α) : Bool := key a ≤ key b

theorem byKey_trans (a b c : α) (hab : byKey key a b) (hbc : byKey key b c) :
    byKey key a c := by
  simp only [byKey, decide_eq_true_eq] at *
  omega

theorem byKey_total (a b : α) : byKey key a b || byKey key b a := by
  simp only [byKey, Bool.or_eq_true, decide_eq_true_eq]
  omega

theorem pairwise_mergeSort_byKey (l : List α) :
    (l.mergeSort (byKey key)).Pairwise fun a b => key a ≤ key b := by
  have h := List.pairwise_mergeSort (@byKey_trans α key) byKey_total l
  exact h.imp fun hab => by simpa [byKey] using hab

/-- Sorting keeps the elements under each key in their order. -/
theorem filter_mergeSort_byKey (l : List α) (k : Nat) :
    (l.mergeSort (byKey key)).filter (fun a => key a = k) = l.filter (fun a => key a = k) := by
  have hsorted : (l.filter fun a => key a = k).Pairwise fun a b => byKey key a b = true := by
    rw [List.pairwise_filter]
    apply List.pairwise_of_forall
    intro a b ha hb
    simp only [byKey, decide_eq_true_eq] at *
    omega
  -- stability: a sublist that is in order stays one, and it is as long as what sorting keeps
  have hsub : (l.filter fun a => key a = k).Sublist (l.mergeSort (byKey key)) :=
    List.sublist_mergeSort byKey_trans byKey_total hsorted List.filter_sublist
  have hfilter := hsub.filter fun a => key a = k
  rw [List.filter_filter] at hfilter
  simp only [Bool.and_self] at hfilter
  have hlength := ((List.mergeSort_perm l (byKey key)).filter fun a => key a = k).length_eq
  exact (hfilter.eq_of_length hlength.symm).symm

/-- **Stable sorting is determined**: an ascending list with the same elements
    in the same order under each key is the sorted list. -/
theorem mergeSort_eq_of_filter_eq {l m : List α}
    (hm : m.Pairwise fun a b => key a ≤ key b)
    (h : ∀ k, m.filter (fun a => key a = k) = l.filter (fun a => key a = k)) :
    l.mergeSort (byKey key) = m := by
  apply eq_of_filter_eq (pairwise_mergeSort_byKey l) hm
  intro k
  rw [filter_mergeSort_byKey, h]

/-- Some of the elements are sorted as they are among the others. -/
theorem filter_mergeSort (l : List α) (p : α → Bool) :
    (l.mergeSort (byKey key)).filter p = (l.filter p).mergeSort (byKey key) := by
  symm
  apply mergeSort_eq_of_filter_eq ((pairwise_mergeSort_byKey l).filter p)
  intro k
  -- it does not matter which of the two choices is made first
  have hcomm : ∀ m : List α, (m.filter p).filter (fun a => key a = k) =
      (m.filter fun a => key a = k).filter p := by
    intro m
    simp only [List.filter_filter, Bool.and_comm]
  rw [hcomm, filter_mergeSort_byKey, hcomm]

end Mos6502.StableSort
