/-! # Search by Bisection

    A list is searched by looking at its middle element, which tells on which
    side of the wanted place it lies, and so in which half to go on.

    What is found is at the wanted place, whatever the order of the list
    (`exists_of_search_eq_ok`). That nothing is missed needs the order: only if
    the elements before the wanted place stand in front of the others, all
    elements of the half that is left out lie on the side of the middle one
    (`split_of_search_eq_error`).
-/

namespace Mos6502.Bisection

variable {α β : Type}

/-- The outcome of a search behind the first elements of a list, as one in the
    whole list. -/
def shift (n : Nat) : Except Nat Nat → Except Nat Nat
  | .ok index => .ok (n + index)
  | .error index => .error (n + index)

/-- The index of an element at the wanted place or, if none is found, the index
    of the place. An element lies before the place (`lt`), at it (`eq`) or
    behind it (`gt`). -/
def search (side : α → Ordering) (l : List α) : Except Nat Nat :=
  match _ : l.drop (l.length / 2) with
  | [] => .error 0
  | middle :: back =>
    match side middle with
    | .lt => shift (l.length / 2 + 1) (search side back)
    | .eq => .ok (l.length / 2)
    | .gt => search side (l.take (l.length / 2))
termination_by l.length
decreasing_by
  all_goals
    rename_i halves
    have count := congrArg List.length halves
    rw [List.length_drop, List.length_cons] at count
  · omega
  · rw [List.length_take]
    omega

/-- The number of elements in front of the first one without the property, if
    those with the property come first. -/
def partitionPoint (p : α → Bool) (l : List α) : Nat :=
  match search (fun a => if p a then .lt else .gt) l with
  | .ok index => index
  | .error index => index

/-! ### Halves of a list -/

/-- A list is its halves with the middle element between them. -/
theorem exists_front {l : List α} {middle : α} {back : List α}
    (halves : l.drop (l.length / 2) = middle :: back) :
    ∃ front, l = front ++ middle :: back ∧ l.length / 2 = front.length ∧
      l.take (l.length / 2) = front := by
  refine ⟨l.take (l.length / 2), ?_, ?_, rfl⟩
  · rw [← halves, List.take_append_drop]
  · rw [List.length_take]
    omega

/-- Only the empty list has no middle element. -/
theorem eq_nil_of_drop_half {l : List α} (halves : l.drop (l.length / 2) = []) : l = [] := by
  have count := List.drop_eq_nil_iff.mp halves
  apply List.eq_nil_of_length_eq_zero
  omega

theorem shift_eq_ok {n index : Nat} {outcome : Except Nat Nat}
    (h : shift n outcome = .ok index) : ∃ i, outcome = .ok i ∧ index = n + i := by
  cases outcome with
  | error i => simp [shift] at h
  | ok i => exact ⟨i, rfl, (Except.ok.inj h).symm⟩

theorem shift_eq_error {n index : Nat} {outcome : Except Nat Nat}
    (h : shift n outcome = .error index) : ∃ i, outcome = .error i ∧ index = n + i := by
  cases outcome with
  | error i => exact ⟨i, rfl, (Except.error.inj h).symm⟩
  | ok i => simp [shift] at h

@[simp] theorem search_nil (side : α → Ordering) : search side [] = .error 0 := by
  rw [search]
  split
  · rfl
  · next halves => simp at halves

/-- One step of the search. -/
theorem search_append {side : α → Ordering} {front back : List α} {middle : α}
    (half : (front ++ middle :: back).length / 2 = front.length) :
    search side (front ++ middle :: back) =
      match side middle with
      | .lt => shift (front.length + 1) (search side back)
      | .eq => .ok front.length
      | .gt => search side front := by
  rw [search, half]
  split
  · next empty => simp at empty
  · next m b halves =>
    rw [List.drop_left] at halves
    obtain ⟨rfl, rfl⟩ := List.cons.inj halves
    rw [List.take_left]

/-! ### What is found -/

variable {side : α → Ordering} {l : List α} {index : Nat}

/-- An element that is found is at the wanted place. -/
theorem exists_of_search_eq_ok (h : search side l = .ok index) :
    ∃ a, l[index]? = some a ∧ side a = .eq := by
  fun_induction search side l generalizing index with
  | case1 l _ => simp at h
  | case2 l middle back halves before ih =>
    obtain ⟨front, hl, hhalf, -⟩ := exists_front halves
    obtain ⟨i, found, rfl⟩ := shift_eq_ok h
    obtain ⟨a, hat, same⟩ := ih found
    refine ⟨a, ?_, same⟩
    rw [hhalf, hl, List.getElem?_append_right (by omega), ← hat,
      show front.length + 1 + i - front.length = i + 1 by omega, List.getElem?_cons_succ]
  | case3 l middle back halves same =>
    obtain ⟨front, hl, hhalf, -⟩ := exists_front halves
    obtain rfl := Except.ok.inj h
    refine ⟨middle, ?_, same⟩
    rw [hhalf, hl, List.getElem?_append_right (Nat.le_refl _), Nat.sub_self,
      List.getElem?_cons_zero]
  | case4 l middle back halves behind ih =>
    obtain ⟨a, hat, same⟩ := ih h
    obtain ⟨hlt, -⟩ := List.getElem?_eq_some_iff.mp hat
    rw [List.length_take] at hlt
    rw [List.getElem?_take_of_lt (by omega)] at hat
    exact ⟨a, hat, same⟩

/-- The elements before the wanted place come first, then those at it, and then
    those behind it. -/
def Ordered (side : α → Ordering) (l : List α) : Prop :=
  l.Pairwise fun a b => (side b = .lt → side a = .lt) ∧ (side a = .gt → side b = .gt)

/-- If nothing is found in an ordered list, the place that is given has all
    elements before it in front and all behind it at the back. -/
theorem split_of_search_eq_error (ordered : Ordered side l) (h : search side l = .error index) :
    ∃ before behind, l = before ++ behind ∧ index = before.length ∧
      (∀ a ∈ before, side a = .lt) ∧ ∀ a ∈ behind, side a = .gt := by
  fun_induction search side l generalizing index with
  | case1 l halves =>
    obtain rfl := Except.error.inj h
    exact ⟨[], [], eq_nil_of_drop_half halves, rfl, by simp, by simp⟩
  | case2 l middle back halves hbefore ih =>
    obtain ⟨front, hl, hhalf, -⟩ := exists_front halves
    obtain ⟨i, missed, rfl⟩ := shift_eq_error h
    rw [Ordered, hl] at ordered
    obtain ⟨-, hback, hfront⟩ := List.pairwise_append.mp ordered
    obtain ⟨-, hback⟩ := List.pairwise_cons.mp hback
    obtain ⟨before, behind, rfl, rfl, hlt, hgt⟩ := ih hback missed
    refine ⟨front ++ middle :: before, behind, by simp [hl], ?_, ?_, hgt⟩
    · rw [hhalf, List.length_append, List.length_cons]
      omega
    · -- what stands in front of the middle element lies before the place as well
      intro a ha
      rcases List.mem_append.mp ha with ha | ha
      · exact (hfront a ha middle List.mem_cons_self).1 hbefore
      · rcases List.mem_cons.mp ha with rfl | ha
        · exact hbefore
        · exact hlt a ha
  | case3 l middle back halves same => simp at h
  | case4 l middle back halves hbehind ih =>
    obtain ⟨front, hl, -, htake⟩ := exists_front halves
    rw [htake] at ih h
    rw [Ordered, hl] at ordered
    obtain ⟨hfront, hback, -⟩ := List.pairwise_append.mp ordered
    obtain ⟨hmiddle, -⟩ := List.pairwise_cons.mp hback
    obtain ⟨before, behind, rfl, rfl, hlt, hgt⟩ := ih hfront h
    refine ⟨before, behind ++ middle :: back, by simp [hl], rfl, hlt, ?_⟩
    -- what stands behind the middle element lies behind the place as well
    intro a ha
    rcases List.mem_append.mp ha with ha | ha
    · exact hgt a ha
    · rcases List.mem_cons.mp ha with rfl | ha
      · exact hbehind
      · exact (hmiddle a ha).2 hbehind

/-- The elements with a property are counted if they come first. -/
theorem partitionPoint_eq {p : α → Bool} (first : l.Pairwise fun a b => p b → p a) :
    partitionPoint p l = (l.takeWhile p).length := by
  have ordered : Ordered (fun a => if p a then .lt else .gt) l := by
    apply first.imp
    intro a b hab
    by_cases ha : p a = true
    · simp [ha]
    · have hb : ¬ p b = true := fun hb => ha (hab hb)
      simp [ha, hb]
  unfold partitionPoint
  split
  · next index found =>
    -- no element is at the place between those with the property and the others
    obtain ⟨a, -, same⟩ := exists_of_search_eq_ok found
    split at same <;> simp at same
  · next index missed =>
    obtain ⟨before, behind, rfl, rfl, hlt, hgt⟩ := split_of_search_eq_error ordered missed
    have hbefore : ∀ a ∈ before, p a = true := by
      intro a ha
      simpa using hlt a ha
    have hbehind : behind.takeWhile p = [] := by
      cases behind with
      | nil => rfl
      | cons b _ =>
        apply List.takeWhile_cons_of_neg
        simpa using hgt b List.mem_cons_self
    rw [List.takeWhile_append_of_pos hbefore, hbehind, List.append_nil]

/-! ### Other elements on the same sides -/

/-- Replacing the elements does not change the outcome as long as they lie on
    the same sides. -/
theorem search_map (side : α → Ordering) (f : β → α) (l : List β) :
    search side (l.map f) = search (side ∘ f) l := by
  have middle_map : ∀ {front back : List β} {middle : β},
      (front ++ middle :: back).length / 2 = front.length →
      search side ((front ++ middle :: back).map f) =
        match (side ∘ f) middle with
        | .lt => shift (front.length + 1) (search side (back.map f))
        | .eq => .ok front.length
        | .gt => search side (front.map f) := by
    intro front back middle half
    rw [List.map_append, List.map_cons, search_append (by simpa using half), List.length_map]
    rfl
  fun_induction search (side ∘ f) l with
  | case1 l halves =>
    rw [eq_nil_of_drop_half halves]
    exact search_nil side
  | case2 l middle back halves before ih =>
    obtain ⟨front, hl, half, -⟩ := exists_front halves
    rw [half, ← ih, hl, middle_map (hl ▸ half), before]
  | case3 l middle back halves same =>
    obtain ⟨front, hl, half, -⟩ := exists_front halves
    rw [half, hl, middle_map (hl ▸ half), same]
  | case4 l middle back halves behind ih =>
    obtain ⟨front, hl, half, take⟩ := exists_front halves
    rw [← ih, take, hl, middle_map (hl ▸ half), behind]

theorem partitionPoint_map (p : α → Bool) (f : β → α) (l : List β) :
    partitionPoint p (l.map f) = partitionPoint (p ∘ f) l := by
  rw [partitionPoint, search_map]
  rfl

end Mos6502.Bisection
