/-!
# Changing one element of a list

`updateFirst` changes the first element that a test picks out. It is `find?` that sees that element, so
the change shows there if the changed element still passes the test, and nowhere else.
-/

namespace StoryGraph

variable {α β : Type}

/-- Change the first element that a test picks out. -/
def updateFirst (p : α → Bool) (f : α → α) : List α → List α
  | [] => []
  | x :: xs => if p x then f x :: xs else x :: updateFirst p f xs

/-- The element that is changed stands at the first place where the test finds one. -/
theorem updateFirst_eq_modify (p : α → Bool) (f : α → α) (xs : List α) :
    updateFirst p f xs = xs.modify (xs.findIdx p) f := by
  induction xs with
  | nil => rfl
  | cons x xs ih =>
      rw [updateFirst, List.findIdx_cons]
      cases hx : p x with
      | true => rfl
      | false =>
          simp only [Bool.false_eq_true, if_false, cond_false, List.modify_succ_cons, ih]

/-- What the change does not touch stays as it is. -/
theorem map_updateFirst {p : α → Bool} {f : α → α} {g : α → β} (h : ∀ x, p x → g (f x) = g x)
    (xs : List α) : (updateFirst p f xs).map g = xs.map g := by
  induction xs with
  | nil => rfl
  | cons x xs ih =>
      simp only [updateFirst]
      split
      · rename_i hx
        simp [h x hx]
      · simp [ih]

/-- Nor does a view show a change that it cannot tell in the element that is picked out. -/
theorem map_updateFirst_of_find? {p : α → Bool} {f : α → α} {g : α → β} {xs : List α}
    (h : ∀ x, xs.find? p = some x → g (f x) = g x) : (updateFirst p f xs).map g = xs.map g := by
  induction xs with
  | nil => rfl
  | cons x xs ih =>
      simp only [List.find?_cons] at h
      rw [updateFirst]
      split
      · rename_i hx
        rw [List.map_cons, List.map_cons, h x (by simp [hx])]
      · rename_i hx
        rw [List.map_cons, List.map_cons, ih (by simpa [hx] using h)]

/-- What comes after a place where the element has been picked out stays as it is. -/
theorem drop_updateFirst {p : α → Bool} {f : α → α} {xs : List α} {k : Nat} (h : ∃ x ∈ xs.take k, p x) :
    (updateFirst p f xs).drop k = xs.drop k := by
  induction xs generalizing k with
  | nil => rfl
  | cons x xs ih =>
      cases k with
      | zero => simp at h
      | succ k =>
          rw [updateFirst]
          split
          · rfl
          · rename_i hx
            exact ih (by simpa [hx] using h)

/-- The changed element is where the test finds it. -/
theorem find?_updateFirst {p : α → Bool} {f : α → α} (h : ∀ x, p x → p (f x)) (xs : List α) :
    (updateFirst p f xs).find? p = (xs.find? p).map f := by
  induction xs with
  | nil => rfl
  | cons x xs ih =>
      simp only [updateFirst]
      split
      · rename_i hx
        simp [h x hx, hx]
      · rename_i hx
        simp [hx, ih]

/-- The change does not show to a test that the element fails before it and after it. -/
theorem find?_updateFirst_of_disjoint {p q : α → Bool} {f : α → α}
    (hf : ∀ x, p x → q x = false ∧ q (f x) = false) (xs : List α) :
    (updateFirst p f xs).find? q = xs.find? q := by
  induction xs with
  | nil => rfl
  | cons x xs ih =>
      rw [updateFirst]
      split
      · rename_i hx
        obtain ⟨hq, hq'⟩ := hf x hx
        rw [List.find?_cons, List.find?_cons, hq, hq']
      · rw [List.find?_cons, List.find?_cons, ih]

/-- Nothing changes where the element that is picked out is left as it is. -/
theorem updateFirst_eq_self {p : α → Bool} {f : α → α} {xs : List α}
    (h : ∀ x, xs.find? p = some x → f x = x) : updateFirst p f xs = xs := by
  induction xs with
  | nil => rfl
  | cons x xs ih =>
      simp only [List.find?_cons] at h
      rw [updateFirst]
      split
      · rename_i hx
        rw [h x (by simp [hx])]
      · rename_i hx
        rw [ih (by simpa [hx] using h)]

/-- To change the first element again is to change it once. -/
theorem updateFirst_updateFirst {p : α → Bool} {f g : α → α} (h : ∀ x, p x → p (f x)) (xs : List α) :
    updateFirst p g (updateFirst p f xs) = updateFirst p (fun x ↦ g (f x)) xs := by
  induction xs with
  | nil => rfl
  | cons x xs ih =>
      rw [updateFirst, updateFirst]
      split
      · rename_i hx
        rw [updateFirst, if_pos (h x hx)]
      · rename_i hx
        rw [updateFirst, if_neg hx, ih]

theorem mem_or_exists_of_mem_updateFirst {p : α → Bool} {f : α → α} {xs : List α} {y : α}
    (h : y ∈ updateFirst p f xs) : y ∈ xs ∨ ∃ x, xs.find? p = some x ∧ y = f x := by
  induction xs with
  | nil => cases h
  | cons x xs ih =>
      rw [updateFirst] at h
      rw [List.find?_cons]
      split at h
      · rename_i hx
        rw [hx]
        rcases List.mem_cons.mp h with rfl | h
        · exact .inr ⟨x, rfl, rfl⟩
        · exact .inl (List.mem_cons_of_mem _ h)
      · rename_i hx
        rw [Bool.not_eq_true] at hx
        rw [hx]
        rcases List.mem_cons.mp h with rfl | h
        · exact .inl List.mem_cons_self
        · exact (ih h).imp_left (List.mem_cons_of_mem _)

/-- Where one element at most is picked out, to change the first is to change all. -/
theorem updateFirst_eq_map {p : α → Bool} {f : α → α} {xs : List α} (h : xs.countP p ≤ 1) :
    updateFirst p f xs = xs.map fun x ↦ if p x then f x else x := by
  induction xs with
  | nil => rfl
  | cons x xs ih =>
      rw [updateFirst, List.map_cons]
      split
      · rename_i hx
        have hnone : xs.countP p = 0 := by
          rw [List.countP_cons_of_pos hx] at h
          omega
        have hself : ∀ y ∈ xs, (if p y then f y else y) = y := fun y hy ↦
          if_neg (List.countP_eq_zero.mp hnone y hy)
        rw [List.map_congr_left hself, List.map_id']
      · rename_i hx
        rw [ih (by rwa [List.countP_cons_of_neg hx] at h)]

end StoryGraph
