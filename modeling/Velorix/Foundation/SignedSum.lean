import Mathlib.Tactic

/-! Sums of signed weights over the items of a list that share a key. -/

section
variable {α κ ι : Type*} [DecidableEq κ] [DecidableEq ι]

/-- The total weight of the items whose key is `k`. -/
def weightAt (key : α → κ) (weight : α → ℤ) (k : κ) (items : List α) : ℤ :=
  ((items.filter fun a => key a = k).map weight).sum

variable (key : α → κ) (weight : α → ℤ) (k : κ)

@[simp] theorem weightAt_nil : weightAt key weight k [] = 0 := rfl

@[simp]
theorem weightAt_cons (a : α) (xs : List α) :
    weightAt key weight k (a :: xs) =
      (if key a = k then weight a else 0) + weightAt key weight k xs := by
  unfold weightAt
  by_cases h : key a = k <;> simp [h]

@[simp]
theorem weightAt_append (xs ys : List α) :
    weightAt key weight k (xs ++ ys) = weightAt key weight k xs + weightAt key weight k ys := by
  simp [weightAt]

theorem weightAt_eq_sum (xs : List α) :
    weightAt key weight k xs = (xs.map fun a => if key a = k then weight a else 0).sum := by
  induction xs with
  | nil => rfl
  | cons a xs ih => rw [weightAt_cons, ih, List.map_cons, List.sum_cons]

variable {key weight k}

theorem weightAt_eq_zero {xs : List α} (h : ∀ a ∈ xs, key a ≠ k) :
    weightAt key weight k xs = 0 := by
  have hn : (xs.filter fun a => key a = k) = [] := by
    rw [List.filter_eq_nil_iff]
    intro a ha
    simpa using h a ha
  rw [weightAt, hn, List.map_nil, List.sum_nil]

theorem weightAt_congr {key' : α → ι} {k' : ι} {xs : List α}
    (h : ∀ a ∈ xs, key a = k ↔ key' a = k') :
    weightAt key weight k xs = weightAt key' weight k' xs := by
  have hs : (xs.filter fun a => key a = k) = xs.filter fun a => key' a = k' :=
    List.filter_congr fun a ha => by simp only [h a ha]
  rw [weightAt, weightAt, hs]

theorem weightAt_of_nodup {xs : List α} (h : (xs.map key).Nodup) {a : α} (ha : a ∈ xs) :
    weightAt key weight (key a) xs = weight a := by
  induction xs with
  | nil => cases ha
  | cons b xs ih =>
    rw [List.map_cons, List.nodup_cons] at h
    rw [weightAt_cons]
    rcases List.mem_cons.mp ha with rfl | ha
    · have hn : weightAt key weight (key a) xs = 0 := by
        apply weightAt_eq_zero
        intro c hc heq
        exact h.1 (heq ▸ List.mem_map_of_mem hc)
      rw [if_pos rfl, hn, add_zero]
    · have hne : key b ≠ key a := by
        intro heq
        exact h.1 (heq ▸ List.mem_map_of_mem ha)
      rw [if_neg hne, zero_add]
      exact ih h.2 ha

theorem abs_weightAt_le {xs : List α} {bound : ℤ} (h : ∀ a ∈ xs, |weight a| ≤ bound)
    (hbound : 0 ≤ bound) : |weightAt key weight k xs| ≤ xs.length * bound := by
  induction xs with
  | nil => simp
  | cons a xs ih =>
    have hr := ih fun b hb => h b (List.mem_cons_of_mem _ hb)
    have ha := h a (List.mem_cons_self ..)
    have hif : |if key a = k then weight a else 0| ≤ bound := by
      split_ifs
      · exact ha
      · simpa using hbound
    rw [weightAt_cons, List.length_cons]
    calc |(if key a = k then weight a else 0) + weightAt key weight k xs|
        ≤ |if key a = k then weight a else 0| + |weightAt key weight k xs| := abs_add_le _ _
      _ ≤ bound + xs.length * bound := add_le_add hif hr
      _ = (xs.length + 1 : ℕ) * bound := by push_cast; ring

end
