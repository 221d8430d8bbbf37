import Velorix.Foundation.SignedSum

/-! Sets with integer weights: finitely supported functions into the integers. Selection,
mapping and joining by key, with the ways in which they are additive. -/
namespace WeightedSet

open Finsupp

variable {α β K V W U : Type*}

/-- One element, if there is one, with a weight. -/
noncomputable def placed (element : Option β) (weight : ℤ) : β →₀ ℤ :=
  element.elim 0 fun b => single b weight

@[simp]
theorem placed_zero (element : Option β) : placed element 0 = 0 := by
  cases element <;> simp [placed]

theorem placed_add (element : Option β) (a b : ℤ) :
    placed element (a + b) = placed element a + placed element b := by
  cases element <;> simp [placed, single_add]

variable (f : α → Option β)

/-- Every element is mapped, or dropped, with its weight. -/
noncomputable def mapped (set : α →₀ ℤ) : β →₀ ℤ :=
  set.sum fun a weight => placed (f a) weight

@[simp]
theorem mapped_zero : mapped f 0 = 0 := sum_zero_index

theorem mapped_add (set other : α →₀ ℤ) : mapped f (set + other) = mapped f set + mapped f other :=
  sum_add_index' (fun _ => placed_zero _) fun _ => placed_add _

theorem mapped_sub (set other : α →₀ ℤ) :
    mapped f (set - other) = mapped f set - mapped f other := by
  rw [eq_sub_iff_add_eq, ← mapped_add, sub_add_cancel]

@[simp]
theorem mapped_single (a : α) (weight : ℤ) : mapped f (single a weight) = placed (f a) weight :=
  sum_single_index (placed_zero _)

variable (quantity : α → ℤ)

/-- The sum of a quantity over the elements, each taken with its weight. -/
noncomputable def weighted (set : α →₀ ℤ) : ℤ :=
  set.sum fun a weight => quantity a * weight

@[simp]
theorem weighted_zero : weighted quantity 0 = 0 := sum_zero_index

theorem weighted_add (set other : α →₀ ℤ) :
    weighted quantity (set + other) = weighted quantity set + weighted quantity other :=
  sum_add_index' (fun _ => mul_zero _) fun _ => mul_add _

@[simp]
theorem weighted_single (a : α) (weight : ℤ) :
    weighted quantity (single a weight) = quantity a * weight :=
  sum_single_index (mul_zero _)

theorem weighted_eq_zero {quantity : α → ℤ} {set : α →₀ ℤ}
    (h : ∀ a ∈ set.support, quantity a = 0) : weighted quantity set = 0 := by
  apply Finset.sum_eq_zero
  intro a ha
  show quantity a * set a = 0
  rw [h a ha, zero_mul]

open Classical in
noncomputable def kept (keep : K → Prop) (set : K × V →₀ ℤ) : K × V →₀ ℤ :=
  set.filter fun pair => keep pair.1

open Classical in
theorem kept_apply (keep : K → Prop) (set : K × V →₀ ℤ) (p : K × V) :
    kept keep set p = if keep p.1 then set p else 0 := filter_apply _ _ _

@[simp]
theorem kept_zero (keep : K → Prop) : kept keep (0 : K × V →₀ ℤ) = 0 := by
  classical exact filter_zero _

theorem kept_add (keep : K → Prop) (set other : K × V →₀ ℤ) :
    kept keep (set + other) = kept keep set + kept keep other := by
  classical exact filter_add

variable {keep : K → Prop} {p : K × V}

theorem kept_single_of_pos (h : keep p.1) (weight : ℤ) :
    kept keep (single p weight) = single p weight := by
  classical exact filter_single_of_pos (fun p : K × V => keep p.1) h

theorem kept_single_of_neg (h : ¬ keep p.1) (weight : ℤ) :
    kept keep (single p weight) = 0 := by
  classical exact filter_single_of_neg (fun p : K × V => keep p.1) h

section Keyed
variable [DecidableEq K]

noncomputable def keyWeight (set : K × V →₀ ℤ) (key : K) : ℤ :=
  weighted (fun pair => if pair.1 = key then 1 else 0) set

variable {set : K × V →₀ ℤ} {key : K}

theorem keyWeight_eq_of_single {value : V}
    (h : ∀ value' ≠ value, set (key, value') = 0) : keyWeight set key = set (key, value) := by
  have hs : keyWeight set key = (if key = key then 1 else 0) * set (key, value) := by
    refine Finset.sum_eq_single (key, value) ?_ ?_
    · rintro ⟨key', value'⟩ _ hne
      show (if key' = key then 1 else 0) * set (key', value') = 0
      by_cases hk : key' = key
      · subst hk
        rw [h value' (fun heq => hne (by rw [heq])), mul_zero]
      · rw [if_neg hk, zero_mul]
    · intro hn
      show (if key = key then 1 else 0) * set (key, value) = 0
      rw [notMem_support_iff.mp hn, mul_zero]
  rw [hs, if_pos rfl, one_mul]

theorem keyWeight_eq_zero (h : ∀ value, set (key, value) = 0) :
    keyWeight set key = 0 := by
  refine weighted_eq_zero ?_
  rintro ⟨key', value⟩ hm
  refine if_neg ?_
  rintro rfl
  exact mem_support_iff.mp hm (h value)

variable (f : V → W → Option U)

/-- The pair that two pairs of one key are joined to. -/
def joined (left : K × V) (right : K × W) : Option (K × U) :=
  if left.1 = right.1 then (f left.2 right.2).map fun value => (left.1, value) else none

variable {left : K × V} {right : K × W}

theorem joined_eq_some {f : V → W → Option U} {value : U}
    (hk : left.1 = right.1) (hv : f left.2 right.2 = some value) :
    joined f left right = some (left.1, value) := by
  rw [joined, if_pos hk, hv, Option.map_some]

theorem joined_eq_none
    (hk : left.1 ≠ right.1) : joined f left right = none := if_neg hk

/-- Pairs of one key are joined, with the product of their weights. -/
noncomputable def product (left : K × V →₀ ℤ) (right : K × W →₀ ℤ) : K × U →₀ ℤ :=
  left.sum fun p a => right.sum fun q b => placed (joined f p q) (a * b)

@[simp]
theorem product_zero_left (right : K × W →₀ ℤ) :
    product f (0 : K × V →₀ ℤ) right = 0 := sum_zero_index

@[simp]
theorem product_zero_right (left : K × V →₀ ℤ) : product f left (0 : K × W →₀ ℤ) = 0 := by
  simp [product]

theorem product_add_left (left other : K × V →₀ ℤ) (right : K × W →₀ ℤ) :
    product f (left + other) right = product f left right + product f other right := by
  apply sum_add_index'
  · intro p
    simp
  · intro p a b
    rw [← sum_add]
    apply sum_congr
    intro q _
    rw [add_mul, placed_add]

theorem product_add_right (left : K × V →₀ ℤ) (right other : K × W →₀ ℤ) :
    product f left (right + other) = product f left right + product f left other := by
  unfold product
  rw [← sum_add]
  apply sum_congr
  intro p _
  apply sum_add_index'
  · intro q
    simp
  · intro q a b
    rw [mul_add, placed_add]

@[simp]
theorem product_single (p : K × V) (q : K × W) (a b : ℤ) :
    product f (single p a) (single q b) = placed (joined f p q) (a * b) := by
  unfold product
  rw [sum_single_index, sum_single_index]
  · simp
  · simp

end Keyed

/-- The weighted set that a list of items adds up to. -/
noncomputable def ofItems (place : α → β) (weight : α → ℤ) (items : List α) : β →₀ ℤ :=
  (items.map fun a => single (place a) (weight a)).sum

variable (place : α → β) (weight : α → ℤ)

@[simp]
theorem ofItems_cons (a : α) (xs : List α) :
    ofItems place weight (a :: xs) = single (place a) (weight a) + ofItems place weight xs := rfl

theorem ofItems_append (xs others : List α) :
    ofItems place weight (xs ++ others) =
      ofItems place weight xs + ofItems place weight others := by
  simp [ofItems]

theorem ofItems_apply [DecidableEq β] (xs : List α) (b : β) :
    ofItems place weight xs b = weightAt place weight b xs := by
  induction xs with
  | nil => rfl
  | cons a xs ih => rw [ofItems_cons, Finsupp.add_apply, ih, weightAt_cons, single_apply]

end WeightedSet
