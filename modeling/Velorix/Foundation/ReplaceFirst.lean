import Mathlib.Data.List.Basic

/-! Lists in which the first element that has a replacement is replaced. -/
namespace List

variable {α : Type}

theorem mem_replaceF {f : α → Option α} {xs : List α} {b : α}
    (h : b ∈ xs.replaceF f) : b ∈ xs ∨ ∃ a ∈ xs, f a = some b := by
  induction xs with
  | nil => exact .inl h
  | cons a xs ih =>
    rw [List.replaceF] at h
    cases hfa : f a with
    | none =>
      rw [hfa] at h
      rcases mem_cons.mp h with rfl | h
      · exact .inl mem_cons_self
      · rcases ih h with h | ⟨a', ha', h⟩
        · exact .inl (mem_cons_of_mem a h)
        · exact .inr ⟨a', mem_cons_of_mem a ha', h⟩
    | some b' =>
      rw [hfa] at h
      rcases mem_cons.mp h with rfl | h
      · exact .inr ⟨a, mem_cons_self, hfa⟩
      · exact .inl (mem_cons_of_mem a h)

theorem map_replaceF {β : Type} {f : α → Option α} {g : α → β}
    (hg : ∀ a b, f a = some b → g b = g a) (xs : List α) : (xs.replaceF f).map g = xs.map g := by
  induction xs with
  | nil => rfl
  | cons a xs ih =>
    rw [List.replaceF]
    cases hfa : f a with
    | none => rw [map_cons, map_cons, ih]
    | some b => rw [map_cons, map_cons, hg a b hfa]

end List
