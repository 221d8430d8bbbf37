import Mathlib.Data.Set.Card

/-! Derivation from a set of first facts along a relation: the facts within a number of steps, the
least closed set, and rounds that look only at the facts of the round before. -/
namespace Derivation

variable {α : Type*} {A S F : Set α} {R : α → α → Prop} {m n : ℕ}

/-- The facts that at most `n` steps derive. -/
def within (A : Set α) (R : α → α → Prop) : ℕ → Set α
  | 0 => A
  | n + 1 => within A R n ∪ {b | ∃ a ∈ within A R n, R a b}

def derivable (A : Set α) (R : α → α → Prop) : Set α := ⋃ n, within A R n

structure Closed (A : Set α) (R : α → α → Prop) (S : Set α) : Prop where
  first : A ⊆ S
  step : ∀ a ∈ S, ∀ b, R a b → b ∈ S

theorem within_mono (h : m ≤ n) : within A R m ⊆ within A R n := by
  induction n, h using Nat.le_induction with
  | base => exact subset_rfl
  | succ n _ ih => exact ih.trans Set.subset_union_left

theorem within_subset_derivable (n : ℕ) : within A R n ⊆ derivable A R :=
  Set.subset_iUnion (within A R) n

theorem Closed.within_subset (h : Closed A R S) (n : ℕ) : within A R n ⊆ S := by
  induction n with
  | zero => exact h.first
  | succ n ih =>
    rintro b (hb | ⟨a, ha, hab⟩)
    · exact ih hb
    · exact h.step a (ih ha) b hab

theorem isLeast_derivable : IsLeast {S | Closed A R S} (derivable A R) := by
  refine ⟨⟨within_subset_derivable 0, ?_⟩, fun S h => Set.iUnion_subset h.within_subset⟩
  intro a ha b hab
  obtain ⟨n, hn⟩ := Set.mem_iUnion.mp ha
  exact within_subset_derivable (n + 1) (.inr ⟨a, hn, hab⟩)

theorem derivable_eq_within (h : within A R (n + 1) ⊆ within A R n) :
    derivable A R = within A R n := by
  refine (isLeast_derivable.2 ⟨within_mono n.zero_le, ?_⟩).antisymm (within_subset_derivable n)
  intro a ha b hab
  exact h (.inr ⟨a, ha, hab⟩)

theorem within_succ (hF : F ⊆ within A R n)
    (h : ∀ a ∈ within A R n, a ∉ F → ∀ b, R a b → b ∈ within A R n) :
    within A R (n + 1) = within A R n ∪ {b | ∃ a ∈ F, R a b} := by
  apply Set.Subset.antisymm
  · rintro b (hb | ⟨a, ha, hab⟩)
    · exact .inl hb
    · by_cases haF : a ∈ F
      · exact .inr ⟨a, haF, hab⟩
      · exact .inl (h a ha haF b hab)
  · rintro b (hb | ⟨a, ha, hab⟩)
    · exact .inl hb
    · exact .inr ⟨a, hF ha, hab⟩

theorem encard_list {l : List α} (h : l.Nodup) : {a | a ∈ l}.encard = l.length := by
  classical
  rw [← List.coe_toFinset, Set.encard_coe_eq_coe_finsetCard, List.toFinset_card_of_nodup h]

end Derivation
