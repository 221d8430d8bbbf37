import Mathlib.Tactic

/-! Ranges that follow on one another without gaps, and how far a list of ranges reaches. -/
namespace Contiguous

open List

variable {α β : Type*} [LinearOrder α] (lo hi : β → α)

/-- The ranges lead from one position to another, each starting where the one before ends. -/
def Tiles : α → α → List β → Prop
  | a, b, [] => a = b
  | a, b, r :: rs => lo r = a ∧ Tiles (hi r) b rs

/-- How far the ranges reach without a gap, as long as they are done. -/
def reach (done : β → Bool) : α → List β → α
  | a, [] => a
  | a, r :: rs => if lo r = a ∧ done r then reach done (hi r) rs else a

/-- Ranges in their order, none of which overlaps another. -/
def Ordered (ranges : List β) : Prop := ranges.Pairwise fun r s => hi r ≤ lo s

variable {lo hi} {done : β → Bool} {ranges tiles : List β} {a b : α}

theorem ordered_of_sorted (hsort : ranges.Pairwise fun r s => lo r ≤ lo s)
    (hv : ∀ r ∈ ranges, lo r < hi r)
    (ha : ranges.Pairwise fun r s => ¬ (lo r < hi s ∧ lo s < hi r)) : Ordered lo hi ranges := by
  apply (hsort.and ha).imp_of_mem
  intro r s _ hs ⟨hle, ho⟩
  by_contra hlt
  exact ho ⟨hle.trans_lt (hv s hs), not_le.mp hlt⟩

variable (lo hi) in
theorem tiles_of_reach (done : β → Bool) (a : α) (ranges : List β) :
    ∃ front, Tiles lo hi a (reach lo hi done a ranges) front ∧
      ∀ r ∈ front, r ∈ ranges ∧ done r = true := by
  induction ranges generalizing a with
  | nil => exact ⟨[], rfl, fun _ hm => absurd hm not_mem_nil⟩
  | cons r rs ih =>
    unfold reach
    split_ifs with hn
    · obtain ⟨front, htiles, hf⟩ := ih (hi r)
      refine ⟨r :: front, ⟨hn.1, htiles⟩, ?_⟩
      intro s hs
      rcases mem_cons.mp hs with rfl | hs
      · exact ⟨mem_cons_self, hn.2⟩
      · exact ⟨mem_cons_of_mem _ (hf s hs).1, (hf s hs).2⟩
    · exact ⟨[], rfl, fun _ hm => absurd hm not_mem_nil⟩

theorem le_reach (hv : ∀ r ∈ ranges, lo r < hi r) : a ≤ reach lo hi done a ranges := by
  induction ranges generalizing a with
  | nil => exact le_rfl
  | cons r rs ih =>
    unfold reach
    split_ifs with hn
    · have hr : a < hi r := hn.1 ▸ hv r mem_cons_self
      exact hr.le.trans (ih fun s hs => hv s (mem_cons_of_mem _ hs))
    · exact le_rfl

theorem Tiles.start_le (h : Tiles lo hi a b tiles) (hv : ∀ r ∈ tiles, lo r < hi r) {r : β}
    (hr : r ∈ tiles) : a ≤ lo r := by
  induction tiles generalizing a with
  | nil => cases hr
  | cons t ts ih =>
    rcases mem_cons.mp hr with rfl | hr
    · exact h.1.ge
    · have ht : a < hi t := h.1 ▸ hv t mem_cons_self
      exact ht.le.trans (ih h.2 (fun s hs => hv s (mem_cons_of_mem _ hs)) hr)

/-- Ranges reach at least as far as any tiling by done ones among them. -/
theorem Tiles.le_reach (htiles : Tiles lo hi a b tiles) (ho : Ordered lo hi ranges)
    (hv : ∀ r ∈ ranges, lo r < hi r) (hf : ∀ r ∈ ranges, a ≤ lo r)
    (hm : ∀ r ∈ tiles, r ∈ ranges ∧ done r = true) : b ≤ reach lo hi done a ranges := by
  induction ranges generalizing a tiles with
  | nil =>
    cases tiles with
    | nil => exact htiles.ge
    | cons t ts => exact absurd (hm t mem_cons_self).1 not_mem_nil
  | cons r rs ih =>
    cases tiles with
    | nil =>
      have hstart : a = b := htiles
      exact hstart ▸ Contiguous.le_reach hv
    | cons t ts =>
      obtain ⟨hstart, hrest⟩ := htiles
      obtain ⟨hl, hro⟩ := pairwise_cons.mp ho
      have hr := hv r mem_cons_self
      rcases mem_cons.mp (hm t mem_cons_self).1 with rfl | ht
      · unfold reach
        rw [if_pos ⟨hstart, (hm t mem_cons_self).2⟩]
        have hv' : ∀ s ∈ rs, lo s < hi s := fun s hs => hv s (mem_cons_of_mem _ hs)
        refine ih hrest hro hv' hl ?_
        intro s hs
        obtain ⟨hin, hd⟩ := hm s (mem_cons_of_mem _ hs)
        refine ⟨(mem_cons.mp hin).resolve_left ?_, hd⟩
        -- a later tile starts after the first one ends
        rintro rfl
        have hle := hrest.start_le
          (fun q hq => hv q (hm q (mem_cons_of_mem _ hq)).1) hs
        exact absurd hr (not_lt.mpr hle)
      · have hle : hi r ≤ a := hstart ▸ hl t ht
        exact absurd (hle.trans (hf r mem_cons_self)) (not_le.mpr hr)

end Contiguous
