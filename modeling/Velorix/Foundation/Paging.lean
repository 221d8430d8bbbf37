import Mathlib.Tactic

/-! Lists read page by page: each page comes with a token for the next one, or none at the end. -/

namespace Paging

open List

variable {α τ ε : Type}

/-- One page after the other, of the given sizes, until a page has no token. -/
def follow (page : Option τ → ℕ → Except ε (List α × Option τ)) (token : Option τ) :
    List ℕ → Except ε (List (List α) × Option τ)
  | [] => .ok ([], token)
  | size :: sizes => do
    let (items, next) ← page token size
    if next.isNone then return ([items], none)
    let (pages, last) ← follow page next sizes
    return (items :: pages, last)

variable {page : Option τ → ℕ → Except ε (List α × Option τ)} {xs : List α}

/-- Whatever the sizes, the pages cut the list into pieces, and the last one has no token. -/
def Exact (page : Option τ → ℕ → Except ε (List α × Option τ)) (items : List α) : Prop :=
  ∀ sizes : List ℕ, sizes ≠ [] → (∀ size ∈ sizes, 1 ≤ size) →
    ∃ pages token, follow page none sizes = .ok (pages, token) ∧
      pages.flatten = items.take sizes.sum ∧ (token = none ↔ items.length ≤ sizes.sum)

/-- The page of a size at an offset, with the token of the offset after it. -/
def slice (items : List α) (tokenAt : ℕ → τ) (offset size : ℕ) : List α × Option τ :=
  ((items.drop offset).take size,
    if offset + size < items.length then some (tokenAt (offset + size)) else none)

theorem slice_eq (tokenAt : ℕ → τ) (offset size : ℕ) :
    slice xs tokenAt offset size = ((xs.drop offset).take (min (offset + size) xs.length - offset),
      if min (offset + size) xs.length < xs.length then
        some (tokenAt (min (offset + size) xs.length)) else none) := by
  unfold slice
  rcases lt_or_ge (offset + size) xs.length with hlt | hge
  · simp [hlt, hlt.le]
  · simp [hge, hge.not_gt, add_comm size]

/-- Pages that are slices, at the offset which their token stands for, are exact. -/
theorem exact_of_slice (tokenAt : ℕ → τ)
    (hfirst : ∀ size, 1 ≤ size → page none size = .ok (slice xs tokenAt 0 size))
    (hn : ∀ offset size, 0 < offset → offset < xs.length → 1 ≤ size →
      page (some (tokenAt offset)) size = .ok (slice xs tokenAt offset size)) : Exact page xs := by
  have hfollow (sizes : List ℕ) (hpos : ∀ size ∈ sizes, 1 ≤ size) (offset : ℕ) (t : Option τ)
      (ht : ∀ size, 1 ≤ size → page t size = .ok (slice xs tokenAt offset size)) :
      ∃ pages last, follow page t sizes = .ok (pages, last) ∧
        pages.flatten = (xs.drop offset).take sizes.sum ∧
        (sizes ≠ [] ∨ t ≠ none ∧ offset < xs.length →
          (last = none ↔ xs.length ≤ offset + sizes.sum)) := by
    induction sizes generalizing offset t with
    | nil =>
      refine ⟨[], t, rfl, by simp, fun h => ?_⟩
      obtain ⟨hsome, hlt⟩ := h.resolve_left (by simp)
      simpa [hsome] using hlt
    | cons size sizes ih =>
      obtain ⟨hs, hpos⟩ := forall_mem_cons.mp hpos
      by_cases hlt : offset + size < xs.length
      · obtain ⟨pages, last, hf, hp, hl⟩ := ih hpos (offset + size) (some (tokenAt (offset + size)))
          fun size' => hn _ size' (by omega) hlt
        refine ⟨(xs.drop offset).take size :: pages, last, ?_, ?_, fun _ => ?_⟩
        · simp [follow, ht size hs, slice, hlt, hf, bind, Except.bind, pure, Except.pure]
        · rw [flatten_cons, hp, sum_cons, take_add, drop_drop]
        · rw [hl (.inr ⟨by simp, hlt⟩), sum_cons, add_assoc]
      · refine ⟨[(xs.drop offset).take size], none, ?_, ?_, fun _ => ?_⟩
        · simp [follow, ht size hs, slice, hlt, bind, Except.bind, pure, Except.pure]
        · have hlen : (xs.drop offset).length ≤ size := by simp; omega
          rw [flatten_singleton, take_of_length_le hlen,
            take_of_length_le (hlen.trans (by simp))]
        · simp
          omega
  intro sizes hne hpos
  obtain ⟨pages, last, hf, hp, hl⟩ := hfollow sizes hpos 0 none hfirst
  exact ⟨pages, last, hf, hp, by simpa using hl (.inl hne)⟩

end Paging
