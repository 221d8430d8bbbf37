import Mathlib.Tactic

/-!
Finite sets of ordinals as lists of half-open spans.

Canonical lists, whose spans are nonempty, increase and never touch, are the maximal runs of
their set, and a set has only one.
-/

namespace Spans

open Finset

def covers (l : List (ℕ × ℕ)) (x : ℕ) : Bool := l.any fun s => s.1 ≤ x && x < s.2

structure Canonical (bound : ℕ) (l : List (ℕ × ℕ)) : Prop where
  sorted : l.Pairwise fun s t => s.2 < t.1
  within : ∀ s ∈ l, s.1 < s.2 ∧ s.2 ≤ bound

/-- One pass over the spans with one pending: it goes where it fits and takes in what it touches. -/
def insert (p : ℕ × ℕ) : List (ℕ × ℕ) → List (ℕ × ℕ)
  | [] => [p]
  | s :: l =>
    if s.2 < p.1 then s :: insert p l
    else if p.2 < s.1 then p :: insert s l
    else insert (min p.1 s.1, max p.2 s.2) l

/-- The gaps between the spans from a cursor on. -/
def gaps (bound cursor : ℕ) : List (ℕ × ℕ) → List (ℕ × ℕ)
  | [] => if cursor < bound then [(cursor, bound)] else []
  | s :: l => if cursor < s.1 then (cursor, s.1) :: gaps bound s.2 l else gaps bound s.2 l

variable {l l' : List (ℕ × ℕ)} {s p : ℕ × ℕ} {bound x : ℕ}

theorem covers_iff : covers l x = true ↔ ∃ s ∈ l, s.1 ≤ x ∧ x < s.2 := by
  simp [covers]

theorem covers_cons : covers (s :: l) x = true ↔ (s.1 ≤ x ∧ x < s.2) ∨ covers l x = true := by
  simp [covers]

namespace Canonical

theorem nil : Canonical bound [] := ⟨.nil, by simp⟩

theorem cons_iff : Canonical bound (s :: l) ↔
    (s.1 < s.2 ∧ s.2 ≤ bound) ∧ (∀ t ∈ l, s.2 < t.1) ∧ Canonical bound l := by
  constructor
  · rintro ⟨hs, hw⟩
    exact ⟨hw s List.mem_cons_self, (List.pairwise_cons.mp hs).1, (List.pairwise_cons.mp hs).2,
      fun t ht => hw t (List.mem_cons_of_mem s ht)⟩
  · rintro ⟨hw, hlt, h⟩
    exact ⟨List.pairwise_cons.mpr ⟨hlt, h.sorted⟩, List.forall_mem_cons.mpr ⟨hw, h.within⟩⟩

theorem lt_of_covers (h : Canonical bound (s :: l)) (hx : covers l x = true) : s.2 < x := by
  obtain ⟨t, ht, hle, -⟩ := covers_iff.mp hx
  exact ((cons_iff.mp h).2.1 t ht).trans_le hle

/-- A set is covered by one canonical list. -/
theorem ext (h : Canonical bound l) (h' : Canonical bound l')
    (heq : ∀ x, covers l x = true ↔ covers l' x = true) : l = l' := by
  induction l generalizing l' with
  | nil =>
    cases l' with
    | nil => rfl
    | cons s' l' =>
      simpa [covers] using
        (heq s'.1).mpr (covers_cons.mpr (.inl ⟨le_rfl, (cons_iff.mp h').1.1⟩))
  | cons s l ih =>
    cases l' with
    | nil =>
      simpa [covers] using
        (heq s.1).mp (covers_cons.mpr (.inl ⟨le_rfl, (cons_iff.mp h).1.1⟩))
    | cons s' l' =>
      obtain ⟨⟨hs, -⟩, -, hl⟩ := cons_iff.mp h
      obtain ⟨⟨hs', -⟩, -, hl'⟩ := cons_iff.mp h'
      have hlt {x : ℕ} := h.lt_of_covers (x := x)
      have hlt' {x : ℕ} := h'.lt_of_covers (x := x)
      simp only [covers_cons] at heq
      have h1 : s.1 = s'.1 := by grind
      have h2 : s.2 = s'.2 := by
        have he := heq s.2
        have he' := heq s'.2
        grind
      rw [Prod.ext h1 h2, ih hl hl' fun x => by grind]

end Canonical

theorem covers_insert : covers (insert p l) x = true ↔ (p.1 ≤ x ∧ x < p.2) ∨ covers l x = true := by
  fun_induction insert p l with
  | case1 => simp [covers]
  | case2 p s l hlt ih => rw [covers_cons, ih, covers_cons]; tauto
  | case3 p s l _ hlt ih => rw [covers_cons, ih, covers_cons]
  | case4 p s l hle hle' ih =>
    rw [ih, covers_cons]
    grind

theorem lt_of_mem_insert {a : ℕ} (hp : a < p.1) (hl : ∀ s ∈ l, a < s.1) :
    ∀ s ∈ insert p l, a < s.1 := by
  fun_induction insert p l with
  | case1 => simpa using hp
  | case2 p s l _ ih => grind
  | case3 p s l _ _ ih => grind
  | case4 p s l _ _ ih => grind

theorem Canonical.insert (h : Canonical bound l) (hp : p.1 < p.2) (hb : p.2 ≤ bound) :
    Canonical bound (insert p l) := by
  fun_induction Spans.insert p l with
  | case1 p => exact cons_iff.mpr ⟨⟨hp, hb⟩, by simp, h⟩
  | case2 p s l hlt ih =>
    obtain ⟨hs, hsl, hl⟩ := cons_iff.mp h
    exact cons_iff.mpr ⟨hs, lt_of_mem_insert hlt hsl, ih hl hp hb⟩
  | case3 p s l _ hlt ih =>
    obtain ⟨hs, hsl, hl⟩ := cons_iff.mp h
    exact cons_iff.mpr ⟨⟨hp, hb⟩, lt_of_mem_insert hlt fun t ht =>
      (hlt.trans hs.1).trans (hsl t ht), ih hl hs.1 hs.2⟩
  | case4 p s l _ _ ih =>
    obtain ⟨hs, hsl, hl⟩ := cons_iff.mp h
    exact ih hl (by grind) (by grind)

theorem gaps_spec (cursor : ℕ) (h : Canonical bound l) (hl : ∀ s ∈ l, cursor ≤ s.1)
    (hcursor : cursor ≤ bound) : Canonical bound (gaps bound cursor l) ∧
      (∀ s ∈ gaps bound cursor l, cursor ≤ s.1) ∧ ∀ x, covers (gaps bound cursor l) x = true ↔
        cursor ≤ x ∧ x < bound ∧ covers l x = false := by
  fun_induction gaps bound cursor l with
  | case1 cursor hlt =>
    exact ⟨Canonical.cons_iff.mpr ⟨⟨hlt, le_rfl⟩, by simp, .nil⟩, by simp, by simp [covers]⟩
  | case2 cursor hge => exact ⟨.nil, by simp, by simp [covers]; omega⟩
  | case3 cursor s l hlt ih =>
    obtain ⟨hs, hsl, hcl⟩ := Canonical.cons_iff.mp h
    obtain ⟨hc, hle, hcov⟩ := ih hcl (fun t ht => (hsl t ht).le) hs.2
    have hlater {x : ℕ} := h.lt_of_covers (x := x)
    refine ⟨Canonical.cons_iff.mpr ⟨⟨hlt, by omega⟩, fun t ht => hs.1.trans_le (hle t ht), hc⟩,
      by grind, fun x => ?_⟩
    rw [covers_cons, hcov, ← Bool.not_eq_true, ← Bool.not_eq_true, covers_cons]
    grind
  | case4 cursor s l hge ih =>
    obtain ⟨hs, hsl, hcl⟩ := Canonical.cons_iff.mp h
    obtain ⟨hc, hle, hcov⟩ := ih hcl (fun t ht => (hsl t ht).le) hs.2
    have hlater {x : ℕ} := h.lt_of_covers (x := x)
    refine ⟨hc, by grind, fun x => ?_⟩
    rw [hcov, ← Bool.not_eq_true, ← Bool.not_eq_true, covers_cons]
    grind

theorem card_covers (h : Canonical bound l) :
    ((Finset.range bound).filter fun x => covers l x).card = (l.map fun s => s.2 - s.1).sum := by
  induction l with
  | nil => simp [covers]
  | cons s l ih =>
    obtain ⟨hs, -, hl⟩ := Canonical.cons_iff.mp h
    have hu : ((Finset.range bound).filter fun x => covers (s :: l) x) =
        Finset.Ico s.1 s.2 ∪ (Finset.range bound).filter fun x => covers l x := by
      ext x
      simp only [mem_filter, mem_range, covers_cons, mem_union, mem_Ico]
      grind
    have hd : Disjoint (Finset.Ico s.1 s.2)
        ((Finset.range bound).filter fun x => covers l x) := by
      refine disjoint_left.mpr fun x hx hx' => ?_
      have := h.lt_of_covers (mem_filter.mp hx').2
      simp at hx
      omega
    rw [hu, card_union_of_disjoint hd, ih hl]
    simp

end Spans
