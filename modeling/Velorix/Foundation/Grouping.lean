import Velorix.Foundation.SortedMap

/-! Items grouped under keys, every group in the order in which its items came. -/
namespace SortedMap

variable {K V : Type} [LinearOrder K]

/-- Adds to the end of a group, which starts out empty. -/
def pushTo (grouped : SortedMap K (List V)) (key : K) (item : V) : SortedMap K (List V) :=
  grouped.insert key ((grouped.find? key).getD [] ++ [item])

def groupOf (key : V → Option K) (items : List V) (k : K) : List V :=
  items.filter fun item => key item = some k

theorem mem_groupOf {key : V → Option K} {xs : List V} {k : K} {item : V} :
    item ∈ groupOf key xs k ↔ item ∈ xs ∧ key item = some k := by
  rw [groupOf, List.mem_filter, decide_eq_true_eq]

/-- The map holds the items under their keys; items without a key are left out. -/
structure Groups (key : V → Option K) (items : List V) (grouped : SortedMap K (List V)) :
    Prop where
  group : ∀ k, (grouped.find? k).getD [] = groupOf key items k
  nonempty : ∀ k, grouped.find? k ≠ some []

namespace Groups

variable {key : V → Option K} {xs : List V} {grouped : SortedMap K (List V)} {item : V} {k : K}

theorem nil : Groups key [] ∅ := ⟨fun _ => rfl, fun _ h => nomatch h⟩

theorem push (h : Groups key xs grouped) (hk : key item = some k) :
    Groups key (xs ++ [item]) (pushTo grouped k item) := by
  unfold pushTo
  constructor
  · intro k'
    rw [find?_insert, groupOf, List.filter_append, List.filter_singleton, hk]
    split_ifs with hs
    · subst hs
      rw [Option.getD_some, h.group, groupOf]
      simp
    · rw [h.group, groupOf]
      simp [hs]
  · intro k'
    rw [find?_insert]
    split_ifs
    · simp
    · exact h.nonempty k'

theorem skip (h : Groups key xs grouped) (hk : key item = none) :
    Groups key (xs ++ [item]) grouped := by
  refine ⟨?_, h.nonempty⟩
  intro k'
  rw [h.group, groupOf, groupOf, List.filter_append, List.filter_singleton, hk]
  simp

theorem find?_eq_some (h : Groups key xs grouped) {group : List V} :
    grouped.find? k = some group ↔ group ≠ [] ∧ group = groupOf key xs k := by
  have hg := h.group k
  have hn := h.nonempty k
  cases hf : grouped.find? k with
  | none =>
    rw [hf, Option.getD_none] at hg
    constructor
    · intro hs
      cases hs
    · intro ⟨hne, heq⟩
      exact absurd (heq.trans hg.symm) hne
  | some found =>
    rw [hf, Option.getD_some] at hg
    rw [hf] at hn
    constructor
    · intro hs
      cases hs
      exact ⟨fun hnil => hn (congrArg some hnil), hg⟩
    · intro ⟨_, heq⟩
      rw [hg, heq]

end Groups

end SortedMap
