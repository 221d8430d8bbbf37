import Velorix.Foundation.NestedMap

/-! Maps whose keys are moments: entries are dropped by their key, and the latest key up to a
bound is looked up. -/

namespace SortedMap

open List

variable {K V : Type*} [LinearOrder K]

def filter (keep : K → V → Bool) (m : SortedMap K V) : SortedMap K V :=
  ⟨m.entries.filter fun e => keep e.1 e.2, m.sorted.filter _⟩

def floor? (m : SortedMap K V) (bound : K) : Option K :=
  (m.keys.filter (· ≤ bound)).getLast?

variable {m : SortedMap K V} {keep : K → V → Bool} {bound k : K}

theorem mem_of_floor? (h : m.floor? bound = some k) : k ∈ m.keys ∧ k ≤ bound := by
  simpa using mem_filter.mp (mem_of_getLast? h)

theorem le_floor? {other : K} (ho : other ∈ m.keys) (hb : other ≤ bound) :
    ∃ k, m.floor? bound = some k ∧ other ≤ k := by
  have hm : other ∈ m.keys.filter (· ≤ bound) := mem_filter.mpr ⟨ho, decide_eq_true hb⟩
  exact ⟨_, getLast?_eq_some_getLast (ne_nil_of_mem hm),
    ((m.keys_sorted.filter _).imp le_of_lt).rel_getLast hm⟩

theorem find?_filter {v : V} :
    (m.filter keep).find? k = some v ↔ m.find? k = some v ∧ keep k v = true := by
  rw [← mem_entries_iff, ← mem_entries_iff]
  exact mem_filter

/-- All entries but the one at the floor may be dropped. -/
theorem floor?_filter (h : ∀ k v, m.floor? bound = some k → m.find? k = some v → keep k v = true) :
    ((m.filter keep).floor? bound).bind (m.filter keep).find? =
      (m.floor? bound).bind m.find? := by
  have hsub : (m.filter keep).keys ⊆ m.keys := map_subset _ (filter_subset_self _)
  cases hf : m.floor? bound with
  | none =>
    cases hf' : (m.filter keep).floor? bound with
    | none => rfl
    | some k =>
      obtain ⟨hk, hb⟩ := mem_of_floor? hf'
      obtain ⟨_, hs, -⟩ := le_floor? (hsub hk) hb
      cases hf.symm.trans hs
  | some k =>
    obtain ⟨hk, hb⟩ := mem_of_floor? hf
    obtain ⟨v, hv⟩ := mem_keys_iff.mp hk
    have hkept := find?_filter.mpr ⟨hv, h k v hf hv⟩
    obtain ⟨k', hf', hle⟩ := le_floor? (mem_keys_iff.mpr ⟨v, hkept⟩) hb
    obtain ⟨hk', hb'⟩ := mem_of_floor? hf'
    obtain ⟨_, hs, hle'⟩ := le_floor? (hsub hk') hb'
    cases hf.symm.trans hs
    rw [hf', le_antisymm hle' hle]
    exact hkept.trans hv.symm

end SortedMap

namespace NestedMap

variable {K L V : Type*} [LinearOrder K] [LinearOrder L]

/-- The rows of some keys are replaced, one after the other. -/
def mapRows (f : K → SortedMap L V → SortedMap L V) (keys : List K) (m : NestedMap K L V) :
    NestedMap K L V :=
  keys.foldl (fun m k => m.setRow k (f k (m.row k))) m

/-- What the replacement of a row keeps, all replacements keep. -/
theorem row_mapRows {f : K → SortedMap L V → SortedMap L V} {P : SortedMap L V → Prop} {k : K}
    {keys : List K} (hf : k ∈ keys → ∀ row, P row → P (f k row)) {m : NestedMap K L V}
    (hm : P (m.row k)) : P ((m.mapRows f keys).row k) := by
  induction keys generalizing m with
  | nil => exact hm
  | cons other keys ih =>
    refine ih (fun h => hf (List.mem_cons_of_mem _ h)) ?_
    rw [row_setRow]
    split_ifs with h
    · subst h
      exact hf List.mem_cons_self _ hm
    · exact hm

end NestedMap
