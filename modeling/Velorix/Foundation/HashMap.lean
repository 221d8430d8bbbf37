import Mathlib.Data.List.AList

/-! Hash maps: association lists in which the order of the entries carries no meaning. -/

abbrev HashMap (K V : Type) := AList fun _ : K => V

namespace HashMap

open AList

variable {K V : Type}

def values (m : HashMap K V) : List V := m.entries.map Sigma.snd

variable [DecidableEq K] {m : HashMap K V}

theorem mem_values_iff {v : V} : v ∈ m.values ↔ ∃ k, m.lookup k = some v := by
  unfold values
  rw [List.mem_map]
  constructor
  · rintro ⟨⟨k, w⟩, hm, rfl⟩
    exact ⟨k, mem_lookup_iff.mpr hm⟩
  · intro ⟨k, hk⟩
    exact ⟨⟨k, v⟩, mem_lookup_iff.mp hk, rfl⟩

theorem mem_keys_of_lookup {k : K} {v : V} (h : m.lookup k = some v) : k ∈ m.keys :=
  mem_keys.mp (lookup_isSome.mp (Option.isSome_of_eq_some h))

theorem exists_lookup_of_mem_keys {k : K} (h : k ∈ m.keys) : ∃ v, m.lookup k = some v :=
  Option.isSome_iff_exists.mp (lookup_isSome.mpr (mem_keys.mpr h))

@[simp]
theorem lookup_insert_eq (m : HashMap K V) (k k' : K) (v : V) :
    (m.insert k v).lookup k' = if k' = k then some v else m.lookup k' := by
  split_ifs with h
  · rw [h]
    exact lookup_insert m
  · exact lookup_insert_ne h

theorem of_lookup_insert {k k' : K} {v v' : V}
    (h : (m.insert k v).lookup k' = some v') : k' = k ∧ v' = v ∨ m.lookup k' = some v' := by
  rw [lookup_insert_eq] at h
  split_ifs at h with hk
  · exact .inl ⟨hk, (Option.some.inj h).symm⟩
  · exact .inr h

theorem lookup_insert_of_some {k k' : K} {v v' : V}
    (hn : m.lookup k = none) (h : m.lookup k' = some v') : (m.insert k v).lookup k' = some v' := by
  rw [lookup_insert_eq, if_neg, h]
  rintro rfl
  rw [hn] at h
  cases h

/-- The same map, iterated in another order. -/
def Reordered (m m' : HashMap K V) : Prop := m.entries.Perm m'.entries

theorem Reordered.lookup_eq {m m' : HashMap K V} (h : Reordered m m') (k : K) :
    m.lookup k = m'.lookup k := perm_lookup h

end HashMap
