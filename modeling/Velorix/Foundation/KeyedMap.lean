import Velorix.Foundation.HashMap

/-! Maps whose values know the key at which they are stored. -/

structure KeyedMap {K V : Type} [DecidableEq K] (key : V → K) where
  map : HashMap K V
  keyed : ∀ {k v}, map.lookup k = some v → key v = k

namespace KeyedMap

variable {K V : Type} [DecidableEq K] {key : V → K}

def empty : KeyedMap key where
  map := ∅
  keyed h := by simp at h

def lookup (m : KeyedMap key) (k : K) : Option V := m.map.lookup k

def keys (m : KeyedMap key) : List K := m.map.keys

def insert (m : KeyedMap key) (v : V) : KeyedMap key where
  map := m.map.insert (key v) v
  keyed h := by
    rw [HashMap.lookup_insert_eq] at h
    split_ifs at h with hkey
    · cases h
      exact hkey.symm
    · exact m.keyed h

theorem key_of_lookup {m : KeyedMap key} {k : K} {v : V} (h : m.lookup k = some v) : key v = k :=
  m.keyed h

@[simp] theorem lookup_empty (k : K) : (empty : KeyedMap key).lookup k = none :=
  AList.lookup_empty k

@[simp]
theorem lookup_insert (m : KeyedMap key) (v : V) (k : K) :
    (m.insert v).lookup k = if k = key v then some v else m.lookup k :=
  HashMap.lookup_insert_eq _ _ _ _

theorem lookup_insert_of_some {m : KeyedMap key} {v v' : V} {k : K} (hf : m.lookup (key v) = none)
    (h : m.lookup k = some v') : (m.insert v).lookup k = some v' := by
  rw [lookup_insert, if_neg, h]
  rintro rfl
  rw [hf] at h
  cases h

theorem mem_keys {m : KeyedMap key} {k : K} : k ∈ m.keys ↔ ∃ v, m.lookup k = some v := by
  constructor
  · exact HashMap.exists_lookup_of_mem_keys
  · rintro ⟨v, hv⟩
    exact HashMap.mem_keys_of_lookup hv

end KeyedMap
