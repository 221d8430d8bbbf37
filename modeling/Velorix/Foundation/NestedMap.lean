import Velorix.Foundation.SortedMap

/-! Two-level maps that never hold an empty row, so that a map is determined by its
cells. -/

/-- Rows of cells, both in key order; a row without cells is not stored. -/
structure NestedMap (K L V : Type*) [LinearOrder K] [LinearOrder L] where
  rows : SortedMap K (SortedMap L V)
  nonempty : ∀ k row, rows.find? k = some row → row.isEmpty = false

namespace NestedMap

open SortedMap List

variable {K L V : Type*} [LinearOrder K] [LinearOrder L]

theorem rows_injective :
    Function.Injective (rows : NestedMap K L V → SortedMap K (SortedMap L V)) := by
  rintro ⟨m, _⟩ ⟨n, _⟩ h
  cases h
  rfl

instance [DecidableEq V] : DecidableEq (NestedMap K L V) := fun m n =>
  decidable_of_iff (m.rows = n.rows) rows_injective.eq_iff

instance : EmptyCollection (NestedMap K L V) := ⟨⟨∅, by simp⟩⟩

variable (m : NestedMap K L V)

def row (k : K) : SortedMap L V := (m.rows.find? k).getD ∅

def get (k : K) (l : L) : Option V := (m.row k).find? l

/-- Stores a row, or drops it when it has no cells. -/
def setRow (k : K) (row : SortedMap L V) : NestedMap K L V :=
  if h : row.isEmpty = true then
    ⟨m.rows.erase k, fun k' row' hfind => by
      rw [find?_erase] at hfind
      split_ifs at hfind
      exact m.nonempty k' row' hfind⟩
  else
    ⟨m.rows.insert k row, fun k' row' hfind => by
      rw [find?_insert] at hfind
      split_ifs at hfind
      · cases hfind
        simpa using h
      · exact m.nonempty k' row' hfind⟩

/-- Stores a cell, or removes it when there is nothing to store. -/
def set (m : NestedMap K L V) (k : K) (l : L) (cell : Option V) : NestedMap K L V :=
  m.setRow k ((m.row k).set l cell)

def values (m : NestedMap K L V) : List V := m.rows.values.flatMap SortedMap.values

/-- Overwrites cells by a map of replacements, row by row. -/
def patch (m : NestedMap K L V) (replacements : NestedMap K L (Option V)) : NestedMap K L V :=
  replacements.rows.entries.foldl (fun m e => m.setRow e.1 ((m.row e.1).patch e.2)) m

@[simp] theorem get_empty (k : K) (l : L) : (∅ : NestedMap K L V).get k l = none := rfl

@[simp]
theorem row_setRow (k k' : K) (row : SortedMap L V) :
    (m.setRow k row).row k' = if k = k' then row else m.row k' := by
  unfold setRow NestedMap.row
  split_ifs with he hk hk
  · have : row = ∅ := SortedMap.ext (by simpa using SortedMap.isEmpty_iff.mp he)
    simp [hk, this]
  · simp [find?_erase, hk]
  · simp [hk]
  · simp [find?_insert, hk]

@[simp]
theorem get_set (k k' : K) (l l' : L) (cell : Option V) :
    (m.set k l cell).get k' l' = if k = k' ∧ l = l' then cell else m.get k' l' := by
  rw [get, set, row_setRow]
  by_cases hk : k = k'
  · subst hk
    by_cases hl : l = l' <;> simp [find?_set, hl, get]
  · simp [hk, get]

theorem find?_rows (k : K) :
    m.rows.find? k = if (m.row k).isEmpty = true then none else some (m.row k) := by
  unfold row
  rcases hf : m.rows.find? k with _ | row
  · rfl
  · simp [m.nonempty k row hf]

theorem ext_row {m n : NestedMap K L V} (h : ∀ k, m.row k = n.row k) : m = n := by
  apply rows_injective
  apply SortedMap.ext
  intro k
  rw [find?_rows, find?_rows, h k]

theorem ext {m n : NestedMap K L V} (h : ∀ k l, m.get k l = n.get k l) : m = n :=
  ext_row fun k => SortedMap.ext (h k)

private theorem row_foldl_patch {l : List (K × SortedMap L (Option V))}
    (hs : l.Pairwise fun a b => a.1 < b.1) (m : NestedMap K L V) (k : K) :
    (l.foldl (fun m e => m.setRow e.1 ((m.row e.1).patch e.2)) m).row k =
      (m.row k).patch ((SortedMap.lookupEntry k l).getD ∅) := by
  induction l generalizing m with
  | nil => rfl
  | cons e rest ih =>
    rw [foldl_cons, ih (pairwise_cons.mp hs).2, row_setRow]
    by_cases hk : e.1 = k
    · subst hk
      rw [if_pos rfl, lookupEntry_tail hs]
      simp [SortedMap.lookupEntry, SortedMap.patch]
    · simp [SortedMap.lookupEntry, hk]

@[simp]
theorem row_patch (replacements : NestedMap K L (Option V)) (k : K) :
    (m.patch replacements).row k = (m.row k).patch (replacements.row k) :=
  row_foldl_patch replacements.rows.sorted m k

@[simp]
theorem get_patch (replacements : NestedMap K L (Option V)) (k : K)
    (l : L) : (m.patch replacements).get k l = (replacements.get k l).getD (m.get k l) := by
  rw [get, row_patch, find?_patch]
  rfl

theorem mem_values_iff {m : NestedMap K L V} {v : V} :
    v ∈ m.values ↔ ∃ k l, m.get k l = some v := by
  rw [values, mem_flatMap]
  constructor
  · rintro ⟨row, hr, hv⟩
    obtain ⟨k, hk⟩ := SortedMap.mem_values_iff.mp hr
    obtain ⟨l, hl⟩ := SortedMap.mem_values_iff.mp hv
    exact ⟨k, l, by rw [get, NestedMap.row, hk]; exact hl⟩
  · rintro ⟨k, l, hv⟩
    rcases hk : m.rows.find? k with _ | row
    · rw [get, NestedMap.row, hk] at hv
      cases hv
    · rw [get, NestedMap.row, hk] at hv
      exact ⟨row, SortedMap.mem_values_iff.mpr ⟨k, hk⟩, SortedMap.mem_values_iff.mpr ⟨l, hv⟩⟩

theorem get_of_mem {m : NestedMap K L V} {k : K} {row : SortedMap L V}
    (hr : (k, row) ∈ m.rows.entries) {l : L} {v : V} (hc : (l, v) ∈ row.entries) :
    m.get k l = some v := by
  rw [get, NestedMap.row, mem_entries_iff.mp hr]
  exact mem_entries_iff.mp hc

theorem nodup_map_values {m : NestedMap K L V} {place : V → K × L}
    (h : ∀ k l v, m.get k l = some v → place v = (k, l)) : (m.values.map place).Nodup := by
  have hm : m.values.map place =
      m.rows.entries.flatMap fun e => e.2.keys.map fun l => (e.1, l) := by
    rw [values, SortedMap.values, flatMap_map, map_flatMap]
    refine flatMap_congr fun e he => ?_
    rw [SortedMap.values, SortedMap.keys, map_map, map_map]
    exact map_congr_left fun c hc => h _ _ _ (get_of_mem he hc)
  rw [hm, nodup_flatMap]
  constructor
  · intro e _
    exact e.2.keys_nodup.map (Prod.mk_right_injective e.1)
  · refine m.rows.sorted.imp fun {a b} hab => ?_
    simp only [Function.onFun, disjoint_left, mem_map]
    rintro _ ⟨c, -, rfl⟩ ⟨d, -, hd⟩
    exact hab.ne (Prod.ext_iff.mp hd).1.symm

end NestedMap
