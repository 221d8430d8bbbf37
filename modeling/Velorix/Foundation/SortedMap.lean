import Mathlib.Tactic

/-! Finite maps kept as their entries in strictly increasing key order. Iteration
order is the key order, and a map is determined by its lookups. -/

/-- A map whose entries are stored in strictly increasing key order. -/
structure SortedMap (K V : Type*) [LinearOrder K] where
  entries : List (K × V)
  sorted : entries.Pairwise fun a b => a.1 < b.1

namespace SortedMap

open List

section Entries
variable {K V : Type*} [LinearOrder K]

def lookupEntry (k : K) : List (K × V) → Option V
  | [] => none
  | e :: rest => if e.1 = k then some e.2 else lookupEntry k rest

/-- Single-pass insertion; an entry with the same key is replaced in place. -/
def insertEntry (k : K) (v : V) : List (K × V) → List (K × V)
  | [] => [(k, v)]
  | e :: rest =>
    if k < e.1 then (k, v) :: e :: rest
    else if k = e.1 then (k, v) :: rest
    else e :: insertEntry k v rest

def eraseEntry (k : K) (l : List (K × V)) : List (K × V) := l.filter fun e => e.1 ≠ k

variable {k : K} {v : V} {e : K × V} {l : List (K × V)}

theorem mem_insertEntry
    (h : e ∈ insertEntry k v l) : e = (k, v) ∨ e ∈ l := by
  induction l with
  | nil => simpa [insertEntry] using h
  | cons a rest ih =>
    unfold insertEntry at h
    split_ifs at h <;> grind

theorem insertEntry_sorted (k : K) (v : V)
    (h : l.Pairwise fun a b => a.1 < b.1) : (insertEntry k v l).Pairwise fun a b => a.1 < b.1 := by
  induction l with
  | nil => simp [insertEntry]
  | cons a rest ih =>
    obtain ⟨ha, hr⟩ := pairwise_cons.mp h
    unfold insertEntry
    split_ifs with hlt heq
    · refine pairwise_cons.mpr ⟨?_, h⟩
      intro b hb
      rcases mem_cons.mp hb with rfl | hb
      · exact hlt
      · exact hlt.trans (ha b hb)
    · exact pairwise_cons.mpr ⟨fun b hb => heq ▸ ha b hb, hr⟩
    · refine pairwise_cons.mpr ⟨?_, ih hr⟩
      intro b hb
      rcases mem_insertEntry hb with rfl | hb
      · exact lt_of_le_of_ne (not_lt.mp hlt) (Ne.symm heq)
      · exact ha b hb

theorem lookupEntry_insertEntry (k k' : K) (v : V) (l : List (K × V)) :
    lookupEntry k' (insertEntry k v l) = if k = k' then some v else lookupEntry k' l := by
  induction l with
  | nil => simp [insertEntry, lookupEntry]
  | cons a rest ih =>
    unfold insertEntry
    split_ifs <;> simp_all [lookupEntry]
    grind

theorem lookupEntry_eraseEntry (k k' : K) (l : List (K × V)) :
    lookupEntry k' (eraseEntry k l) = if k = k' then none else lookupEntry k' l := by
  induction l with
  | nil => simp [eraseEntry, lookupEntry]
  | cons a rest ih =>
    simp only [eraseEntry] at ih
    by_cases ha : a.1 = k <;> by_cases hk : k = k' <;>
      simp_all [eraseEntry, lookupEntry]

theorem lookupEntry_of_mem (hs : l.Pairwise fun a b => a.1 < b.1) (he : e ∈ l) :
    lookupEntry e.1 l = some e.2 := by
  induction l with
  | nil => simp at he
  | cons a rest ih =>
    obtain ⟨ha, hr⟩ := pairwise_cons.mp hs
    rcases mem_cons.mp he with rfl | he
    · simp [lookupEntry]
    · simp [lookupEntry, (ha e he).ne, ih hr he]

theorem mem_of_lookupEntry
    (h : lookupEntry k l = some v) : (k, v) ∈ l := by
  induction l with
  | nil => simp [lookupEntry] at h
  | cons a rest ih =>
    unfold lookupEntry at h
    split_ifs at h with hk
    · obtain rfl := Option.some.inj h
      exact mem_cons.mpr (Or.inl (by rw [← hk]))
    · exact mem_cons_of_mem _ (ih h)

end Entries

variable {K V W : Type*} [LinearOrder K]

theorem entries_injective : Function.Injective (entries : SortedMap K V → List (K × V)) := by
  rintro ⟨l, hl⟩ ⟨l', hl'⟩ h
  cases h
  rfl

instance [DecidableEq V] : DecidableEq (SortedMap K V) := fun m n =>
  decidable_of_iff (m.entries = n.entries) entries_injective.eq_iff

def empty : SortedMap K V := ⟨[], List.Pairwise.nil⟩

instance : EmptyCollection (SortedMap K V) := ⟨empty⟩
instance : Inhabited (SortedMap K V) := ⟨empty⟩

variable (m : SortedMap K V)

def find? (k : K) : Option V := lookupEntry k m.entries

def insert (k : K) (v : V) : SortedMap K V :=
  ⟨insertEntry k v m.entries, insertEntry_sorted k v m.sorted⟩

def erase (k : K) : SortedMap K V :=
  ⟨eraseEntry k m.entries, m.sorted.filter _⟩

/-- Insert, or remove when there is nothing to store. -/
def set (k : K) : Option V → SortedMap K V
  | some v => m.insert k v
  | none => m.erase k

def keys : List K := m.entries.map Prod.fst

def values : List V := m.entries.map Prod.snd

def isEmpty (m : SortedMap K V) : Bool := m.entries.isEmpty

def size : ℕ := m.entries.length

def mapValues (g : V → W) (m : SortedMap K V) : SortedMap K W :=
  ⟨m.entries.map fun e => (e.1, g e.2), by
    rw [pairwise_map]
    exact m.sorted⟩

/-- The map built by inserting the entries of a list from left to right. -/
def ofList (l : List (K × V)) : SortedMap K V := l.foldl (fun m e => m.insert e.1 e.2) ∅

@[simp] theorem find?_empty (k : K) : (∅ : SortedMap K V).find? k = none := rfl

@[simp] theorem entries_empty : (∅ : SortedMap K V).entries = [] := rfl

@[simp]
theorem find?_insert (k k' : K) (v : V) :
    (m.insert k v).find? k' = if k = k' then some v else m.find? k' :=
  lookupEntry_insertEntry k k' v m.entries

@[simp] theorem find?_insert_self (k : K) (v : V) :
    (m.insert k v).find? k = some v := by simp [find?_insert]

variable {k : K}

theorem find?_insert_of_ne {k' : K} (v : V) (h : k ≠ k') :
    (m.insert k v).find? k' = m.find? k' := by simp [find?_insert, h]

@[simp]
theorem find?_erase (k k' : K) : (m.erase k).find? k' = if k = k' then none else m.find? k' :=
  lookupEntry_eraseEntry k k' m.entries

@[simp] theorem find?_erase_self (k : K) : (m.erase k).find? k = none := by
  simp [find?_erase]

@[simp]
theorem find?_set (k k' : K) (v : Option V) :
    (m.set k v).find? k' = if k = k' then v else m.find? k' := by
  cases v <;> simp [set, find?_insert, find?_erase]

variable {v : V}

theorem mem_entries_iff {m : SortedMap K V} :
    (k, v) ∈ m.entries ↔ m.find? k = some v :=
  ⟨fun h => lookupEntry_of_mem m.sorted h, mem_of_lookupEntry⟩

theorem find?_mapValues (g : V → W) (m : SortedMap K V) (k : K) :
    (m.mapValues g).find? k = (m.find? k).map g := by
  rcases m with ⟨l, hl⟩
  simp only [find?, mapValues]
  clear hl
  induction l with
  | nil => rfl
  | cons a rest ih => by_cases h : a.1 = k <;> simp_all [lookupEntry]

theorem entries_nodup : m.entries.Nodup :=
  m.sorted.imp fun h he => absurd (he ▸ h) (lt_irrefl _)

theorem keys_sorted : m.keys.Pairwise (· < ·) := by
  rw [keys, pairwise_map]
  exact m.sorted

theorem keys_nodup : m.keys.Nodup := m.keys_sorted.imp ne_of_lt

theorem keys_eq_of_mem_iff {m : SortedMap K V} {n : SortedMap K W}
    (h : ∀ k, k ∈ m.keys ↔ k ∈ n.keys) : m.keys = n.keys := by
  refine List.Perm.eq_of_pairwise (fun a b _ _ hab hba => absurd (hab.trans hba) (lt_irrefl _))
    m.keys_sorted n.keys_sorted ?_
  exact (perm_ext_iff_of_nodup m.keys_nodup n.keys_nodup).mpr h

theorem mem_keys_iff {m : SortedMap K V} : k ∈ m.keys ↔ ∃ v, m.find? k = some v := by
  simp only [keys, mem_map, Prod.exists, exists_and_right, exists_eq_right, mem_entries_iff]

theorem mem_values_iff {m : SortedMap K V} : v ∈ m.values ↔ ∃ k, m.find? k = some v := by
  simp only [values, mem_map, Prod.exists, exists_eq_right, mem_entries_iff]

variable {n : SortedMap K V}

theorem ext {m : SortedMap K V} (h : ∀ k, m.find? k = n.find? k) : m = n := by
  apply entries_injective
  have hp : m.entries.Perm n.entries := by
    refine (perm_ext_iff_of_nodup m.entries_nodup n.entries_nodup).mpr ?_
    rintro ⟨k, v⟩
    rw [mem_entries_iff, mem_entries_iff, h k]
  exact hp.eq_of_pairwise (fun _ _ _ _ hab hba => (lt_asymm hab hba).elim) m.sorted n.sorted

theorem isEmpty_iff {m : SortedMap K V} : m.isEmpty = true ↔ ∀ k, m.find? k = none := by
  constructor
  · intro h k
    have he : m.entries = [] := List.isEmpty_iff.mp h
    simp [find?, he, lookupEntry]
  · intro h
    obtain rfl : m = ∅ := ext (by simpa using h)
    rfl

theorem foldl_insert_find? (l : List (K × V)) (hs : l.Pairwise fun a b => a.1 < b.1)
    (m : SortedMap K V) (k : K) :
    (l.foldl (fun m e => m.insert e.1 e.2) m).find? k = (lookupEntry k l).or (m.find? k) := by
  induction l generalizing m with
  | nil => simp [lookupEntry]
  | cons a rest ih =>
    obtain ⟨ha, hr⟩ := pairwise_cons.mp hs
    simp only [foldl_cons, ih hr, lookupEntry, find?_insert]
    by_cases hk : a.1 = k
    · have hn : lookupEntry k rest = none := by
        by_contra hne
        obtain ⟨v, hv⟩ := Option.ne_none_iff_exists'.mp hne
        exact absurd (ha _ (mem_of_lookupEntry hv)) (by simp [hk])
      simp [hk, hn]
    · simp [hk]

@[simp]
theorem ofList_entries : ofList m.entries = m := by
  apply ext
  intro k
  rw [ofList, foldl_insert_find? _ m.sorted, find?_empty, Option.or_none]
  rfl

variable {f : V → K}

private theorem foldl_keyed (hf : Function.Injective f) (l : List V)
    (m : SortedMap K V) :
    (l.foldl (fun m v => m.insert (f v) v) m).find? k = some v ↔
      (v ∈ l ∧ f v = k) ∨ ((∀ u ∈ l, f u ≠ k) ∧ m.find? k = some v) := by
  induction l generalizing m with
  | nil => simp
  | cons a l ih =>
    rw [foldl_cons, ih, find?_insert]
    by_cases hk : f a = k
    · have hv : f v = k ↔ v = a := by rw [← hk, hf.eq_iff]
      by_cases hm : ∃ u ∈ l, f u = k
      · grind
      · grind
    · grind

theorem find?_ofList_keyed (hf : Function.Injective f) (l : List V) :
    (ofList (l.map fun v => (f v, v))).find? k = some v ↔ v ∈ l ∧ f v = k := by
  rw [ofList, foldl_map, foldl_keyed hf]
  simp

theorem mem_values_ofList_keyed (hf : Function.Injective f) {l : List V} :
    v ∈ (ofList (l.map fun v => (f v, v))).values ↔ v ∈ l := by
  rw [mem_values_iff]
  simp [find?_ofList_keyed hf]

theorem nodup_values_ofList_keyed (hf : Function.Injective f) (l : List V) :
    (ofList (l.map fun v => (f v, v))).values.Nodup := by
  apply List.Nodup.of_map f
  have hk : (ofList (l.map fun v => (f v, v))).values.map f =
      (ofList (l.map fun v => (f v, v))).keys := by
    rw [values, keys, map_map]
    apply map_congr_left
    intro e he
    exact ((find?_ofList_keyed hf l).mp (mem_entries_iff.mp he)).2
  rw [hk]
  exact keys_nodup _

section Patch

/-- Overwrites by a map of replacements; a replacement by nothing removes the key. -/
def patch (m : SortedMap K V) (replacements : SortedMap K (Option V)) : SortedMap K V :=
  replacements.entries.foldl (fun m e => m.set e.1 e.2) m

theorem lookupEntry_tail {e : K × V} {rest : List (K × V)}
    (hs : (e :: rest).Pairwise fun a b => a.1 < b.1) : lookupEntry e.1 rest = none := by
  by_contra hne
  obtain ⟨v, hv⟩ := Option.ne_none_iff_exists'.mp hne
  exact absurd ((pairwise_cons.mp hs).1 _ (mem_of_lookupEntry hv)) (lt_irrefl _)

private theorem find?_foldl_set {l : List (K × Option V)}
    (hs : l.Pairwise fun a b => a.1 < b.1) (m : SortedMap K V) (k : K) :
    (l.foldl (fun m e => m.set e.1 e.2) m).find? k = (lookupEntry k l).getD (m.find? k) := by
  induction l generalizing m with
  | nil => rfl
  | cons e rest ih =>
    rw [foldl_cons, ih (pairwise_cons.mp hs).2, find?_set]
    by_cases hk : e.1 = k
    · subst hk
      simp [lookupEntry, lookupEntry_tail hs]
    · simp [lookupEntry, hk]

@[simp]
theorem find?_patch (m : SortedMap K V) (replacements : SortedMap K (Option V)) (k : K) :
    (m.patch replacements).find? k = (replacements.find? k).getD (m.find? k) :=
  find?_foldl_set replacements.sorted m k

end Patch

section Sums
variable {M : Type*} [AddCommGroup M] (g : K → V → M)

/-- The total of a quantity over the entries of a map. -/
def total (m : SortedMap K V) : M := (m.entries.map fun e => g e.1 e.2).sum

private theorem sum_insertEntry (k : K) (v : V) {l : List (K × V)}
    (hs : l.Pairwise fun a b => a.1 < b.1) :
    ((insertEntry k v l).map fun e => g e.1 e.2).sum =
      (l.map fun e => g e.1 e.2).sum - (lookupEntry k l).elim 0 (g k) + g k v := by
  induction l with
  | nil => simp [insertEntry, lookupEntry]
  | cons a rest ih =>
    obtain ⟨ha, hr⟩ := pairwise_cons.mp hs
    unfold insertEntry
    split_ifs with hlt heq
    · have hn : lookupEntry k (a :: rest) = none := by
        by_contra hne
        obtain ⟨w, hw⟩ := Option.ne_none_iff_exists'.mp hne
        rcases mem_cons.mp (mem_of_lookupEntry hw) with he | he
        · rw [← he] at hlt
          exact lt_irrefl _ hlt
        · exact lt_irrefl _ (hlt.trans (ha _ he))
      simp only [hn, map_cons, sum_cons, Option.elim_none]
      abel
    · simp [lookupEntry, heq]
      abel
    · simp only [map_cons, sum_cons, ih hr, lookupEntry, Ne.symm heq, if_false]
      abel

theorem total_insert (m : SortedMap K V) (k : K) (v : V) :
    (m.insert k v).total g = m.total g - (m.find? k).elim 0 (g k) + g k v :=
  sum_insertEntry g k v m.sorted

theorem total_erase (m : SortedMap K V) (k : K) :
    (m.erase k).total g = m.total g - (m.find? k).elim 0 (g k) := by
  cases h : m.find? k with
  | none =>
    have he : m.erase k = m := ext fun k' => by
      by_cases hk : k = k'
      · rw [find?_erase, if_pos hk, ← hk, h]
      · rw [find?_erase, if_neg hk]
    simp [he]
  | some v =>
    have hm : (m.erase k).insert k v = m := ext fun k' => by
      by_cases hk : k = k'
      · rw [find?_insert, if_pos hk, ← hk, h]
      · rw [find?_insert, if_neg hk, find?_erase, if_neg hk]
    have ht := total_insert g (m.erase k) k v
    rw [hm, find?_erase_self] at ht
    simp only [Option.elim_none, sub_zero] at ht
    simp only [Option.elim_some]
    rw [ht, add_sub_cancel_right]

theorem total_eq_zero {m : SortedMap K V} (h : ∀ k v, m.find? k = some v → g k v = 0) :
    m.total g = 0 := by
  apply sum_eq_zero
  intro x hx
  obtain ⟨e, he, rfl⟩ := mem_map.mp hx
  exact h e.1 e.2 (mem_entries_iff.mp he)

theorem total_set (m : SortedMap K V) (k : K) (v : Option V) :
    (m.set k v).total g = m.total g - (m.find? k).elim 0 (g k) + v.elim 0 (g k) := by
  cases v with
  | none => simp [set, total_erase]
  | some v => simp [set, total_insert]

end Sums

theorem filter_key_eq {m : SortedMap K V} (h : (k, v) ∈ m.entries)
    {p : K × V → Bool} (hp : ∀ e, p e = true ↔ e.1 = k) : m.entries.filter p = [(k, v)] := by
  have hn : (m.entries.filter p).Nodup := m.entries_nodup.filter _
  refine perm_singleton.mp ((perm_ext_iff_of_nodup hn (by simp)).mpr fun e => ?_)
  simp only [mem_filter, hp, mem_singleton]
  constructor
  · rintro ⟨he, rfl⟩
    have hf := (mem_entries_iff (k := e.1) (v := e.2)).mp he
    rw [mem_entries_iff.mp h] at hf
    exact Prod.ext rfl (Option.some.inj hf).symm
  · rintro rfl
    exact ⟨h, rfl⟩

variable {ε α σ : Type}

theorem foldlM_insert {K V : Type} [LinearOrder K] (embed : SortedMap K V → σ)
    {step : σ → α → Except ε σ} {es : List (K × V)} {xs : List α}
    (hs : es.Pairwise fun a b => a.1 < b.1)
    (hstep : List.Forall₂ (fun e a => ∀ m : SortedMap K V, m.find? e.1 = none →
      step (embed m) a = .ok (embed (m.insert e.1 e.2))) es xs)
    (m : SortedMap K V) (hm : ∀ e ∈ es, m.find? e.1 = none) :
    xs.foldlM step (embed m) = .ok (embed (es.foldl (fun m e => m.insert e.1 e.2) m)) := by
  induction hstep generalizing m with
  | nil => rfl
  | @cons e a rest xs hfirst _ ih =>
    obtain ⟨hlt, hr⟩ := pairwise_cons.mp hs
    rw [foldlM_cons, hfirst m (hm e (mem_cons_self ..)), foldl_cons]
    refine ih hr (m.insert e.1 e.2) fun f hf => ?_
    rw [find?_insert_of_ne _ _ (hlt f hf).ne]
    exact hm f (mem_cons_of_mem _ hf)

theorem foldlM_entries {K V : Type} [LinearOrder K] (embed : SortedMap K V → σ)
    {step : σ → α → Except ε σ} {m : SortedMap K V} {xs : List α}
    (hstep : List.Forall₂ (fun e a => ∀ m : SortedMap K V, m.find? e.1 = none →
      step (embed m) a = .ok (embed (m.insert e.1 e.2))) m.entries xs) :
    xs.foldlM step (embed ∅) = .ok (embed m) := by
  rw [foldlM_insert embed m.sorted hstep ∅ (by simp)]
  exact congrArg (fun m => Except.ok (embed m)) (ofList_entries m)

end SortedMap
