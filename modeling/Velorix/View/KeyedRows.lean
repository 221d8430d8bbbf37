import Velorix.Delta.ZSet
import Velorix.View.Epoch

/-! State that is kept by key: every record adds its weight to the row of its key and overwrites
what the row holds. -/
namespace Velorix.View

open Json Delta WeightedSet Result SortedMap List

structure Kept (C : Type) where
  content : C
  weight : I64
  deriving DecidableEq

abbrev KeyedRows (C : Type) := SortedMap (List Char) (Kept C)

/-- How a runtime fills the row of a key: with what it starts, and what the columns of a record
make of it. -/
structure RowFormat (C : Type) where
  fresh : Value → C
  update : C → SortedMap String Value → Except RuntimeError C

/-- The columns of the last record decide what a row holds. -/
structure RowFormat.Overwrites {C : Type} (format : RowFormat C)
    (make : Value → SortedMap String Value → C) : Prop where
  fresh : ∀ {key fields content}, format.update (format.fresh key) fields = .ok content →
    content = make key fields
  update : ∀ {key earlier fields content}, format.update (make key earlier) fields = .ok content →
    content = make key fields
  injective : ∀ {key fields fields'}, make key fields = make key fields' → fields = fields'

section Apply
variable {C : Type} (format : RowFormat C)

def entryFor (rows : KeyedRows C) (record : DeltaRecord) : Kept C :=
  (rows.find? (canonicalJson record.key)).getD ⟨format.fresh record.key, 0⟩

def applyRecord (rows : KeyedRows C) (record : DeltaRecord) : Except RuntimeError (KeyedRows C) :=
  let key := canonicalJson record.key
  let entry := entryFor format rows record
  match entry.weight.checkedAdd record.weight with
  | none => .error invalidRuntimeState
  | some weight =>
    if weight.val < 0 then .error invalidRuntimeState
    else if weight.val = 0 then .ok (rows.erase key)
    else do
      let fields ← orMissing record.value.asObject
      let content ← format.update entry.content fields
      return rows.insert key ⟨content, weight⟩

def applyRecords (rows : KeyedRows C) (records : List DeltaRecord) :
    Except RuntimeError (KeyedRows C) :=
  records.foldlM (applyRecord format) rows

end Apply

def lastFor (key : Value) (records : List DeltaRecord) : Option DeltaRecord :=
  records.reverse.find? (·.key = key)

abbrev weightFor (key : Value) (records : List DeltaRecord) : ℤ :=
  weightAt DeltaRecord.key (fun record => record.weight.val) key records

def keptWeight {C : Type} (rows : KeyedRows C) (key : Value) : ℤ :=
  ((rows.find? (canonicalJson key)).map (·.weight.val)).getD 0

@[simp]
theorem lastFor_nil (key : Value) : lastFor key [] = none := rfl

theorem weightFor_of_lastFor_none {key : Value} {rs : List DeltaRecord}
    (h : lastFor key rs = none) : weightFor key rs = 0 := by
  refine weightAt_eq_zero fun r hr => ?_
  have hne := find?_eq_none.mp h r (mem_reverse.mpr hr)
  simpa using hne

section Effect
variable {C : Type} {format : RowFormat C} {make : Value → SortedMap String Value → C}
  {rows later : KeyedRows C} {r : DeltaRecord} {rs : List DeltaRecord}

/-- Every row was made of the columns of some record, and is there at least once. -/
def RowsMade (make : Value → SortedMap String Value → C) (rows : KeyedRows C) : Prop :=
  ∀ key kept, rows.find? (canonicalJson key) = some kept →
    0 < kept.weight.val ∧ ∃ fields, kept.content = make key fields

structure KeyEffect (make : Value → SortedMap String Value → C) (rows : KeyedRows C)
    (records : List DeltaRecord) (later : KeyedRows C) (key : Value) : Prop where
  untouched : lastFor key records = none →
    later.find? (canonicalJson key) = rows.find? (canonicalJson key)
  gone : keptWeight rows key + weightFor key records = 0 → lastFor key records ≠ none →
    later.find? (canonicalJson key) = none
  kept : ∀ {last}, lastFor key records = some last →
    keptWeight rows key + weightFor key records ≠ 0 → ∃ fields weight,
      last.value.asObject = some fields ∧
      weight.val = keptWeight rows key + weightFor key records ∧
      later.find? (canonicalJson key) = some ⟨make key fields, weight⟩

theorem keptWeight_eq {key : Value} {kept : Kept C}
    (h : rows.find? (canonicalJson key) = some kept) : keptWeight rows key = kept.weight.val := by
  rw [keptWeight, h]
  rfl

theorem keptWeight_eq_zero {key : Value} (h : rows.find? (canonicalJson key) = none) :
    keptWeight rows key = 0 := by
  rw [keptWeight, h]
  rfl

theorem entryFor_weight (format : RowFormat C) (rows : KeyedRows C) (r : DeltaRecord) :
    (entryFor format rows r).weight.val = keptWeight rows r.key := by
  rw [entryFor]
  cases hf : rows.find? (canonicalJson r.key) with
  | none =>
    rw [keptWeight_eq_zero hf]
    rfl
  | some kept =>
    rw [keptWeight_eq hf]
    rfl

theorem content_of_update (hformat : format.Overwrites make) (hr : RowsMade make rows)
    {fields : SortedMap String Value} {content : C}
    (h : format.update (entryFor format rows r).content fields = .ok content) :
    content = make r.key fields := by
  rw [entryFor] at h
  cases hf : rows.find? (canonicalJson r.key) with
  | none =>
    rw [hf] at h
    exact hformat.fresh h
  | some kept =>
    rw [hf] at h
    obtain ⟨-, earlier, hc⟩ := hr r.key kept hf
    rw [Option.getD_some, hc] at h
    exact hformat.update h

theorem applyRecord_cases (hformat : format.Overwrites make) (hr : RowsMade make rows)
    (h : applyRecord format rows r = .ok later) :
    (keptWeight rows r.key + r.weight.val = 0 ∧ later = rows.erase (canonicalJson r.key)) ∨
    (0 < keptWeight rows r.key + r.weight.val ∧ ∃ fields weight, r.value.asObject = some fields ∧
      weight.val = keptWeight rows r.key + r.weight.val ∧
      later = rows.insert (canonicalJson r.key) ⟨make r.key fields, weight⟩) := by
  simp only [applyRecord] at h
  split at h
  · cases h
  · rename_i weight hsum
    have hweight : weight.val = keptWeight rows r.key + r.weight.val := by
      rw [← entryFor_weight format rows r]
      exact SInt.ofInt?_eq_some.mp hsum
    split_ifs at h with hn hz
    · left
      exact ⟨hweight ▸ hz, (Except.ok.inj h).symm⟩
    · right
      obtain ⟨fields, hfields, h⟩ := bind_eq_ok.mp h
      obtain ⟨content, hc, h⟩ := bind_eq_ok.mp h
      rw [content_of_update hformat hr hc] at h
      exact ⟨by omega, fields, weight, orMissing_ok hfields, hweight, (Except.ok.inj h).symm⟩

theorem canonicalJson_ne {key key' : Value} (h : key ≠ key') :
    canonicalJson key ≠ canonicalJson key' := fun heq => h (canonicalJson_injective heq)

theorem RowsMade.applyRecord (hformat : format.Overwrites make) (hr : RowsMade make rows)
    (h : applyRecord format rows r = .ok later) : RowsMade make later := by
  intro key kept hk
  rcases applyRecord_cases hformat hr h with ⟨-, rfl⟩ | ⟨hp, fields, weight, -, hw, rfl⟩
  · rw [find?_erase] at hk
    split_ifs at hk
    exact hr key kept hk
  · rw [find?_insert] at hk
    split_ifs at hk with hkey
    · cases hk
      exact ⟨hw ▸ hp, fields, by rw [canonicalJson_injective hkey]⟩
    · exact hr key kept hk

theorem keyEffect_nil (key : Value) : KeyEffect make rows [] rows key :=
  ⟨fun _ => rfl, fun _ h => absurd (lastFor_nil key) h, nofun⟩

/-- The row of a key after one record. -/
theorem keyEffect_applyRecord (hformat : format.Overwrites make) (hr : RowsMade make rows)
    (h : applyRecord format rows r = .ok later) (key : Value) :
    KeyEffect make rows [r] later key := by
  by_cases hkey : r.key = key
  · subst hkey
    have hl : lastFor r.key [r] = some r := by simp [lastFor]
    have hweight : weightFor r.key [r] = r.weight.val := by
      simp [weightFor, weightAt_cons]
    rcases applyRecord_cases hformat hr h with ⟨hz, rfl⟩ | ⟨hp, fields, weight, hf, hw, rfl⟩
    · refine ⟨fun hn => ?_, fun _ _ => find?_erase_self _ _, fun _ hne => ?_⟩
      · rw [hl] at hn
        cases hn
      · rw [hweight] at hne
        exact absurd hz hne
    · refine ⟨fun hn => ?_, fun hz => ?_, fun hs _ => ?_⟩
      · rw [hl] at hn
        cases hn
      · rw [hweight] at hz
        omega
      · rw [hl] at hs
        cases hs
        exact ⟨fields, weight, hf, hweight ▸ hw, find?_insert_self _ _ _⟩
  · have hl : lastFor key [r] = none := by simp [lastFor, hkey]
    have ho : later.find? (canonicalJson key) = rows.find? (canonicalJson key) := by
      rcases applyRecord_cases hformat hr h with ⟨-, rfl⟩ | ⟨-, fields, weight, -, -, rfl⟩
      · rw [find?_erase, if_neg (canonicalJson_ne hkey)]
      · rw [find?_insert, if_neg (canonicalJson_ne hkey)]
    exact ⟨fun _ => ho, fun _ hs => absurd hl hs, fun hs => by
      rw [hl] at hs
      cases hs⟩

theorem KeyEffect.keptWeight {key : Value} (h : KeyEffect make rows rs later key) :
    View.keptWeight later key = View.keptWeight rows key + weightFor key rs := by
  cases hl : lastFor key rs with
  | none =>
    rw [View.keptWeight, h.untouched hl, weightFor_of_lastFor_none hl, add_zero]
    rfl
  | some last =>
    by_cases hz : View.keptWeight rows key + weightFor key rs = 0
    · rw [keptWeight_eq_zero (h.gone hz (by rw [hl]; nofun)), hz]
    · obtain ⟨fields, weight, -, hweight, hf⟩ := h.kept hl hz
      rw [keptWeight_eq hf, hweight]

theorem KeyEffect.trans {middle : KeyedRows C} {others : List DeltaRecord} {key : Value}
    (h : KeyEffect make rows rs middle key) (h' : KeyEffect make middle others later key) :
    KeyEffect make rows (rs ++ others) later key := by
  have hweight : weightFor key (rs ++ others) = weightFor key rs + weightFor key others :=
    weightAt_append _ _ _ rs others
  have hl : lastFor key (rs ++ others) = (lastFor key others).or (lastFor key rs) := by
    rw [lastFor, reverse_append, find?_append]
    rfl
  have ht := h.keptWeight
  cases ho : lastFor key others with
  | none =>
    have hz := weightFor_of_lastFor_none ho
    rw [ho, Option.none_or] at hl
    refine ⟨?_, ?_, ?_⟩
    · intro hn
      rw [h'.untouched ho, h.untouched (hl ▸ hn)]
    · intro hsum hs
      rw [hweight, hz, add_zero] at hsum
      rw [h'.untouched ho, h.gone hsum (hl ▸ hs)]
    · intro last hs hne
      rw [hweight, hz, add_zero] at hne ⊢
      rw [h'.untouched ho]
      exact h.kept (hl ▸ hs) hne
  | some last' =>
    rw [ho, Option.some_or] at hl
    have hsum : View.keptWeight rows key + weightFor key (rs ++ others) =
        View.keptWeight middle key + weightFor key others := by rw [hweight, ht, add_assoc]
    refine ⟨?_, ?_, ?_⟩
    · intro hn
      rw [hl] at hn
      cases hn
    · intro hz _
      exact h'.gone (hsum ▸ hz) (by rw [ho]; nofun)
    · intro last hs hne
      rw [hsum] at hne ⊢
      exact h'.kept (ho.trans (hl.symm.trans hs)) hne

theorem keyEffect_applyRecords (hformat : format.Overwrites make) (hr : RowsMade make rows)
    (h : applyRecords format rows rs = .ok later) :
    RowsMade make later ∧ ∀ key, KeyEffect make rows rs later key := by
  induction rs generalizing rows with
  | nil =>
    cases h
    exact ⟨hr, keyEffect_nil⟩
  | cons r rs ih =>
    rw [applyRecords, foldlM_cons] at h
    obtain ⟨middle, hf, hrest⟩ := bind_eq_ok.mp h
    have hm := hr.applyRecord hformat hf
    obtain ⟨hl, he⟩ := ih hm hrest
    exact ⟨hl, fun key => (keyEffect_applyRecord hformat hr hf key).trans (he key)⟩

end Effect

/-- Every key has at most one row, and that row once. -/
structure SingleRows (relation : ZSet) : Prop where
  weights : ∀ key value, relation (key, value) = 0 ∨ relation (key, value) = 1
  unique : ∀ {key value value'}, relation (key, value) = 1 → relation (key, value') = 1 →
    value = value'

/-- The rows are those of the relation, with their values. -/
structure RowsTrack {C : Type} (make : Value → SortedMap String Value → C) (rows : KeyedRows C)
    (relation : ZSet) : Prop where
  live : ∀ {key value}, relation (key, value) = 1 → ∃ fields,
    value.asObject = some fields ∧ rows.find? (canonicalJson key) = some ⟨make key fields, 1⟩
  gone : ∀ {key}, (∀ value, relation (key, value) = 0) → rows.find? (canonicalJson key) = none

/-- Of the records of a key, the one of its row comes last. -/
def LiveRowsLast (records : List DeltaRecord) (relation : ZSet) : Prop :=
  ∀ key last value, lastFor key records = some last → relation (key, value) = 1 →
    last.value = value

section Tracking
variable {C : Type} {format : RowFormat C} {make : Value → SortedMap String Value → C}
  {rows later : KeyedRows C} {rs : List DeltaRecord} {rel : ZSet} {key : Value}

theorem SingleRows.keyWeight_of_live (h : SingleRows rel) {value : Value}
    (hlive : rel (key, value) = 1) : keyWeight rel key = 1 := by
  rw [keyWeight_eq_of_single, hlive]
  intro value' hne
  rcases h.weights key value' with hz | ho
  · exact hz
  · exact absurd (h.unique ho hlive) hne

theorem SingleRows.cases (h : SingleRows rel) (key : Value) :
    (∀ value, rel (key, value) = 0) ∨ ∃ value, rel (key, value) = 1 := by
  by_cases hlive : ∃ value, rel (key, value) = 1
  · exact .inr hlive
  · push Not at hlive
    exact .inl fun value => (h.weights key value).resolve_right (hlive value)

theorem RowsTrack.keptWeight (h : RowsTrack make rows rel) (hs : SingleRows rel) :
    keptWeight rows key = keyWeight rel key := by
  rcases hs.cases key with hg | ⟨value, hlive⟩
  · rw [keptWeight_eq_zero (h.gone hg), keyWeight_eq_zero hg]
  · obtain ⟨fields, -, hf⟩ := h.live hlive
    rw [keptWeight_eq hf, hs.keyWeight_of_live hlive]
    rfl

theorem zset_eq_zero_of_lastFor_none (h : lastFor key rs = none) (value : Value) :
    zset rs (key, value) = 0 := by
  rw [zset_apply]
  refine DeltaBatch.pairWeight_eq_zero fun r hr heq => ?_
  have hne := find?_eq_none.mp h r (mem_reverse.mpr hr)
  exact hne (decide_eq_true (congrArg Prod.fst heq))

/-- Rows that track a relation go on to track it exactly if the records of live rows come last. -/
theorem rowsTrack_applyRecords (hformat : format.Overwrites make) (hm : RowsMade make rows)
    (htrack : RowsTrack make rows rel) (hs : SingleRows rel) (hs' : SingleRows (rel + zset rs))
    (h : applyRecords format rows rs = .ok later) :
    RowsTrack make later (rel + zset rs) ↔ LiveRowsLast rs (rel + zset rs) := by
  have he := (keyEffect_applyRecords hformat hm h).2
  have ht (key : Value) : keptWeight rows key + weightFor key rs =
      keyWeight (rel + zset rs) key := by
    rw [htrack.keptWeight hs, weightFor, ← keyWeight_zset, keyWeight, keyWeight, keyWeight,
      weighted_add]
  constructor
  · intro htrack' key last value hl hlive
    obtain ⟨fields, hfields, hf⟩ := htrack'.live hlive
    have hne : keptWeight rows key + weightFor key rs ≠ 0 := by
      rw [ht, hs'.keyWeight_of_live hlive]
      exact one_ne_zero
    obtain ⟨fields', weight, hfields', -, hf'⟩ := (he key).kept hl hne
    rw [hf] at hf'
    have hsame := hformat.injective (congrArg Kept.content (Option.some.inj hf'))
    rw [Value.eq_object_of_asObject hfields, Value.eq_object_of_asObject hfields', hsame]
  · intro hl
    refine ⟨?_, ?_⟩
    · intro key value hlive
      cases hr : lastFor key rs with
      | none =>
        rw [Finsupp.add_apply, zset_eq_zero_of_lastFor_none hr, add_zero] at hlive
        obtain ⟨fields, hfields, hf⟩ := htrack.live hlive
        exact ⟨fields, hfields, ((he key).untouched hr).trans hf⟩
      | some last =>
        have ho := (ht key).trans (hs'.keyWeight_of_live hlive)
        obtain ⟨fields, weight, hfields, hweight, hf⟩ :=
          (he key).kept hr (by rw [ho]; exact one_ne_zero)
        rw [hl key last value hr hlive] at hfields
        refine ⟨fields, hfields, ?_⟩
        rw [hf, show weight = 1 from SInt.val_inj.mp (hweight.trans ho)]
    · intro key hg
      cases hr : lastFor key rs with
      | none =>
        rw [(he key).untouched hr]
        refine htrack.gone fun value => ?_
        have hz := hg value
        rwa [Finsupp.add_apply, zset_eq_zero_of_lastFor_none hr, add_zero] at hz
      | some last =>
        refine (he key).gone ?_ (by simp [hr])
        rw [ht, keyWeight_eq_zero hg]

end Tracking

end Velorix.View
