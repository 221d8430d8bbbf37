import Velorix.Delta.ZSet
import Velorix.Operator.AggregateEpoch

/-! The rows of the aggregate as a function of everything it has received. A state that
tracks its input has those rows, and an epoch emits the difference it makes to them. -/
namespace Velorix.Operator

open Json Delta WeightedSet Result SortedMap SInt

variable {key : Value} {entry : AggregateEntry}

section Groups
variable (mode : AggregateValueMode) (trackExtrema : Bool) (set : ZSet)

/-- The weighted sum of the amounts of a key. -/
noncomputable def groupSum (key : Value) : ℤ :=
  weighted (fun pair => if pair.1 = key then amountOf mode pair.2 else 0) set

noncomputable def groupValueWeight (key : Value) (order : I128) : ℤ :=
  weighted (fun pair =>
    if pair.1 = key ∧ (mode.parseInput pair.2).toOption = some order then 1 else 0) set

/-- The entry of a key: its sum, its count and, if extrema are tracked, its weighted values;
a key where all of these are zero has none. -/
structure GroupEntry (key : Value) (entry : AggregateEntry) : Prop where
  named : entry.key = key
  sum : entry.sum.val = groupSum mode set key
  count : entry.count.val = keyWeight set key
  values : ∀ order v, entry.values.find? order = some v ↔ trackExtrema = true ∧
    aggregateSumJsonValue order mode = .ok v.value ∧
    v.weight.val = groupValueWeight mode set key order ∧ v.weight.val ≠ 0
  nonzero : entry.isZero = false

/-- The row of a key is the row of its entry. -/
def GroupRow (pair : Value × Value) : Prop :=
  ∃ entry row, GroupEntry mode trackExtrema set pair.1 entry ∧
    entry.toRecord 1 mode trackExtrema = .ok row ∧ row.pair = pair

open Classical in
noncomputable def aggregated : ZSet :=
  if h : Set.Finite {pair | GroupRow mode trackExtrema set pair} then
    Finsupp.indicator h.toFinset fun _ _ => 1
  else 0

variable {mode trackExtrema set}

theorem GroupEntry.unique {other : AggregateEntry} (h : GroupEntry mode trackExtrema set key entry)
    (h' : GroupEntry mode trackExtrema set key other) : entry = other := by
  have hvals : entry.values = other.values := by
    apply SortedMap.ext
    intro order
    apply Option.ext
    intro v
    rw [h.values, h'.values]
  have hsum : entry.sum = other.sum := val_inj.mp (h.sum.trans h'.sum.symm)
  have hc : entry.count = other.count := val_inj.mp (h.count.trans h'.count.symm)
  have hkey := h.named.trans h'.named.symm
  obtain ⟨key, sum, count, values⟩ := entry
  obtain ⟨key', sum', count', values'⟩ := other
  exact congr (congr (congr (congrArg AggregateEntry.mk hkey) hsum) hc) hvals

theorem GroupEntry.not_zero (h : GroupEntry mode trackExtrema set key entry)
    (hsum : groupSum mode set key = 0) (hc : keyWeight set key = 0)
    (hvals : trackExtrema = true → ∀ order, groupValueWeight mode set key order = 0) : False := by
  have he : entry.values = ∅ := by
    apply SortedMap.ext
    intro order
    rcases hf : entry.values.find? order with _ | v
    · rfl
    · obtain ⟨ht, -, hw, hne⟩ := (h.values order v).mp hf
      exact absurd (hw.trans (hvals ht order)) hne
  have hz := h.nonzero
  rw [AggregateEntry.isZero, he, val_inj.mp ((h.sum.trans hsum).trans i128_zero_val.symm),
    val_inj.mp ((h.count.trans hc).trans i128_zero_val.symm)] at hz
  cases hz

theorem GroupEntry.mem_support (h : GroupEntry mode trackExtrema set key entry) :
    ∃ pair ∈ set.support, pair.1 = key := by
  by_contra hn
  push Not at hn
  exact h.not_zero (weighted_eq_zero fun pair hp => if_neg (hn pair hp))
    (weighted_eq_zero fun pair hp => if_neg (hn pair hp))
    fun _ _ => weighted_eq_zero fun pair hp => if_neg fun ha => hn pair hp ha.1

theorem groupRow_finite : Set.Finite {pair | GroupRow mode trackExtrema set pair} := by
  have hk : (Prod.fst '' {pair | GroupRow mode trackExtrema set pair}).Finite := by
    apply (set.support.image Prod.fst).finite_toSet.subset
    rintro key ⟨pair, ⟨entry, row, he, -, -⟩, rfl⟩
    obtain ⟨other, ho, hkey⟩ := he.mem_support
    rw [Finset.coe_image]
    exact ⟨other, ho, hkey⟩
  refine Set.Finite.of_finite_image hk ?_
  intro pair hp other ho hkey
  obtain ⟨entry, row, he, hrow, hp⟩ := hp
  obtain ⟨entry', row', he', hrow', ho⟩ := ho
  have hkey : pair.1 = other.1 := hkey
  have hsame : entry = entry' := he.unique (hkey ▸ he')
  rw [hsame, hrow'] at hrow
  rw [← hp, ← ho, Except.ok.inj hrow]

open Classical in
theorem aggregated_apply (pair : Value × Value) :
    aggregated mode trackExtrema set pair =
      if GroupRow mode trackExtrema set pair then 1 else 0 := by
  rw [aggregated, dif_pos groupRow_finite, Finsupp.indicator_apply]
  simp only [Set.Finite.mem_toFinset, Set.mem_ofPred_eq, dite_eq_ite]

@[simp]
theorem aggregated_zero : aggregated mode trackExtrema 0 = 0 := by
  ext pair
  rw [aggregated_apply, if_neg, Finsupp.zero_apply]
  rintro ⟨entry, row, he, -, -⟩
  obtain ⟨other, ho, -⟩ := he.mem_support
  simp at ho

@[simp]
theorem groupSum_add (other : ZSet) (key : Value) :
    groupSum mode (set + other) key = groupSum mode set key + groupSum mode other key :=
  weighted_add _ _ _

theorem groupValueWeight_add (other : ZSet) (key : Value) (order : I128) :
    groupValueWeight mode (set + other) key order =
      groupValueWeight mode set key order + groupValueWeight mode other key order :=
  weighted_add _ _ _

private theorem text_eq_iff {other : Value} :
    canonicalJson other = canonicalJson key ↔ other = key := canonicalJson_injective.eq_iff

theorem groupSum_zset (rs : List DeltaRecord) (key : Value) :
    groupSum mode (zset rs) key = keySum mode (canonicalJson key) rs := by
  rw [groupSum, weighted_zset, keySum, weightAt_eq_sum]
  congr 2
  funext r
  show (if r.key = key then amountOf mode r.value else 0) * r.weight.val = _
  simp only [text_eq_iff]
  split_ifs <;> simp

theorem keyWeight_zset_eq (rs : List DeltaRecord) (key : Value) :
    keyWeight (zset rs) key = keyCount (canonicalJson key) rs := by
  rw [keyWeight_zset]
  exact weightAt_congr fun r _ => text_eq_iff.symm

theorem groupValueWeight_zset (rs : List DeltaRecord) (key : Value) (order : I128) :
    groupValueWeight mode (zset rs) key order =
      keyValueWeight mode (canonicalJson key) rs order := by
  rw [groupValueWeight, weighted_zset, keyValueWeight, weightAt_eq_sum]
  congr 2
  funext r
  show (if r.key = key ∧ (mode.parseInput r.value).toOption = some order then 1 else 0) *
    r.weight.val = _
  simp only [Prod.mk.injEq, text_eq_iff]
  split_ifs <;> simp

end Groups

namespace KeyedSumCountAggregate

variable {i : DeltaBatch} {p : PreparedAggregateChanges}

/-- The state holds the groups of what the aggregate has received. -/
structure Tracks (aggregate : KeyedSumCountAggregate) (set : ZSet) : Prop where
  valid : aggregate.Valid
  sum : ∀ key, sumOf (aggregate.state.find? (canonicalJson key)) =
    groupSum aggregate.valueMode set key
  count : ∀ key, countOf (aggregate.state.find? (canonicalJson key)) = keyWeight set key
  values : aggregate.trackExtrema = true → ∀ key order,
    valueWeight (valuesOf (aggregate.state.find? (canonicalJson key))) order =
      groupValueWeight aggregate.valueMode set key order

theorem tracks_empty (mode : AggregateValueMode) (trackExtrema : Bool) :
    Tracks (withValueModeAndExtrema mode trackExtrema) 0 where
  valid := valid_empty mode trackExtrema
  sum _ := (weighted_zero _).symm
  count _ := (weighted_zero _).symm
  values _ _ _ := (weighted_zero _).symm

variable {a : KeyedSumCountAggregate} {set : ZSet}

/-- A stored entry is the entry of its key. -/
theorem Tracks.groupEntry (h : Tracks a set) (hf : a.state.find? (canonicalJson key) = some entry) :
    GroupEntry a.valueMode a.trackExtrema set key entry := by
  have hvalid := h.valid _ _ hf
  have hsum := h.sum key
  have hc := h.count key
  have hvals := h.values
  rw [hf] at hsum hc
  refine ⟨canonicalJson_injective hvalid.key, hsum, hc, ?_, hvalid.nonzero⟩
  intro order v
  constructor
  · intro hv
    have ht : a.trackExtrema = true := by
      by_contra ho
      rw [hvalid.untracked (by simpa using ho)] at hv
      cases hv
    have hw := hvals ht key order
    rw [hf, valuesOf, Option.map_some, Option.getD_some, valueWeight, hv] at hw
    obtain ⟨hr, -, -⟩ := AggregateValueMode.render_of_parse (hvalid.parsed order v hv)
    exact ⟨ht, hr, hw, (hvalid.positive order v hv).ne'⟩
  · rintro ⟨ht, hr, hw, hne⟩
    have hs := hvals ht key order
    rw [hf, valuesOf, Option.map_some, Option.getD_some, ← hw, valueWeight] at hs
    rcases hv : entry.values.find? order with _ | stored
    · rw [hv] at hs
      exact absurd hs.symm hne
    · rw [hv] at hs
      obtain ⟨hr', -, -⟩ := AggregateValueMode.render_of_parse (hvalid.parsed order stored hv)
      have hvalue : stored.value = v.value := Except.ok.inj (hr'.symm.trans hr)
      have hsame : stored.weight = v.weight := val_inj.mp hs
      obtain ⟨value, weight⟩ := stored
      obtain ⟨value', weight'⟩ := v
      exact congrArg some (congr (congrArg AggregateValueEntry.mk hvalue) hsame)

theorem Tracks.find?_eq (h : Tracks a set)
    (he : GroupEntry a.valueMode a.trackExtrema set key entry) :
    a.state.find? (canonicalJson key) = some entry := by
  rcases hf : a.state.find? (canonicalJson key) with _ | stored
  · -- nothing is stored, so every quantity of the key is zero
    have hsum := h.sum key
    have hc := h.count key
    rw [hf] at hsum hc
    refine (he.not_zero hsum.symm hc.symm fun ht order => ?_).elim
    rw [← h.values ht, hf]
    rfl
  · exact congrArg some ((h.groupEntry hf).unique he)

/-- The rows of a state that tracks its input are the rows of the groups. -/
theorem Tracks.stateWeight_eq (h : Tracks a set) (pair : Value × Value) :
    a.stateWeight pair = aggregated a.valueMode a.trackExtrema set pair := by
  classical
  have ho : (a.state.erase (canonicalJson pair.1)).total
      (fun _ entry => a.rowWeight pair entry) = 0 := by
    apply total_eq_zero
    intro text entry hf
    rw [find?_erase] at hf
    split_ifs at hf with ht
    have hvalid := h.valid text entry hf
    obtain ⟨fields, hfields⟩ := hvalid.row
    rw [rowWeight_eq hfields, if_neg]
    intro hp
    apply ht
    rw [← hvalid.key, ← hp]
  have hown : a.stateWeight pair =
      (a.state.find? (canonicalJson pair.1)).elim 0 (a.rowWeight pair) := by
    rw [total_erase, sub_eq_zero] at ho
    exact ho
  rw [hown, aggregated_apply]
  rcases hf : a.state.find? (canonicalJson pair.1) with _ | entry
  · rw [Option.elim_none, if_neg]
    rintro ⟨entry, row, he, -, -⟩
    have hs := h.find?_eq he
    rw [hf] at hs
    cases hs
  · obtain ⟨fields, hfields⟩ := (h.valid _ _ hf).row
    have hrow : entry.toRecord 1 a.valueMode a.trackExtrema =
        .ok ⟨entry.key, .object fields, 1⟩ := by
      rw [AggregateEntry.toRecord, hfields]
      rfl
    rw [Option.elim_some, rowWeight_eq hfields]
    apply if_congr _ rfl rfl
    constructor
    · intro hp
      exact ⟨entry, _, h.groupEntry hf, hrow, hp⟩
    · rintro ⟨other, row, ho, hrow', hp⟩
      have hsame : other = entry := ho.unique (h.groupEntry hf)
      rw [hsame, hrow] at hrow'
      rw [← hp, ← Except.ok.inj hrow']
      rfl

/-- A key that an epoch changes: its quantities move by those of the batch. -/
private theorem Tracks.changed (h : Tracks a set) {change : AggregateChange}
    {after : Option AggregateEntry}
    (hchange : CollectedFor a.valueMode (canonicalJson key) i.records change)
    (ha : change.applyTo (a.state.find? (canonicalJson key)) a.trackExtrema = .ok after) :
    sumOf after = groupSum a.valueMode (set + zset i.records) key ∧
      countOf after = keyWeight (set + zset i.records) key ∧
      (a.trackExtrema = true → ∀ order, valueWeight (valuesOf after) order =
        groupValueWeight a.valueMode (set + zset i.records) key order) := by
  obtain ⟨sum, count, values, hsum, hc, -, htracked, rfl⟩ := AggregateChange.applyTo_ok ha
  rw [h.sum, hchange.sum, ← groupSum_zset, ← groupSum_add] at hsum
  rw [h.count, hchange.count, ← keyWeight_zset_eq] at hc
  have hvals (ht : a.trackExtrema = true) (order : I128) : valueWeight values order =
      groupValueWeight a.valueMode (set + zset i.records) key order := by
    obtain ⟨hadd, -, -⟩ := addValueDeltas_ok a.valueMode (htracked ht)
    rw [hadd, h.values ht, hchange.values, groupValueWeight_add, groupValueWeight_zset]
  rw [← hsum, keyWeight, weighted_add, ← keyWeight, ← keyWeight, ← hc]
  split_ifs with hz
  · obtain ⟨rfl, rfl, he⟩ := hz
    refine ⟨rfl, rfl, ?_⟩
    intro ht order
    rw [← hvals ht order]
    rcases he with ho | he
    · rw [ht] at ho
      cases ho
    · unfold valueWeight
      rw [SortedMap.isEmpty_iff.mp he]
      rfl
  · exact ⟨rfl, rfl, hvals⟩

/-- A committed epoch tracks the batch as well. -/
theorem Tracks.commit (h : Tracks a set) (hp : a.prepare i = .ok p) :
    Tracks (a.commit p) (set + zset i.records) := by
  obtain ⟨changes, hc, hprepares⟩ := prepare_prepares hp
  have hkey (key : Value) : sumOf ((a.commit p).state.find? (canonicalJson key)) =
          groupSum a.valueMode (set + zset i.records) key ∧
        countOf ((a.commit p).state.find? (canonicalJson key)) =
          keyWeight (set + zset i.records) key ∧
        (a.trackExtrema = true → ∀ order,
          valueWeight (valuesOf ((a.commit p).state.find? (canonicalJson key))) order =
            groupValueWeight a.valueMode (set + zset i.records) key order) := by
    rcases hchange : changes.find? (canonicalJson key) with _ | change
    · -- no record of the batch has this key
      have habsent := hc.absent _ hchange
      have hsame : (a.commit p).state.find? (canonicalJson key) =
          a.state.find? (canonicalJson key) := by
        rw [find?_commit, hprepares.untouched]
        · rfl
        · intro hm
          obtain ⟨change, hf⟩ := mem_keys_iff.mp hm
          rw [hchange] at hf
          cases hf
      rw [hsame, groupSum_add, groupSum_zset, keyWeight, weighted_add, ← keyWeight, ← keyWeight,
        keyWeight_zset_eq, h.sum, h.count]
      refine ⟨?_, ?_, ?_⟩
      · rw [keySum, weightAt_eq_zero habsent, add_zero]
      · rw [keyCount, weightAt_eq_zero habsent, add_zero]
      · intro ht order
        rw [h.values ht, groupValueWeight_add, groupValueWeight_zset, keyValueWeight,
          weightAt_eq_zero, add_zero]
        intro r hr heq
        exact habsent r hr (Prod.ext_iff.mp heq).1
    · have ha := hprepares.touched _ (mem_entries_iff.mpr hchange)
      exact h.changed (hc.present _ _ hchange) ha
  exact ⟨commit_valid h.valid hp, fun key => (hkey key).1, fun key => (hkey key).2.1,
    fun ht key => (hkey key).2.2 ht⟩

theorem Tracks.output (h : Tracks a set) (hp : a.prepare i = .ok p) :
    zset p.output.records = aggregated a.valueMode a.trackExtrema (set + zset i.records) -
        aggregated a.valueMode a.trackExtrema set := by
  obtain ⟨changes, -, hprepares⟩ := prepare_prepares hp
  ext pair
  rw [zset_apply, hprepares.output, (h.commit hp).stateWeight_eq, h.stateWeight_eq,
    Finsupp.sub_apply]
  rfl

end KeyedSumCountAggregate
end Velorix.Operator
