import Velorix.Operator.AggregateBatch

/-! The aggregate over a run of accepted batches. Its rows are what the outputs add up to and
hold the sums and counts of everything accepted, and they restore the state unless a decimal
sum is the least `i128`. -/
namespace Velorix.Operator

open Json Delta Result List SortedMap

section Values
variable {mode : AggregateValueMode} {text : List Char} {rs : List DeltaRecord}

theorem sum_keyValueWeight {orders : Finset I128}
    (h : ∀ r ∈ rs, ∃ amount ∈ orders, mode.parseInput r.value = .ok amount) :
    ∑ order ∈ orders, keyValueWeight mode text rs order = keyCount text rs := by
  induction rs with
  | nil => simp [keyValueWeight, keyCount]
  | cons r rs ih =>
    obtain ⟨amount, hmem, ha⟩ := h r mem_cons_self
    have hrest := ih fun r hr => h r (mem_cons_of_mem _ hr)
    simp only [keyValueWeight, keyCount, weightAt_cons, Finset.sum_add_distrib] at hrest ⊢
    rw [hrest, ha]
    by_cases hk : canonicalJson r.key = text
    · simp [hk, hmem, Except.toOption]
    · simp [hk]

theorem total_values_eq {values : SortedMap I128 AggregateValueEntry}
    (hp : ∀ r ∈ rs, ∃ amount, mode.parseInput r.value = .ok amount)
    (hvals : ∀ order, valueWeight values order = keyValueWeight mode text rs order) :
    values.total (fun _ v => v.weight.val) = keyCount text rs := by
  classical
  let read := (rs.filterMap fun r => (mode.parseInput r.value).toOption).toFinset
  have hread : ∀ r ∈ rs, ∃ amount ∈ values.keys.toFinset ∪ read,
      mode.parseInput r.value = .ok amount := by
    intro r hr
    obtain ⟨amount, ha⟩ := hp r hr
    refine ⟨amount, Finset.mem_union_right _ (mem_toFinset.mpr ?_), ha⟩
    exact mem_filterMap.mpr ⟨r, hr, by rw [ha]; rfl⟩
  rw [← sum_keyValueWeight hread, ← Finset.sum_subset Finset.subset_union_left]
  · have hk : values.keys.toFinset.sum (keyValueWeight mode text rs) =
        (values.keys.map (keyValueWeight mode text rs)).sum :=
      sum_toFinset _ values.keys_nodup
    rw [hk, SortedMap.keys, map_map, SortedMap.total]
    congr 1
    refine map_congr_left fun e he => ?_
    rw [Function.comp_apply, ← hvals, valueWeight, mem_entries_iff.mp he]
    rfl
  · -- an amount that is read but not stored has weight zero
    intro order _ habsent
    rw [← hvals, valueWeight]
    rcases hf : values.find? order with _ | v
    · rfl
    · exact absurd (mem_toFinset.mpr (mem_keys_iff.mpr ⟨v, hf⟩)) habsent

end Values

theorem AggregateEntry.extrema_spec {e : AggregateEntry} {min max : Value}
    (h : e.extrema = some (min, max)) : ∃ low hi first last,
      e.values.find? low = some first ∧ e.values.find? hi = some last ∧
        first.value = min ∧ last.value = max ∧
        ∀ order v, e.values.find? order = some v → low ≤ order ∧ order ≤ hi := by
  simp only [extrema, Option.bind_eq_bind, Option.bind_eq_some_iff, SortedMap.values,
    head?_map, getLast?_map, Option.map_eq_some_iff] at h
  obtain ⟨_, ⟨first, hfirst, rfl⟩, _, ⟨last, hl, rfl⟩, h⟩ := h
  cases h
  have hs := e.values.sorted
  obtain ⟨rest, hrest⟩ := head?_eq_some_iff.mp hfirst
  obtain ⟨front, hfront⟩ := getLast?_eq_some_iff.mp hl
  refine ⟨first.1, last.1, first.2, last.2, mem_entries_iff.mp (by simp [hrest]),
    mem_entries_iff.mp (by simp [hfront]), rfl, rfl, fun order v hf => ⟨?_, ?_⟩⟩
  · have hmem := mem_entries_iff.mpr hf
    rw [hrest] at hmem hs
    rcases mem_cons.mp hmem with rfl | hmem
    · exact le_rfl
    · exact ((pairwise_cons.mp hs).1 _ hmem).le
  · have hmem := mem_entries_iff.mpr hf
    rw [hfront] at hmem hs
    rcases mem_append.mp hmem with hmem | hmem
    · exact ((pairwise_append.mp hs).2.2 _ hmem _ (mem_singleton.mpr rfl)).le
    · rw [← mem_singleton.mp hmem]

namespace KeyedSumCountAggregate

/-- Batches applied one after another, with the outputs. -/
def applyAll (aggregate : KeyedSumCountAggregate) :
    List DeltaBatch → Except OperatorError (List DeltaBatch × KeyedSumCountAggregate)
  | [] => .ok ([], aggregate)
  | input :: inputs => do
    let (output, next) ← aggregate.apply input
    let (outputs, final) ← next.applyAll inputs
    return (output :: outputs, final)

def recordsOf (batches : List DeltaBatch) : List DeltaRecord := batches.flatMap DeltaBatch.records

variable {mode : AggregateValueMode} {trackExtrema : Bool} {inputs outputs : List DeltaBatch}
  {a final : KeyedSumCountAggregate} {set : ZSet}

/-- What a run establishes, from any state that tracks its input. -/
theorem Tracks.applyAll (h : Tracks a set) (hrun : a.applyAll inputs = .ok (outputs, final)) :
    Tracks final (set + zset (recordsOf inputs)) ∧ final.valueMode = a.valueMode ∧
      final.trackExtrema = a.trackExtrema ∧
      (∀ r ∈ recordsOf inputs, ∃ amount, a.valueMode.parseInput r.value = .ok amount) ∧
      zset (recordsOf outputs) =
        aggregated a.valueMode a.trackExtrema (set + zset (recordsOf inputs)) -
          aggregated a.valueMode a.trackExtrema set := by
  induction inputs generalizing a set outputs with
  | nil =>
    cases hrun
    refine ⟨?_, rfl, rfl, by simp [recordsOf], ?_⟩
    · rw [recordsOf, flatMap_nil, zset_nil, add_zero]
      exact h
    · rw [recordsOf, flatMap_nil, zset_nil, add_zero, sub_self]
  | cons i inputs ih =>
    obtain ⟨⟨o, next⟩, ha, hrun⟩ := bind_eq_ok.mp hrun
    obtain ⟨⟨outputs', final'⟩, hrest, hrun⟩ := bind_eq_ok.mp hrun
    cases hrun
    obtain ⟨p, hprep, ha⟩ := bind_eq_ok.mp ha
    cases ha
    obtain ⟨changes, hc, -⟩ := prepare_prepares hprep
    obtain ⟨ht, hm, he, hp, ho⟩ := ih (h.commit hprep) hrest
    have hrecs : set + zset (recordsOf (i :: inputs)) =
        set + zset i.records + zset (recordsOf inputs) := by
      rw [recordsOf, flatMap_cons, zset_append, add_assoc]
      rfl
    refine ⟨hrecs ▸ ht, hm, he, fun r hr => ?_, ?_⟩
    · rcases mem_append.mp hr with hr | hr
      · exact hc.amounts r hr
      · exact hp r hr
    · rw [hrecs, recordsOf, flatMap_cons, zset_append, ← recordsOf, ho, h.output hprep]
      exact sub_add_sub_cancel' _ _ _

theorem Tracks.zset_stateBatch (h : Tracks a set) :
    zset a.stateBatch.records = aggregated a.valueMode a.trackExtrema set := by
  obtain ⟨rows, hrows⟩ := stateRows_ok h.valid
  ext pair
  rw [stateBatch, hrows, zset_apply, ← h.stateWeight_eq, pairWeight, weightAt_eq_sum, stateWeight,
    SortedMap.total]
  congr 1
  rw [← forall₂_eq_eq_eq, forall₂_map_left_iff, forall₂_map_right_iff]
  refine (forall₂_of_mapM_values hrows).flip.imp fun row e hrow => ?_
  obtain ⟨fields, hfields, rfl⟩ := toRecord_ok hrow.2
  rw [rowWeight_eq hfields]
  rfl

/-- The extrema of a row: the values of the least and of the greatest order. -/
def ExtremaOf (values : SortedMap I128 AggregateValueEntry) (fields : SortedMap String Value) :
    Prop :=
  ∃ low high first last, values.find? low = some first ∧ values.find? high = some last ∧
    fields.find? "min" = some first.value ∧ fields.find? "max" = some last.value ∧
    ∀ order v, values.find? order = some v → low ≤ order ∧ order ≤ high

/-- A row and its entry hold the quantities of the key in the accepted records. -/
structure RowOf (mode : AggregateValueMode) (trackExtrema : Bool) (records : List DeltaRecord)
    (stored : List Char × AggregateEntry) (row : DeltaRecord) : Prop where
  key : canonicalJson row.key = stored.1
  weight : row.weight = 1
  sum : stored.2.sum.val = keySum mode stored.1 records
  count : stored.2.count.val = keyCount stored.1 records
  fields : ∃ fields sum count, row.value = .object fields ∧
    fields.find? "sum" = some sum ∧ aggregateSumJsonValue stored.2.sum mode = .ok sum ∧
    fields.find? "count" = some (.ofI64 count) ∧ count.val = stored.2.count.val ∧
    (trackExtrema = true → ExtremaOf stored.2.values fields)
  values : ∀ order v, stored.2.values.find? order = some v →
    0 < v.weight.val ∧ mode.parseStateSum v.value = .ok order
  weights : trackExtrema = true → ∀ order,
    valueWeight stored.2.values order = keyValueWeight mode stored.1 records order
  total : trackExtrema = true → stored.2.values.total (fun _ v => v.weight.val) =
    keyCount stored.1 records

theorem Tracks.rowOf {rs : List DeltaRecord} (h : Tracks a (zset rs))
    (hp : ∀ r ∈ rs, ∃ amount, a.valueMode.parseInput r.value = .ok amount)
    {stored : List Char × AggregateEntry} {row : DeltaRecord}
    (hf : a.state.find? stored.1 = some stored.2)
    (hrow : stored.2.toRecord 1 a.valueMode a.trackExtrema = .ok row) :
    RowOf a.valueMode a.trackExtrema rs stored row := by
  obtain ⟨text, e⟩ := stored
  have hvalid := h.valid _ _ hf
  obtain rfl : canonicalJson e.key = text := hvalid.key
  obtain ⟨fields, hfields, rfl⟩ := toRecord_ok hrow
  obtain ⟨count, sum, hc, hs, hfsum, hfcount, he⟩ := AggregateEntry.rowFields_ok hfields
  have hentry := h.groupEntry hf
  have hw (ht : a.trackExtrema = true) (order : I128) : valueWeight e.values order =
        keyValueWeight a.valueMode (canonicalJson e.key) rs order := by
    have hvals := h.values ht e.key order
    rw [hf, groupValueWeight_zset] at hvals
    exact hvals
  refine ⟨rfl, rfl, hentry.sum.trans (groupSum_zset _ _),
    hentry.count.trans (keyWeight_zset_eq _ _),
    ⟨fields, sum, count, rfl, hfsum, hs, hfcount, hc, fun ht => ?_⟩,
    fun order v hv => ⟨hvalid.positive order v hv, hvalid.parsed order v hv⟩, hw,
    fun ht => total_values_eq hp (hw ht)⟩
  obtain ⟨min, max, -, he, -, hm, hmax, -⟩ := he ht
  obtain ⟨low, hi, first, last, hl, hh, rfl, rfl, hb⟩ :=
    AggregateEntry.extrema_spec he
  exact ⟨low, hi, first, last, hl, hh, hm, hmax, hb⟩

theorem Tracks.absent_iff {rs : List DeltaRecord} (h : Tracks a (zset rs))
    (key : Value) : a.state.find? (canonicalJson key) = none ↔
      keySum a.valueMode (canonicalJson key) rs = 0 ∧ keyCount (canonicalJson key) rs = 0 ∧
      (a.trackExtrema = true → ∀ order,
        keyValueWeight a.valueMode (canonicalJson key) rs order = 0) := by
  rw [← groupSum_zset, ← keyWeight_zset_eq]
  simp only [← groupValueWeight_zset]
  constructor
  · intro hf
    rw [← h.sum, ← h.count, hf]
    refine ⟨rfl, rfl, fun ht order => ?_⟩
    rw [← h.values ht, hf]
    rfl
  · rintro ⟨hs, hc, hvals⟩
    rcases hf : a.state.find? (canonicalJson key) with _ | e
    · rfl
    · exact ((h.groupEntry hf).not_zero hs hc hvals).elim

theorem applyAll_tracks
    (h : (withValueModeAndExtrema mode trackExtrema).applyAll inputs = .ok (outputs, final)) :
    Tracks final (zset (recordsOf inputs)) ∧ final.valueMode = mode ∧
      final.trackExtrema = trackExtrema ∧
      (∀ r ∈ recordsOf inputs, ∃ amount, mode.parseInput r.value = .ok amount) ∧
      zset (recordsOf outputs) = zset final.stateBatch.records := by
  obtain ⟨ht, hm, he, hp, ho⟩ :=
    (tracks_empty mode trackExtrema).applyAll h
  rw [zero_add] at ht ho
  refine ⟨ht, hm, he, hp, ?_⟩
  rw [ht.zset_stateBatch, ho, hm, he, aggregated_zero, sub_zero]

/-- The aggregate is exact over any run: the outputs add up to the rows of the state, which
exist and hold the quantities of the accepted records. -/
theorem applyAll_exact
    (h : (withValueModeAndExtrema mode trackExtrema).applyAll inputs = .ok (outputs, final)) :
    (∃ rows, final.stateRows = .ok rows ∧ zset (recordsOf outputs) = zset rows ∧
      List.Forall₂ (RowOf mode trackExtrema (recordsOf inputs)) final.state.entries rows) ∧
    (∀ r ∈ recordsOf inputs, ∃ amount, mode.parseInput r.value = .ok amount) ∧
    ∀ key, final.state.find? (canonicalJson key) = none ↔
      keySum mode (canonicalJson key) (recordsOf inputs) = 0 ∧
      keyCount (canonicalJson key) (recordsOf inputs) = 0 ∧ (trackExtrema = true → ∀ order,
        keyValueWeight mode (canonicalJson key) (recordsOf inputs) order = 0) := by
  obtain ⟨htracks, rfl, rfl, hparsed, houtputs⟩ := applyAll_tracks h
  obtain ⟨rows, hrows⟩ := stateRows_ok htracks.valid
  refine ⟨⟨rows, hrows, ?_, ?_⟩, hparsed, htracks.absent_iff⟩
  · rw [houtputs, stateBatch, hrows]
    rfl
  · exact (forall₂_of_mapM_values hrows).imp fun stored row hrow =>
      htracks.rowOf hparsed hrow.1 hrow.2

/-- Two batches of one key, the second taking a value away again. -/
def movedBatches (value other : Value) : List DeltaBatch :=
  [⟨[⟨.string "a", value, 1⟩, ⟨.string "a", other, 1⟩]⟩,
    ⟨[⟨.string "a", value, ⟨-1, SInt.minusOne_lo, SInt.minusOne_hi⟩⟩]⟩]

theorem applyAll_exact_moved : ∃ outputs final, (withValueModeAndExtrema .integer true).applyAll
      (movedBatches (.ofI64 0) (.ofI64 1)) = .ok (outputs, final) ∧
    ∃ rows, final.stateRows = .ok rows ∧ zset (recordsOf outputs) = zset rows := by
  obtain ⟨⟨outputs, final⟩, h⟩ := toOption_isSome_iff.mp (show
    ((withValueModeAndExtrema .integer true).applyAll
      (movedBatches (.ofI64 0) (.ofI64 1))).toOption.isSome = true by decide +kernel)
  obtain ⟨⟨rows, hrows, hset, -⟩, -⟩ := applyAll_exact h
  exact ⟨outputs, final, h, rows, hrows, hset⟩

/-- A state whose rows are restored has only sums that parse. -/
theorem readable_of_fromState {restored : KeyedSumCountAggregate} (hvalid : a.Valid)
    (h : fromStateWithValueModeAndExtrema a.stateBatch a.valueMode
      a.trackExtrema = .ok restored) {text : List Char} {e : AggregateEntry}
    (hf : a.state.find? text = some e) : a.valueMode.Readable e.sum := by
  obtain ⟨rows, hrows⟩ := stateRows_ok hvalid
  obtain ⟨row, hmem, hrow⟩ :=
    exists_mem_of_mapM hrows (mem_values_iff.mpr ⟨text, hf⟩)
  obtain ⟨fields, hfields, rfl⟩ := toRecord_ok hrow
  obtain ⟨-, sum, -, hs, hfsum, -⟩ := AggregateEntry.rowFields_ok hfields
  obtain ⟨front, back, rfl⟩ := append_of_mem hmem
  rw [fromStateWithValueModeAndExtrema, stateBatch, hrows] at h
  obtain ⟨_, h, -⟩ := bind_eq_ok.mp h
  change (front ++ _ :: back).foldlM _ _ = _ at h
  rw [foldlM_append] at h
  obtain ⟨s, -, h⟩ := bind_eq_ok.mp h
  obtain ⟨_, h, -⟩ := bind_eq_ok.mp h
  obtain ⟨_, h, -⟩ := bind_eq_ok.mp h
  simp only [aggregateStateSumCountValues, Value.get_object, hfsum, orInvalidState,
    ok_bind] at h
  obtain ⟨read, hread, -⟩ := bind_eq_ok.mp h
  obtain ⟨hr, -, hreadable⟩ := AggregateValueMode.render_of_parse hread
  cases hm : a.valueMode with
  | integer => trivial
  | decimal128 precision scale =>
    rw [hm] at hr hreadable hs
    simp only [aggregateSumJsonValue] at hr hs
    split_ifs at hr hs
    have ht := congrArg Value.asStr (Except.ok.inj (hr.trans hs.symm))
    rw [Value.asStr_string, Value.asStr_string] at ht
    rw [← formatDecimal128Value_inj (String.ofList_injective (Option.some.inj ht))]
    exact hreadable

/-- The rows of a run restore its state exactly if no key of a decimal aggregate adds up to
the least `i128`. -/
theorem applyAll_restores_iff
    (h : (withValueModeAndExtrema mode trackExtrema).applyAll inputs = .ok (outputs, final)) :
    fromStateWithValueModeAndExtrema final.stateBatch mode trackExtrema = .ok final ↔
      ∀ precision scale, mode = .decimal128 precision scale → ∀ key,
        keySum mode (canonicalJson key) (recordsOf inputs) ≠ -2 ^ 127 := by
  obtain ⟨htracks, rfl, rfl, -, -⟩ := applyAll_tracks h
  constructor
  · intro hrestored precision scale hmode key hsum
    rw [← groupSum_zset, ← htracks.sum] at hsum
    rcases hfind : final.state.find? (canonicalJson key) with _ | entry
    · rw [hfind] at hsum
      exact absurd hsum (by decide)
    · have hread := readable_of_fromState htracks.valid hrestored hfind
      rw [hmode] at hread
      rw [hfind] at hsum
      exact absurd hsum hread.ne'
  · intro hsums
    refine fromState_stateBatch htracks.valid fun text entry hfind => ?_
    cases hmode : final.valueMode with
    | integer => trivial
    | decimal128 precision scale =>
      have hkey := (htracks.valid _ _ hfind).key
      have hsum := htracks.sum entry.key
      rw [hkey, hfind, groupSum_zset] at hsum
      obtain ⟨hlow, -⟩ := SInt.fits128_iff.mp entry.sum.val_fits
      exact lt_of_le_of_ne hlow fun hleast => hsums precision scale hmode entry.key
        (hsum.symm.trans hleast.symm)

theorem applyAll_restores_moved : ∃ outputs final,
    (withValueModeAndExtrema (.decimal128 39 0) true).applyAll
      (movedBatches (.string "1") (.string "2")) = .ok (outputs, final) ∧
    fromStateWithValueModeAndExtrema final.stateBatch (.decimal128 39 0) true = .ok final := by
  obtain ⟨⟨outputs, final⟩, h⟩ := toOption_isSome_iff.mp (show
    ((withValueModeAndExtrema (.decimal128 39 0) true).applyAll
      (movedBatches (.string "1") (.string "2"))).toOption.isSome = true by decide +kernel)
  refine ⟨outputs, final, h, (applyAll_restores_iff h).mpr fun _ _ _ key => ?_⟩
  have hone : amountOf (.decimal128 39 0) (.string "1") = 1 := by decide +kernel
  have htwo : amountOf (.decimal128 39 0) (.string "2") = 2 := by decide +kernel
  by_cases hkey : canonicalJson (.string "a") = canonicalJson key <;>
    simp [keySum, weightAt, recordsOf, movedBatches, hkey, hone, htwo]

/-- Two values that add up to the least `i128`. -/
def leastBatch : DeltaBatch :=
  ⟨[⟨.string "a", .string "-170141183460469231731687303715884105727", 1⟩,
    ⟨.string "a", .string "-1", 1⟩]⟩

/-- The sum is accepted and printed, and its row is refused. -/
theorem leastBatch_not_restored :
    ((withValueModeAndExtrema (.decimal128 39 0) false).applyAll [leastBatch]).toOption.map
      (fun run => (fromStateWithValueModeAndExtrema run.2.stateBatch (.decimal128 39 0)
        false).toOption.isSome) = some false := by
  decide +kernel

end KeyedSumCountAggregate
end Velorix.Operator
