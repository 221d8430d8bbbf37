import Velorix.Operator.Aggregate

/-! What every successful epoch of the aggregate keeps true of its entries, and that the
rows of a state restore the state. -/
namespace Velorix.Operator

open Json Delta Result SortedMap SInt Option Value List

variable {value : Value} {values : SortedMap I128 AggregateValueEntry}

theorem orOverflow_eq_ok {α : Type} {x : Option α} {a : α} : orOverflow x = .ok a ↔ x = some a := by
  cases x <;> simp [orOverflow]

namespace AggregateValueMode

/-- The scale of the mode is a power of ten that an `i128` holds. -/
def Scalable : AggregateValueMode → Prop
  | .integer => True
  | .decimal128 _ scale => (decimal128ScaleFactor scale.toNat).isSome = true

/-- The least `i128` prints as a decimal but does not parse: its magnitude overflows. -/
def Readable : AggregateValueMode → I128 → Prop
  | .integer, _ => True
  | .decimal128 _ _, sum => -2 ^ 127 < sum.val

theorem parse_of_render {mode : AggregateValueMode} {sum : I128} (hs : mode.Scalable)
    (hr : mode.Readable sum) (h : aggregateSumJsonValue sum mode = .ok value)
    (e e' : OperatorError) : mode.parse e e' value = .ok sum := by
  cases mode with
  | integer =>
    obtain ⟨narrow, hn, h⟩ := bind_eq_ok.mp h
    cases h
    have hv := toI64?_eq_some.mp (orOverflow_eq_ok.mp hn)
    rw [parse, asI64_ofI64]
    exact congrArg Except.ok (val_inj.mp hv)
  | decimal128 precision scale =>
    simp only [aggregateSumJsonValue] at h
    split_ifs at h with hp
    cases h
    simp only [parse, parseDecimal128Value, asStr_string, bind_some,
      String.toList_ofList, parseDecimal128Str_format hr hp hs]

theorem render_of_parse {mode : AggregateValueMode} {amount : I128} {e e' : OperatorError}
    (h : mode.parse e e' value = .ok amount) :
    aggregateSumJsonValue amount mode = .ok value ∧ mode.Scalable ∧ mode.Readable amount := by
  cases mode with
  | integer =>
    simp only [parse] at h
    split at h
    · rename_i narrow hn
      cases h
      have hb : narrow.toI128.toI64? = some narrow := toI64?_eq_some.mpr (by simp)
      rw [eq_ofI64_of_asI64 hn]
      exact ⟨by simp [aggregateSumJsonValue, hb, orOverflow], trivial, trivial⟩
    · cases h
  | decimal128 precision scale =>
    simp only [parse, parseDecimal128Value] at h
    split at h
    · rename_i read hr
      cases h
      obtain ⟨text, ht, hparse⟩ := bind_eq_some_iff.mp hr
      obtain ⟨hf, hm, hp, hs⟩ := parseDecimal128Str_spec hparse
      rw [eq_string_of_asStr ht, aggregateSumJsonValue, if_pos hp, hf, String.ofList_toList]
      exact ⟨rfl, hs, hm⟩
    · cases h

theorem parseStateSum_of_parseInput {mode : AggregateValueMode} {amount : I128}
    (h : mode.parseInput value = .ok amount) : mode.parseStateSum value = .ok amount := by
  obtain ⟨hrender, hs, hr⟩ := render_of_parse h
  exact parse_of_render hs hr hrender _ _

end AggregateValueMode

/-- The weight a value has in a map of weighted values. -/
def valueWeight (values : SortedMap I128 AggregateValueEntry) (orderValue : I128) : ℤ :=
  ((values.find? orderValue).map fun entry => entry.weight.val).getD 0

theorem addValueWeightToMap_ok {result : SortedMap I128 AggregateValueEntry}
    {orderValue weightDelta : I128} {rejectNegative : Bool}
    (h : addValueWeightToMap values orderValue value weightDelta rejectNegative = .ok result) :
    ∃ next : I128, next.val = valueWeight values orderValue + weightDelta.val ∧
      (rejectNegative = true → 0 ≤ next.val) ∧
      result = values.set orderValue (if next = 0 then none else some ⟨value, next⟩) := by
  simp only [addValueWeightToMap, bind_eq_ok, orOverflow_eq_ok] at h
  obtain ⟨next, hn, h⟩ := h
  have hv := ofInt?_eq_some.mp hn
  have hb : (((values.find? orderValue).map AggregateValueEntry.weight).getD 0).val =
      valueWeight values orderValue := by
    unfold valueWeight
    rcases values.find? orderValue with _ | ent <;> rfl
  rw [hb] at hv
  refine ⟨next, hv, ?_, ?_⟩
  · intro hr
    by_contra hneg
    simp [hr, show next.val < 0 by omega] at h
  · split_ifs at h with hneg hz
    · cases h
      rw [if_pos hz]
      rfl
    · cases h
      rw [if_neg hz]
      rfl

theorem addValueWeightToMap_of_absent {orderValue weight : I128}
    (ha : values.find? orderValue = none) (hp : 0 < weight.val) (rejectNegative : Bool) :
    addValueWeightToMap values orderValue value weight rejectNegative =
      .ok (values.insert orderValue ⟨value, weight⟩) := by
  have hadd : (0 : I128).checkedAdd weight = some weight := ofInt?_eq_some.mpr (by simp)
  have hne : weight ≠ 0 := by
    rintro rfl
    exact absurd hp (lt_irrefl _)
  simp only [addValueWeightToMap, ha, map_none, getD_none, hadd, orOverflow,
    ok_bind, if_neg hne]
  rw [if_neg (by simp [not_lt.mpr hp.le])]
  rfl

namespace AggregateEntry

/-- A stored entry: it has its row, its values parse back to their order and count
positively, and something of it is not zero. -/
structure Valid (mode : AggregateValueMode) (trackExtrema : Bool) (text : List Char)
    (entry : AggregateEntry) : Prop where
  key : canonicalJson entry.key = text
  row : ∃ fields, entry.rowFields mode trackExtrema = .ok fields
  untracked : trackExtrema = false → entry.values = ∅
  parsed : ∀ order v, entry.values.find? order = some v → mode.parseStateSum v.value = .ok order
  positive : ∀ order v, entry.values.find? order = some v → 0 < v.weight.val
  nonzero : entry.isZero = false
  scalable : mode.Scalable

theorem rowFields_ok {ent : AggregateEntry} {mode : AggregateValueMode} {track : Bool}
    {fields : SortedMap String Value} (h : ent.rowFields mode track = .ok fields) :
    ∃ (count : I64) (sum : Value), count.val = ent.count.val ∧
      aggregateSumJsonValue ent.sum mode = .ok sum ∧
      fields.find? "sum" = some sum ∧ fields.find? "count" = some (.ofI64 count) ∧
      (track = true → ∃ min max rows, ent.extrema = some (min, max) ∧
        ent.values.values.mapM valueRow = .ok rows ∧ fields.find? "min" = some min ∧
        fields.find? "max" = some max ∧ fields.find? "values" = some (.array rows)) := by
  simp only [rowFields, bind_eq_ok, orOverflow_eq_ok] at h
  obtain ⟨count, hc, sum, hs, h⟩ := h
  refine ⟨count, sum, toI64?_eq_some.mp hc, hs, ?_⟩
  split_ifs at h with ht
  · split at h
    · cases h
    · rename_i min max he
      obtain ⟨rows, hrows, h⟩ := bind_eq_ok.mp h
      cases h
      refine ⟨?_, ?_, fun _ => ⟨min, max, rows, he, hrows, ?_, ?_, ?_⟩⟩ <;>
        simp [SortedMap.ofList, find?_insert]
  · cases h
    refine ⟨?_, ?_, fun h => absurd h ht⟩ <;>
      simp [SortedMap.ofList, find?_insert]

end AggregateEntry

section RoundTrip
variable {mode : AggregateValueMode} {track : Bool} {text : List Char} {ent : AggregateEntry}

theorem forall₂_of_mapM_values {ε β K V : Type} [LinearOrder K] {values : SortedMap K V}
    {f : V → Except ε β} {rows : List β} (h : values.values.mapM f = .ok rows) :
    List.Forall₂ (fun e row => values.find? e.1 = some e.2 ∧ f e.2 = .ok row) values.entries
      rows := by
  rw [mapM_eq_ok, SortedMap.values, forall₂_map_left_iff] at h
  exact (forall₂_and_left _ _).mpr ⟨fun _ => mem_entries_iff.mp, h⟩

theorem parseStateValues_rows (h : ent.Valid mode track text) {rows : List Value}
    (hrows : ent.values.values.mapM valueRow = .ok rows) :
    rows.foldlM (parseStateValue mode) ∅ = .ok ent.values := by
  refine foldlM_entries id ?_
  refine (forall₂_of_mapM_values hrows).imp ?_
  rintro ⟨order, v⟩ row ⟨hfind, hr⟩ values -
  obtain ⟨weight, hw, hr⟩ := bind_eq_ok.mp hr
  cases hr
  have hv : weight.val = v.weight.val := toI64?_eq_some.mp (orOverflow_eq_ok.mp hw)
  have hp := h.positive order v hfind
  have hne : weight ≠ 0 := by
    rintro rfl
    rw [i64_zero_val] at hv
    omega
  have hwide : weight.toI128 = v.weight := val_inj.mp hv
  simp only [parseStateValue, asObject_object, SortedMap.ofList, foldl_cons,
    foldl_nil, find?_insert, orInvalidState, ok_bind, id]
  simp [h.parsed order v hfind, hne, hwide]

theorem addValueWeights_entries (h : ent.Valid mode track text) :
    ent.values.entries.foldlM (fun (ent : AggregateEntry) value =>
      ent.addValueWeight value.1 value.2.value value.2.weight 1) { ent with values := ∅ } =
      .ok ent := by
  refine foldlM_entries (fun values => { ent with values }) ?_
  rw [forall₂_same]
  intro e he values ha
  have hp := h.positive e.1 e.2 (mem_entries_iff.mp he)
  have hm : e.2.weight.checkedMul (1 : I64).toI128 = some e.2.weight :=
    ofInt?_eq_some.mpr (by simp)
  simp only [AggregateEntry.addValueWeight, hm, orOverflow, ok_bind,
    addValueWeightToMap_of_absent ha hp]
  rfl

theorem addWeighted_one (key : Value) {count : I64} (hc : count.val = ent.count.val) :
    (AggregateEntry.mk key 0 0 ∅).addWeighted ent.sum count 1 =
      .ok ⟨key, ent.sum, ent.count, ∅⟩ := by
  have hs : ent.sum.checkedMul (1 : I64).toI128 = some ent.sum :=
    ofInt?_eq_some.mpr (by simp)
  have hm : count.toI128.checkedMul (1 : I64).toI128 = some ent.count :=
    ofInt?_eq_some.mpr (by simp [hc])
  have hadd (a : I128) : (0 : I128).checkedAdd a = some a := ofInt?_eq_some.mpr (by simp)
  simp only [AggregateEntry.addWeighted, hs, hm, hadd, orOverflow, ok_bind]
  rfl

theorem stateSumCountValues_row (h : ent.Valid mode track text)
    (hr : mode.Readable ent.sum) {fields : SortedMap String Value}
    (hf : ent.rowFields mode track = .ok fields) :
    ∃ count : I64, count.val = ent.count.val ∧
      aggregateStateSumCountValues (.object fields) mode track =
        .ok (ent.sum, count, ent.values) := by
  obtain ⟨count, sum, hc, hs, hfsum, hfcount, hv⟩ :=
    AggregateEntry.rowFields_ok hf
  have hparse : mode.parseStateSum sum = .ok ent.sum :=
    AggregateValueMode.parse_of_render h.scalable hr hs _ _
  refine ⟨count, hc, ?_⟩
  simp only [aggregateStateSumCountValues, get_object, hfsum, hfcount, orInvalidState,
    ok_bind, hparse, bind_some, asI64_ofI64]
  cases track with
  | false => simp [h.untracked rfl]
  | true =>
    obtain ⟨min, max, rows, he, hrows, -, -, hfrows⟩ := hv rfl
    have hn : ent.values.isEmpty = false := by
      rw [SortedMap.isEmpty, isEmpty_eq_false_iff]
      intro hnil
      simp [AggregateEntry.extrema, SortedMap.values, hnil] at he
    simp [hfrows, parseStateValues_rows h hrows, hn]

theorem restoreRecord_row (h : ent.Valid mode track text)
    (hr : mode.Readable ent.sum) {r : DeltaRecord} (hrec : ent.toRecord 1 mode track = .ok r)
    {s : SortedMap (List Char) AggregateEntry} (ha : s.find? text = none) :
    KeyedSumCountAggregate.restoreRecord mode track s r = .ok (s.insert text ent) := by
  obtain ⟨fields, hf, hrec⟩ := bind_eq_ok.mp hrec
  cases hrec
  obtain ⟨count, hc, hs⟩ := stateSumCountValues_row h hr hf
  simp only [KeyedSumCountAggregate.restoreRecord, hs, ok_bind, h.key, ha,
    getD_none, addWeighted_one ent.key hc]
  cases track with
  | false =>
    have he : (⟨ent.key, ent.sum, ent.count, ∅⟩ : AggregateEntry) = ent := by
      rw [← h.untracked rfl]
    simp [he, h.nonzero]
  | true =>
    have hv := addValueWeights_entries h
    rw [if_pos rfl, hv, ok_bind, h.nonzero]
    rfl

end RoundTrip

namespace KeyedSumCountAggregate

/-- Every stored entry is valid under its key. -/
def Valid (aggregate : KeyedSumCountAggregate) : Prop :=
  ∀ text entry, aggregate.state.find? text = some entry →
    entry.Valid aggregate.valueMode aggregate.trackExtrema text

theorem valid_empty (mode : AggregateValueMode) (track : Bool) :
    (withValueModeAndExtrema mode track).Valid := by
  intro text ent h
  cases h

theorem stateRows_ok {a : KeyedSumCountAggregate} (h : a.Valid) :
    ∃ rows, a.stateRows = .ok rows := by
  have hr : ∀ ent ∈ a.state.values, ∃ r, ent.toRecord 1 a.valueMode a.trackExtrema = .ok r := by
    intro ent he
    obtain ⟨text, hfind⟩ := mem_values_iff.mp he
    obtain ⟨fields, hf⟩ := (h text ent hfind).row
    exact ⟨_, bind_eq_ok.mpr ⟨fields, hf, rfl⟩⟩
  exact mapM_ok_of_forall hr

theorem fromState_stateBatch {a : KeyedSumCountAggregate} (h : a.Valid)
    (hr : ∀ text ent, a.state.find? text = some ent → a.valueMode.Readable ent.sum) :
    fromStateWithValueModeAndExtrema a.stateBatch a.valueMode a.trackExtrema = .ok a := by
  obtain ⟨rows, hrows⟩ := stateRows_ok h
  have hb : a.stateBatch.records = rows := by rw [stateBatch, hrows]; rfl
  have hf : rows.foldlM (restoreRecord a.valueMode a.trackExtrema) ∅ = .ok a.state := by
    refine foldlM_entries id ?_
    refine (forall₂_of_mapM_values hrows).imp ?_
    rintro ⟨text, ent⟩ r ⟨hfind, hrec⟩ s ha
    exact restoreRecord_row (h text ent hfind) (hr text ent hfind) hrec ha
  rw [fromStateWithValueModeAndExtrema, hb, hf, ok_bind]
  change (a.stateRows >>= _) = _
  rw [hrows]
  rfl

end KeyedSumCountAggregate
end Velorix.Operator
