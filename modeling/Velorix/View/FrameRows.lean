import Velorix.View.WindowFrame

/-! The rows of window frames: every record that is applied carries the columns that are read, so
that a row is always overwritten as a whole. -/
namespace Velorix.View

open Json Delta Result Option

variable {catalog : Catalog} {keyColumnIds valueColumnIds : List String}

/-- The record holds a value for each of the columns. -/
def HasColumns (columnIds : List String) (value : Value) : Prop :=
  ∃ fields, value.asObject = some fields ∧ ∀ columnId ∈ columnIds, ∃ v,
    fields.find? columnId = some v

theorem find?_ofList_of_mem {K V : Type} [LinearOrder K] {es : List (K × V)} {key : K}
    (h : key ∈ es.map Prod.fst) : ∃ v, (SortedMap.ofList es).find? key = some v := by
  rw [SortedMap.ofList]
  induction es using List.reverseRecOn with
  | nil => cases h
  | append_singleton es last ih =>
    rw [List.foldl_append, List.foldl_cons, List.foldl_nil, SortedMap.find?_insert]
    by_cases hkey : last.1 = key
    · exact ⟨last.2, if_pos hkey⟩
    · rw [if_neg hkey]
      rw [List.map_append, List.mem_append] at h
      rcases h with h | h
      · exact ih h
      · simp only [List.map_cons, List.map_nil, List.mem_singleton] at h
        exact absurd h.symm hkey

theorem map_fst_of_mapM {α β κ : Type} {name : α → κ} {f : α → Option (κ × β)}
    (hf : ∀ a b, f a = some b → b.1 = name a) {as : List α} {bs : List (κ × β)}
    (h : as.mapM f = some bs) : bs.map Prod.fst = as.map name := by
  induction as generalizing bs with
  | nil =>
    cases h
    rfl
  | cons a as ih =>
    simp only [List.mapM_cons, bind_eq_bind, bind_eq_some_iff, pure_def,
      Option.some.injEq] at h
    obtain ⟨b, hb, bs', hbs', rfl⟩ := h
    rw [List.map_cons, List.map_cons, ih hbs', hf a b hb]

theorem RecordShape.hasColumns {shape : RecordShape} {b : RecordBatch} {row : List Cell}
    {r : DeltaRecord} (h : shape.record b row = some r) :
    HasColumns (shape.valueColumns.map (·.columnId)) r.value := by
  simp only [RecordShape.record, bind_eq_bind, bind_eq_some_iff, pure_def,
    Option.some.injEq] at h
  obtain ⟨weight, -, values, hv, key, -, rfl⟩ := h
  refine ⟨_, Value.asObject_object _, fun columnId hc => find?_ofList_of_mem ?_⟩
  rwa [map_fst_of_mapM ?_ hv]
  intro c e he
  obtain ⟨value, -, he⟩ := bind_eq_some_iff.mp he
  cases he
  rfl

theorem Catalog.column_columnId {columnId : String} {c : RelationColumn}
    (h : catalog.column columnId = some c) : c.columnId = columnId := by
  simpa using List.find?_some h

theorem Catalog.shape_valueColumns {shape : RecordShape}
    (h : catalog.shape keyColumnIds valueColumnIds = some shape) :
    shape.valueColumns.map (·.columnId) = valueColumnIds := by
  simp only [Catalog.shape, bind_eq_bind, bind_eq_some_iff] at h
  obtain ⟨keyColumns, -, valueColumns, hv, weightColumn, -, h⟩ := h
  split_ifs at h
  cases h
  clear * - hv
  induction valueColumnIds generalizing valueColumns with
  | nil =>
    cases hv
    rfl
  | cons columnId columnIds ih =>
    simp only [List.mapM_cons, bind_eq_bind, bind_eq_some_iff, pure_def,
      Option.some.injEq] at hv
    obtain ⟨c, hc, rest, hr, rfl⟩ := hv
    rw [List.map_cons, ih rest hr, Catalog.column_columnId hc]

theorem keyMultiValueDelta_hasColumns {i : RelationInputBatch} {d : DeltaBatch}
    (h : keyMultiValueDelta catalog i keyColumnIds valueColumnIds = some d)
    {r : DeltaRecord} (hr : r ∈ d.records) : HasColumns valueColumnIds r.value := by
  rw [keyMultiValueDelta] at h
  split_ifs at h
  simp only [bind_eq_bind, bind_eq_some_iff, pure_def, Option.some.injEq] at h
  obtain ⟨shape, hs, bs, hbatches, rfl⟩ := h
  obtain ⟨rs, hrecs, hr⟩ := List.mem_flatten.mp hr
  obtain ⟨b, -, hb⟩ := mapM_option_mem hbatches hrecs
  split_ifs at hb
  obtain ⟨row, -, hrow⟩ := mapM_option_mem hb hr
  rw [← Catalog.shape_valueColumns hs]
  exact RecordShape.hasColumns hrow

theorem inputDelta_hasColumns {i : RelationInputBatch} {field : String} {d : DeltaBatch}
    (h : inputDelta catalog i keyColumnIds valueColumnIds field = .ok d)
    {r : DeltaRecord} (hr : r ∈ d.records) : HasColumns valueColumnIds r.value := by
  obtain ⟨published, hp, h⟩ := bind_eq_ok.mp h
  cases published with
  | some empty =>
    cases h
    rw [publishedInputEmptyDelta] at hp
    split at hp
    · cases hp
    · split_ifs at hp
      · obtain ⟨_, -, hp⟩ := bind_eq_ok.mp hp
        cases hp
        cases hr
      · obtain ⟨_, -, hp⟩ := bind_eq_ok.mp hp
        cases hp
  | none =>
    cases hc : keyMultiValueDelta catalog i keyColumnIds valueColumnIds with
    | none =>
      simp only [hc] at h
      cases h
    | some converted =>
      simp only [hc] at h
      cases h
      exact keyMultiValueDelta_hasColumns hc hr

theorem mem_columnSet {columnId : String} {columnIds : List String} :
    columnId ∈ columnSet columnIds ↔ columnId ∈ columnIds := by
  rw [columnSet, List.mem_dedup]
  exact (List.perm_insertionSort _ columnIds).mem_iff

theorem exists_record_of_mem_netRows {b : DeltaBatch} {rows : List DeltaRecord}
    (h : b.netRows = .ok rows) {row : DeltaRecord} (hrow : row ∈ rows) :
    ∃ r ∈ b.records, r.pair = row.pair := by
  obtain ⟨hp, -, -⟩ := (DeltaBatch.mem_netRows h).mp hrow
  obtain ⟨r, hr, hs⟩ := map_eq_some_iff.mp hp
  exact ⟨r, List.mem_of_find?_eq_some hr, hs⟩

theorem orInvalidState_ok {α : Type} {result : Except DeltaError α} {a : α}
    (h : orInvalidState result = .ok a) : result = .ok a := of_mapError_ok h

namespace AnalyticWindowFrameRuntime

variable {plan : AnalyticWindowFramePlan} {original rows later : FrameRows} {r : DeltaRecord}
  {rs : List DeltaRecord} {t : AnalyticWindowFrameRuntime} {i : RelationInputBatch}

def makeRow (plan : AnalyticWindowFramePlan) (key : Value) (fields : SortedMap String Value) :
    AnalyticFrameRow where
  key
  partitionValue := (fields.find? plan.partitionColumnId).getD .null
  orderValue := (fields.find? plan.orderColumnId).getD .null
  values := fields

theorem update_ok {row row' : AnalyticFrameRow} {fields : SortedMap String Value}
    (h : (frameFormat plan).update row fields = .ok row') : row' = makeRow plan row.key fields := by
  obtain ⟨partitionValue, hp, h⟩ := bind_eq_ok.mp h
  obtain ⟨orderValue, ho, h⟩ := bind_eq_ok.mp h
  cases h
  rw [makeRow, orMissing_ok hp, orMissing_ok ho]
  rfl

theorem frameFormat_overwrites (plan : AnalyticWindowFramePlan) :
    (frameFormat plan).Overwrites (makeRow plan) :=
  ⟨update_ok, update_ok, fun h => congrArg AnalyticFrameRow.values h⟩

/-- The columns that every record of an input carries. -/
def Complete (plan : AnalyticWindowFramePlan) (record : DeltaRecord) : Prop :=
  HasColumns [plan.partitionColumnId, plan.orderColumnId] record.value

theorem listed_complete (h : t.listed i = .ok rs) (hr : r ∈ rs) : Complete t.plan r := by
  obtain ⟨d, hd, hrows⟩ := bind_eq_ok.mp h
  obtain ⟨_, -, hd⟩ := bind_eq_ok.mp hd
  obtain ⟨source, hs, hp⟩ :=
    exists_record_of_mem_netRows (orInvalidState_ok hrows) hr
  obtain ⟨fields, hf, hcols⟩ := inputDelta_hasColumns hd hs
  have hv : source.value = r.value := congrArg Prod.snd hp
  refine ⟨fields, hv ▸ hf, fun columnId hc => hcols columnId ?_⟩
  rw [inputColumnIds, mem_columnSet]
  simp only [List.mem_cons, List.not_mem_nil, or_false] at hc
  rcases hc with rfl | rfl <;> simp

theorem overwriteRow_complete (rows : FrameRows) (hc : Complete plan r) (key : List Char)
    (row : AnalyticFrameRow) (weight : I64) : ∃ fields, r.value.asObject = some fields ∧
      (frameFormat plan).update row fields = .ok (makeRow plan row.key fields) ∧
      overwriteRow plan rows key row weight r =
        .ok (rows.insert key ⟨makeRow plan row.key fields, weight⟩) := by
  obtain ⟨fields, hf, hcols⟩ := hc
  obtain ⟨p, hp⟩ := hcols plan.partitionColumnId (by simp)
  obtain ⟨o, ho⟩ := hcols plan.orderColumnId (by simp)
  refine ⟨fields, hf, ?_, ?_⟩
  · simp [frameFormat, hp, ho, orMissing, makeRow]
  · simp only [overwriteRow, hf, orMissing, leaving, Except.mapError, ok_bind, hp, ho,
      makeRow, getD_some, pure_eq_ok]
    congr 1
    apply SortedMap.ext
    intro key'
    simp only [SortedMap.find?_insert]
    split_ifs <;> rfl

/-- What a record does in place. A failure leaves the rows as they were before the record, or puts
the original rows back. -/
theorem applyFrameRecord_cases (original : FrameRows) (hrows : RowsMade (makeRow plan) rows)
    (hc : Complete plan r) :
    (2 ^ 63 ≤ keptWeight rows r.key + r.weight.val ∧
      applyFrameRecord plan original rows r = .error (invalidRuntimeState, rows)) ∨
    (keptWeight rows r.key + r.weight.val < 0 ∧
      applyFrameRecord plan original rows r = .error (invalidRuntimeState, original)) ∨
    (0 ≤ keptWeight rows r.key + r.weight.val ∧
      keptWeight rows r.key + r.weight.val < 2 ^ 63 ∧ ∃ later,
      applyFrameRecord plan original rows r = .ok later ∧
      applyRecord (frameFormat plan) rows r = .ok later) := by
  have he := entryFor_weight (frameFormat plan) rows r
  have hk : 0 ≤ keptWeight rows r.key := by
    cases hfind : rows.find? (canonicalJson r.key) with
    | none => rw [keptWeight_eq_zero hfind]
    | some kept =>
      rw [keptWeight_eq hfind]
      exact (hrows r.key kept hfind).1.le
  have hb := SInt.fits64_iff.mp r.weight.val_fits
  by_cases ho : 2 ^ 63 ≤ keptWeight rows r.key + r.weight.val
  · left
    refine ⟨ho, ?_⟩
    have hn : (entryFor (frameFormat plan) rows r).weight.checkedAdd r.weight = none := by
      rw [SInt.checkedAdd, he, SInt.ofInt?_eq_none, SInt.fits64_iff]
      omega
    simp only [applyFrameRecord, hn]
    -- a weight that overflows belongs to a row that is there
    cases hfind : rows.find? (canonicalJson r.key) with
    | none =>
      rw [keptWeight_eq_zero hfind] at ho
      omega
    | some kept =>
      rw [entryFor, hfind, getD_some]
      congr 2
      apply SortedMap.ext
      intro key'
      rw [SortedMap.find?_insert]
      split_ifs with hkey
      · rw [← hkey, hfind]
      · rfl
  · obtain ⟨weight, hw, hv⟩ : ∃ weight,
        (entryFor (frameFormat plan) rows r).weight.checkedAdd r.weight = some weight ∧
        weight.val = keptWeight rows r.key + r.weight.val := by
      refine ⟨⟨keptWeight rows r.key + r.weight.val, ?_, ?_⟩, ?_, rfl⟩
      · norm_num
        omega
      · norm_num
        omega
      · rw [SInt.checkedAdd, he, SInt.ofInt?_eq_some]
    by_cases hneg : weight.val < 0
    · right
      left
      refine ⟨hv ▸ hneg, ?_⟩
      simp only [applyFrameRecord, hw, if_pos hneg]
    · right
      right
      refine ⟨by omega, by omega, ?_⟩
      by_cases hz : weight.val = 0
      · refine ⟨rows.erase (canonicalJson r.key), ?_, ?_⟩
        · simp only [applyFrameRecord, hw, if_neg hneg, if_pos hz]
        · simp only [applyRecord, hw, if_neg hneg, if_pos hz]
      · obtain ⟨fields, hf, hu, hp⟩ := overwriteRow_complete rows hc
          (canonicalJson r.key) (entryFor (frameFormat plan) rows r).content weight
        refine ⟨rows.insert (canonicalJson r.key) ⟨makeRow plan
          (entryFor (frameFormat plan) rows r).content.key fields, weight⟩, ?_, ?_⟩
        · simp only [applyFrameRecord, hw, if_neg hneg, if_neg hz]
          exact hp
        · simp only [applyRecord, hw, if_neg hneg, if_neg hz, hf, orMissing,
            ok_bind, hu, pure_eq_ok]

end AnalyticWindowFrameRuntime

end Velorix.View
