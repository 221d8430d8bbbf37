import Velorix.View.Staging

/-! Interval joins and cross joins: both sides are staged in copies, and all matches are computed
anew. -/
namespace Velorix.View

open Json Delta

def pushMatch (limit : UInt64) (field : String) (records : List DeltaRecord)
    (record : DeltaRecord) : Except RuntimeError (List DeltaRecord) :=
  if limit.toNat < (records ++ [record]).length then .error (.invalidProgramIdentity field)
  else .ok (records ++ [record])

/-- The row of a key: its interval and the values of its columns. -/
structure IntervalRow where
  key : Value
  startNs : I64
  endNs : I64
  values : SortedMap String Value
  deriving DecidableEq

def updateInterval (startColumn endColumn : String) (row : IntervalRow)
    (fields : SortedMap String Value) : Except RuntimeError IntervalRow := do
  let start ← orMissing ((fields.find? startColumn).bind Value.asI64)
  let stop ← orMissing ((fields.find? endColumn).bind Value.asI64)
  if stop ≤ start then .error (.invalidProgramIdentity "interval_join_endpoint_order")
  else return { row with startNs := start, endNs := stop, values := fields }

def intervalFormat (startColumn endColumn : String) : RowFormat IntervalRow where
  fresh key := ⟨key, 0, 0, ∅⟩
  update := updateInterval startColumn endColumn

structure IntervalJoinOutputColumn where
  leftColumnId : String
  outputName : String
  deriving DecidableEq

structure IntervalJoinPlan where
  leftInputRelationId : String
  rightInputRelationId : String
  leftKeyColumnId : String
  rightKeyColumnId : String
  leftStartColumnId : String
  leftEndColumnId : String
  rightStartColumnId : String
  rightEndColumnId : String
  outputColumns : List IntervalJoinOutputColumn
  rightKeyOutputName : String
  maxIntervalsPerSide : UInt64
  maxMatchesPerEpoch : UInt64
  deriving DecidableEq

structure IntervalJoinRuntime where
  view : OutputView
  leftCatalog : Catalog
  rightCatalog : Catalog
  leftInputSchema : RelationSchema
  rightInputSchema : RelationSchema
  plan : IntervalJoinPlan
  intervals : SideRows IntervalRow := {}
  publishedOutput : DeltaBatch := .empty
  progress : Progress := {}

namespace IntervalJoinRuntime

variable (plan : IntervalJoinPlan)

def leftStateColumns : List String :=
  columnSet (plan.outputColumns.map (·.leftColumnId) ++
    [plan.leftStartColumnId, plan.leftEndColumnId])

def rightStateColumns : List String :=
  columnSet [plan.rightStartColumnId, plan.rightEndColumnId, plan.rightKeyColumnId]

def sides (runtime : IntervalJoinRuntime) : TwoSides IntervalRow where
  leftRelationId := runtime.plan.leftInputRelationId
  rightRelationId := runtime.plan.rightInputRelationId
  relationField := "interval_join_input_relation"
  left := ⟨runtime.leftInputSchema, runtime.leftCatalog, [runtime.plan.leftKeyColumnId],
    leftStateColumns runtime.plan, "interval_join_input", "interval_join_input_batch",
    intervalFormat runtime.plan.leftStartColumnId runtime.plan.leftEndColumnId⟩
  right := ⟨runtime.rightInputSchema, runtime.rightCatalog, [runtime.plan.rightKeyColumnId],
    rightStateColumns runtime.plan, "interval_join_input", "interval_join_input_batch",
    intervalFormat runtime.plan.rightStartColumnId runtime.plan.rightEndColumnId⟩

def contractField : String := "interval_join_resource_contract"

/-- The record of a pair that overlaps. Its key is the whole projected row. -/
def matchRecord (left right : Kept IntervalRow) :
    Except RuntimeError DeltaRecord := do
  let output ← plan.outputColumns.mapM fun column => do
    return (column.outputName, ← orMissing (left.content.values.find? column.leftColumnId))
  let rightKey ← orMissing (right.content.values.find? plan.rightKeyColumnId)
  let weight ← orMissing (left.weight.checkedMul right.weight)
  return ⟨.object ((SortedMap.ofList output).insert plan.rightKeyOutputName rightKey), noValues,
    weight⟩

def overlaps (left right : IntervalRow) : Bool :=
  left.startNs < right.endNs ∧ right.startNs < left.endNs

def recomputeAllMatches (intervals : SideRows IntervalRow) :
    Except RuntimeError DeltaBatch := do
  if plan.maxIntervalsPerSide.toNat < intervals.left.size ∨
      plan.maxIntervalsPerSide.toNat < intervals.right.size then
    .error (.invalidProgramIdentity contractField)
  else
    let records ← (intervals.left.values.product intervals.right.values).foldlM
      (fun records (pair : Kept IntervalRow × Kept IntervalRow) => do
        if !overlaps pair.1.content pair.2.content then return records
        else
          pushMatch plan.maxMatchesPerEpoch contractField records
            (← matchRecord plan pair.1 pair.2)) []
    return ⟨records⟩

def applyChanges (format : ArrowFormat) (runtime : IntervalJoinRuntime)
    (logicalEpoch : LogicalEpoch) (idempotencyKey : String)
    (inputChanges : List RelationInputBatch) :
    Except RuntimeError (EpochCommit × IntervalJoinRuntime) := do
  match ← runtime.progress.gate logicalEpoch idempotencyKey with
  | .replayed =>
    let batch ← materializedDeltaToRecordBatch format runtime.view.schema runtime.publishedOutput []
    return (runtime.progress.replayCommit runtime.view logicalEpoch idempotencyKey batch, runtime)
  | .open =>
    let (intervals, progress) ←
      inputChanges.foldlM runtime.sides.stage (runtime.intervals, runtime.progress)
    let nextOutput ← recomputeAllMatches runtime.plan intervals
    let outputDelta ← orInvalidState (runtime.publishedOutput.diff nextOutput)
    let batch ← materializedDeltaToRecordBatch format runtime.view.schema nextOutput []
    return (progress.epochCommit runtime.view logicalEpoch idempotencyKey outputDelta batch,
      { runtime with
        intervals
        publishedOutput := nextOutput
        progress := progress.commit logicalEpoch idempotencyKey })

end IntervalJoinRuntime

/-- A row is just the values of its columns. -/
def valuesFormat : RowFormat (SortedMap String Value) where
  fresh _ := ∅
  update _ fields := .ok fields

structure CrossJoinProjectionItem where
  side : Side
  columnId : String
  outputName : String
  deriving DecidableEq

structure CrossJoinPlan where
  leftInputRelationId : String
  rightInputRelationId : String
  projection : List CrossJoinProjectionItem
  maxRowsPerSide : UInt64
  maxPairsPerEpoch : UInt64
  deriving DecidableEq

structure CrossJoinRuntime where
  view : OutputView
  leftCatalog : Catalog
  rightCatalog : Catalog
  leftInputSchema : RelationSchema
  rightInputSchema : RelationSchema
  plan : CrossJoinPlan
  rows : SideRows (SortedMap String Value) := {}
  publishedOutput : DeltaBatch := .empty
  progress : Progress := {}

namespace CrossJoinRuntime

def sideColumns (plan : CrossJoinPlan) (side : Side) : List String :=
  columnSet ((plan.projection.filter (·.side = side)).map (·.columnId))

def sides (runtime : CrossJoinRuntime) : TwoSides (SortedMap String Value) where
  leftRelationId := runtime.plan.leftInputRelationId
  rightRelationId := runtime.plan.rightInputRelationId
  relationField := "cross_join_input_relation"
  left := ⟨runtime.leftInputSchema, runtime.leftCatalog, runtime.leftCatalog.primaryKeyColumnIds,
    sideColumns runtime.plan .left, "cross_join_input", "cross_join_input_batch", valuesFormat⟩
  right := ⟨runtime.rightInputSchema, runtime.rightCatalog,
    runtime.rightCatalog.primaryKeyColumnIds, sideColumns runtime.plan .right,
    "cross_join_input", "cross_join_input_batch", valuesFormat⟩

def contractField : String := "cross_join_resource_contract"

def pairRecord (plan : CrossJoinPlan) (left right : Kept (SortedMap String Value)) :
    Except RuntimeError DeltaRecord := do
  let output ← plan.projection.mapM fun item => do
    let values := match item.side with
      | .left => left.content
      | .right => right.content
    return (item.outputName, ← orMissing (values.find? item.columnId))
  let weight ← orMissing (left.weight.checkedMul right.weight)
  return ⟨.object (.ofList output), noValues, weight⟩

def recomputeAllPairs (plan : CrossJoinPlan) (rows : SideRows (SortedMap String Value)) :
    Except RuntimeError DeltaBatch := do
  if plan.maxRowsPerSide.toNat < rows.left.size ∨ plan.maxRowsPerSide.toNat < rows.right.size then
    .error (.invalidProgramIdentity contractField)
  else
    let records ← (rows.left.values.product rows.right.values).foldlM
      (fun records (pair : Kept (SortedMap String Value) × Kept (SortedMap String Value)) => do
        pushMatch plan.maxPairsPerEpoch contractField records (← pairRecord plan pair.1 pair.2)) []
    return ⟨records⟩

def applyChanges (format : ArrowFormat) (runtime : CrossJoinRuntime)
    (logicalEpoch : LogicalEpoch) (idempotencyKey : String)
    (inputChanges : List RelationInputBatch) :
    Except RuntimeError (EpochCommit × CrossJoinRuntime) := do
  match ← runtime.progress.gate logicalEpoch idempotencyKey with
  | .replayed =>
    let batch ← materializedDeltaToRecordBatch format runtime.view.schema runtime.publishedOutput []
    return (runtime.progress.replayCommit runtime.view logicalEpoch idempotencyKey batch, runtime)
  | .open =>
    let (rows, progress) ← inputChanges.foldlM runtime.sides.stage (runtime.rows, runtime.progress)
    let nextOutput ← recomputeAllPairs runtime.plan rows
    let outputDelta ← orInvalidState (runtime.publishedOutput.diff nextOutput)
    let batch ← materializedDeltaToRecordBatch format runtime.view.schema nextOutput []
    return (progress.epochCommit runtime.view logicalEpoch idempotencyKey outputDelta batch,
      { runtime with
        rows
        publishedOutput := nextOutput
        progress := progress.commit logicalEpoch idempotencyKey })

end CrossJoinRuntime

end Velorix.View
