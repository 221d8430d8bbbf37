import Velorix.View.Staging

/-! Analytic window frames: rows are changed in place, and the outputs of all partitions are
computed anew. -/
namespace Velorix.View

open Json Delta

def asU64 (value : Value) : Option ℕ :=
  match value.tree with
  | .number (.int i _ _) => if 0 ≤ i then some i.toNat else none
  | _ => none

def asBool (value : Value) : Option Bool :=
  match value.tree with
  | .bool b => some b
  | _ => none

def compareBy {α : Type} [Ord α] (read : Value → Option α) (left right : Value) : Ordering :=
  match read left, read right with
  | some a, some b => compare a b
  | _, _ => .eq

def compareOption {α : Type} [Ord α] : Option α → Option α → Ordering
  | none, none => .eq
  | none, some _ => .lt
  | some _, none => .gt
  | some a, some b => compare a b

def compareTexts (left right : List Char) : Ordering := compareOfLessAndEq left right

def compareFloats (format : ArrowFormat) (left right : Value) : Ordering :=
  match left.tree, right.tree with
  | .number a, .number b => (format.compareDoubles a b).getD .eq
  | _, _ => .eq

def compareRowNumberValues (format : ArrowFormat) (column : RelationColumn) (left right : Value) :
    Ordering :=
  match column.physicalType with
  | .int8 | .int16 | .int32 | .int64 | .date32 | .time64Nanosecond | .timestampNanosecond _
  | .decimal128 _ _ => compareBy (fun value => value.asI64.map (·.val)) left right
  | .uint8 | .uint16 | .uint32 | .uint64 => compareBy asU64 left right
  | .float32 | .float64 => compareFloats format left right
  | .utf8 | .dictionaryUtf8 _ | .jsonUtf8 =>
    compareOption (left.asStr.map String.toList) (right.asStr.map String.toList)
  | .boolean => compareOption (asBool left) (asBool right)
  | .binary | .nested _ => compareTexts (canonicalJson left) (canonicalJson right)

inductive WindowNavigationFunction
  | lag (valueColumnId : String) (offset : UInt64)
  | lead (valueColumnId : String) (offset : UInt64)
  | firstValue (valueColumnId : String)
  | lastValue (valueColumnId : String)
  | nthValue (valueColumnId : String) (n : UInt64)
  deriving DecidableEq

structure AnalyticWindowFramePlan where
  inputRelationId : String
  keyColumnId : String
  outputKeyInputColumnId : Option String
  partitionColumnId : String
  orderColumnId : String
  orderDescending : Bool
  framePreceding : UInt64
  frameFollowing : UInt64
  function : WindowNavigationFunction
  outputColumnId : String
  deriving DecidableEq

def AnalyticWindowFramePlan.valueColumnId (plan : AnalyticWindowFramePlan) : String :=
  match plan.function with
  | .lag valueColumnId _ => valueColumnId
  | .lead valueColumnId _ => valueColumnId
  | .firstValue valueColumnId => valueColumnId
  | .lastValue valueColumnId => valueColumnId
  | .nthValue valueColumnId _ => valueColumnId

structure AnalyticFrameRow where
  key : Value
  partitionValue : Value
  orderValue : Value
  values : SortedMap String Value
  deriving DecidableEq

abbrev FrameRows := KeyedRows AnalyticFrameRow

structure AnalyticWindowFrameRuntime where
  view : OutputView
  catalog : Catalog
  inputSchema : RelationSchema
  plan : AnalyticWindowFramePlan
  rows : FrameRows := ∅
  publishedOutput : DeltaBatch := .empty
  progress : Progress := {}
  deriving DecidableEq

namespace AnalyticWindowFrameRuntime

variable (plan : AnalyticWindowFramePlan)

def inputColumnIds : List String :=
  columnSet ([plan.partitionColumnId, plan.orderColumnId, plan.valueColumnId] ++
    plan.outputKeyInputColumnId.toList)

/-- An addition in `usize`. Overflow is a panic, as in builds that check it. -/
def addPosition (a b : ℕ) : Option ℕ := if a + b < 2 ^ 64 then some (a + b) else none

/-- The value of the function for the row at a position, unless the position of LEAD overflows.
`frame` is the part of the partition around the row. -/
def navigationValue (partition : List AnalyticFrameRow)
    (index : ℕ) (frame : List AnalyticFrameRow) : Option (Option Value) :=
  let valueOf (row : AnalyticFrameRow) := row.values.find? plan.valueColumnId
  match plan.function with
  | .lag _ offset =>
    some (if index < offset.toNat then none else partition[index - offset.toNat]?.bind valueOf)
  | .lead _ offset =>
    (addPosition index offset.toNat).map fun target => partition[target]?.bind valueOf
  | .firstValue _ => some (frame.head?.bind valueOf)
  | .lastValue _ => some (frame.getLast?.bind valueOf)
  | .nthValue _ n =>
    some (if n = 0 ∨ frame.length < n.toNat then none else frame[n.toNat - 1]?.bind valueOf)

/-- The positions `frame_start` and `frame_end`. -/
def frameRange (length index : ℕ) : Option (ℕ × ℕ) := do
  let last ← addPosition index plan.frameFollowing.toNat
  let stop ← addPosition last 1
  return (index - plan.framePreceding.toNat, min stop length)

def rowValue (partition : List AnalyticFrameRow) (index : ℕ) : Option (Option Value) := do
  let (start, stop) ← frameRange plan partition.length index
  navigationValue plan partition index ((partition.take stop).drop start)

/-- Code that panics where there is no result. -/
abbrev Panicking (α : Type) := ExceptT RuntimeError Option α

def rowRecord (partition : List AnalyticFrameRow)
    (row : AnalyticFrameRow) (index : ℕ) : Panicking (Option DeltaRecord) :=
  (rowValue plan partition index).map fun
    | none => .ok none
    | some value => do
      let outputKey ← match plan.outputKeyInputColumnId with
        | some columnId => orMissing (row.values.find? columnId)
        | none => pure row.key
      return some ⟨outputKey, .object (.ofList [(plan.outputColumnId, value)]), 1⟩

def rowPrecedes (format : ArrowFormat) (plan : AnalyticWindowFramePlan)
    (orderColumn keyColumn : RelationColumn) (a b : AnalyticFrameRow) : Bool :=
  let ordering := compareRowNumberValues format orderColumn a.orderValue b.orderValue
  let ordering := if plan.orderDescending then ordering.swap else ordering
  (ordering.then (compareRowNumberValues format keyColumn a.key b.key)).isLE

def addToPartition (partitions : SortedMap (List Char) (List AnalyticFrameRow))
    (row : AnalyticFrameRow) : SortedMap (List Char) (List AnalyticFrameRow) :=
  let key := canonicalJson row.partitionValue
  partitions.insert key ((partitions.find? key).getD [] ++ [row])

def primaryKeyColumn (catalog : Catalog) : Except RuntimeError RelationColumn :=
  match catalog.primaryKeyColumnIds with
  | [columnId] =>
    match catalog.column columnId with
    | some column => .ok column
    | none => .error (.invalidProgramIdentity "catalog.primary_key")
  | _ => .error (.invalidProgramIdentity "catalog.primary_key")

def columnById (catalog : Catalog) (columnId : String) : Except RuntimeError RelationColumn :=
  match catalog.column columnId with
  | some column => .ok column
  | none => .error (.invalidProgramIdentity "relation_column")

def recomputeAllOutputs (format : ArrowFormat) (catalog : Catalog)
    (plan : AnalyticWindowFramePlan) (rows : FrameRows) : Panicking DeltaBatch := do
  let keyColumn ← primaryKeyColumn catalog
  let orderColumn ← columnById catalog plan.orderColumnId
  let partitions := (rows.values.map (·.content)).foldl addToPartition ∅
  let records ← partitions.values.mapM fun rows => do
    let partition := rows.insertionSort
      fun a b => rowPrecedes format plan orderColumn keyColumn a b = true
    partition.zipIdx.mapM fun (row, index) => rowRecord plan partition row index
  return ⟨(records.flatten).filterMap id⟩

/-- A loop that is left early leaves the rows as they stand behind. -/
abbrev InPlace (α : Type) := Except (RuntimeError × FrameRows) α

def leaving {α : Type} (rows : FrameRows) (result : Except RuntimeError α) : InPlace α :=
  result.mapError fun error => (error, rows)

/-- What a row starts with, and what it becomes in the end. -/
def frameFormat : RowFormat AnalyticFrameRow where
  fresh key := ⟨key, .null, .null, ∅⟩
  update row fields := do
    let partitionValue ← orMissing (fields.find? plan.partitionColumnId)
    let orderValue ← orMissing (fields.find? plan.orderColumnId)
    return { row with partitionValue, orderValue, values := fields }

/-- The columns of a record overwrite the row one by one. -/
def overwriteRow (rows : FrameRows) (key : List Char)
    (row : AnalyticFrameRow) (weight : I64) (record : DeltaRecord) : InPlace FrameRows := do
  let rows := rows.insert key ⟨row, weight⟩
  let fields ← leaving rows (orMissing record.value.asObject)
  let partitionValue ← leaving rows (orMissing (fields.find? plan.partitionColumnId))
  let row := { row with partitionValue }
  let rows := rows.insert key ⟨row, weight⟩
  let orderValue ← leaving rows (orMissing (fields.find? plan.orderColumnId))
  return rows.insert key ⟨{ row with orderValue, values := fields }, weight⟩

/-- A record is applied in place. Only a weight below zero puts the original rows back. -/
def applyFrameRecord (original rows : FrameRows) (record : DeltaRecord) : InPlace FrameRows :=
  let key := canonicalJson record.key
  let entry := entryFor (frameFormat plan) rows record
  match entry.weight.checkedAdd record.weight with
  | none => .error (invalidRuntimeState, rows.insert key entry)
  | some weight =>
    if weight.val < 0 then .error (invalidRuntimeState, original)
    else if weight.val = 0 then .ok (rows.erase key)
    else overwriteRow plan rows key entry.content weight record

def inputDelta (runtime : AnalyticWindowFrameRuntime) (input : RelationInputBatch) :
    Except RuntimeError DeltaBatch := do
  validateInputMatchesSchema input runtime.inputSchema "analytic_frame_input"
  View.inputDelta runtime.catalog input [runtime.plan.keyColumnId] (inputColumnIds runtime.plan)
    "analytic_frame_input_batch"

def listed (runtime : AnalyticWindowFrameRuntime) (input : RelationInputBatch) :
    Except RuntimeError (List DeltaRecord) := do
  let delta ← runtime.inputDelta input
  orInvalidState delta.netRows

def stage (runtime : AnalyticWindowFrameRuntime) (staged : FrameRows × Progress)
    (input : RelationInputBatch) : InPlace (FrameRows × Progress) := do
  let records ← leaving staged.1 (runtime.listed input)
  let rows ← records.foldlM (applyFrameRecord runtime.plan runtime.rows) staged.1
  let progress ← leaving rows (staged.2.advance input)
  return (rows, progress)

/-- What follows the recomputation. The rows are put back on every failure. -/
def finish (format : ArrowFormat) (runtime : AnalyticWindowFrameRuntime)
    (logicalEpoch : LogicalEpoch) (idempotencyKey : String) (rows : FrameRows)
    (progress : Progress) (nextOutput : Except RuntimeError DeltaBatch) :
    Except RuntimeError (EpochCommit × AnalyticWindowFrameRuntime) := do
  let nextOutput ← nextOutput
  let outputDelta ← orInvalidState (runtime.publishedOutput.diff nextOutput)
  let batch ← materializedGenericDeltaToRecordBatch format runtime.view.schema nextOutput
  return (progress.epochCommit runtime.view logicalEpoch idempotencyKey outputDelta batch,
    { runtime with
      rows
      publishedOutput := nextOutput
      progress := progress.commit logicalEpoch idempotencyKey })

/-- The outcome of an epoch, and the runtime after it, whether the epoch failed or not. A panic has
neither. -/
def applyChanges (format : ArrowFormat) (runtime : AnalyticWindowFrameRuntime)
    (logicalEpoch : LogicalEpoch) (idempotencyKey : String)
    (inputChanges : List RelationInputBatch) :
    Option (Except RuntimeError EpochCommit × AnalyticWindowFrameRuntime) :=
  match runtime.progress.gate logicalEpoch idempotencyKey with
  | .error error => some (.error error, runtime)
  | .ok .replayed =>
    some ((materializedGenericDeltaToRecordBatch format runtime.view.schema
      runtime.publishedOutput).map (runtime.progress.replayCommit runtime.view logicalEpoch
        idempotencyKey), runtime)
  | .ok .open =>
    match inputChanges.foldlM runtime.stage (runtime.rows, runtime.progress) with
    | .error (error, rows) => some (.error error, { runtime with rows })
    | .ok (rows, progress) =>
      (recomputeAllOutputs format runtime.catalog runtime.plan rows).run.map fun nextOutput =>
        match runtime.finish format logicalEpoch idempotencyKey rows progress nextOutput with
        | .error error => (.error error, runtime)
        | .ok (commit, next) => (.ok commit, next)

/-- The runtime after an epoch that returns. -/
def afterEpoch (format : ArrowFormat) (runtime : AnalyticWindowFrameRuntime)
    (logicalEpoch : LogicalEpoch) (idempotencyKey : String)
    (inputChanges : List RelationInputBatch) : AnalyticWindowFrameRuntime :=
  ((runtime.applyChanges format logicalEpoch idempotencyKey inputChanges).map Prod.snd).getD runtime

end AnalyticWindowFrameRuntime

end Velorix.View
