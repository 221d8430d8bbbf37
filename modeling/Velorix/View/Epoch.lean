import Velorix.Foundation.Words
import Velorix.View.Relation

/-! What view runtimes keep of their progress: the frontiers of their inputs, and the epochs that
they applied. -/
namespace Velorix.View

open Json Delta BlankText

structure RelationFrontier where
  relationId : String
  relationVersion : String
  streamId : String
  partitionId : UInt32
  committedOffsetExclusive : UInt64
  deriving DecidableEq

structure InputEventTimeFrontier where
  relationId : String
  relationVersion : String
  schemaFingerprint : String
  streamId : String
  partitionId : UInt32
  eventTimeColumnId : String
  maxObservedEventTimeNs : I64
  watermarkNs : I64
  deriving DecidableEq

/-- Items in the order of their keys; equal keys stay in the order they came. -/
def sortByKey {α κ : Type} [LinearOrder κ] (key : α → κ) (items : List α) : List α :=
  items.insertionSort fun a b => key a ≤ key b

def RelationFrontier.sortKey (frontier : RelationFrontier) :
    String ×ₗ String ×ₗ String ×ₗ UInt32 :=
  toLex (frontier.relationId, toLex (frontier.relationVersion,
    toLex (frontier.streamId, frontier.partitionId)))

def RelationFrontier.isOf (frontier : RelationFrontier) (input : RelationInputBatch) : Bool :=
  frontier.relationId = input.relationId ∧ frontier.relationVersion = input.relationVersion ∧
    frontier.streamId = input.streamId ∧ frontier.partitionId = input.partitionId

def advanceInputFrontier (frontiers : List RelationFrontier) (input : RelationInputBatch) :
    Except RuntimeError (List RelationFrontier) :=
  match frontiers.find? (·.isOf input) with
  | some frontier =>
    if input.startOffsetInclusive ≠ frontier.committedOffsetExclusive then
      .error (.invalidProgramIdentity "input_frontier.offset_range")
    else
      .ok (sortByKey RelationFrontier.sortKey (frontiers.replaceF fun frontier =>
        if frontier.isOf input then
          some { frontier with committedOffsetExclusive := input.endOffsetExclusive }
        else none))
  | none =>
    .ok (sortByKey RelationFrontier.sortKey (frontiers ++
      [⟨input.relationId, input.relationVersion, input.streamId, input.partitionId,
        input.endOffsetExclusive⟩]))

def InputEventTimeFrontier.sortKey (frontier : InputEventTimeFrontier) :
    String ×ₗ String ×ₗ String ×ₗ String ×ₗ UInt32 ×ₗ String :=
  toLex (frontier.relationId, toLex (frontier.relationVersion,
    toLex (frontier.schemaFingerprint, toLex (frontier.streamId,
      toLex (frontier.partitionId, frontier.eventTimeColumnId)))))

def InputEventTimeFrontier.isOf (frontier : InputEventTimeFrontier) (input : RelationInputBatch)
    (watermark : InputEventTimeWatermark) : Bool :=
  frontier.relationId = input.relationId ∧ frontier.relationVersion = input.relationVersion ∧
    frontier.schemaFingerprint = input.schemaFingerprint ∧
    frontier.streamId = watermark.streamId ∧ frontier.partitionId = watermark.partitionId

def invalidWatermark : RuntimeError := .invalidProgramIdentity "input_event_time_watermark"

def advanceInputEventTimeFrontier (frontiers : List InputEventTimeFrontier)
    (input : RelationInputBatch) : Except RuntimeError (List InputEventTimeFrontier) :=
  match input.eventTimeWatermark with
  | none => .ok frontiers
  | some watermark =>
    if isBlank watermark.streamId ∨ isBlank watermark.eventTimeColumnId then
      .error invalidWatermark
    else if watermark.maxObservedEventTimeNs < watermark.watermarkNs then .error invalidWatermark
    else match frontiers.find? (·.isOf input watermark) with
    | some frontier =>
      if frontier.eventTimeColumnId ≠ watermark.eventTimeColumnId ∨
          watermark.maxObservedEventTimeNs < frontier.maxObservedEventTimeNs ∨
          watermark.watermarkNs < frontier.watermarkNs then
        .error invalidWatermark
      else
        .ok (sortByKey InputEventTimeFrontier.sortKey (frontiers.replaceF fun frontier =>
          if frontier.isOf input watermark then
            some { frontier with
              maxObservedEventTimeNs := watermark.maxObservedEventTimeNs
              watermarkNs := watermark.watermarkNs }
          else none))
    | none =>
      .ok (sortByKey InputEventTimeFrontier.sortKey (frontiers ++
        [⟨input.relationId, input.relationVersion, input.schemaFingerprint, watermark.streamId,
          watermark.partitionId, watermark.eventTimeColumnId, watermark.maxObservedEventTimeNs,
          watermark.watermarkNs⟩]))

abbrev LogicalEpoch := UInt64

def maxIdempotencyKeyBytes : ℕ := 256

def maxRetainedIdempotencyKeys : ℕ := 1024

/-- The oldest epochs are dropped when there are too many. -/
def retainRecentAppliedEpochs (appliedEpochs : SortedMap String LogicalEpoch) :
    SortedMap String LogicalEpoch :=
  let kept : SortedMap String LogicalEpoch := .ofList (appliedEpochs.entries.filter
    fun entry => entry.1.utf8ByteSize ≤ maxIdempotencyKeyBytes)
  let overflow := kept.size - maxRetainedIdempotencyKeys
  let oldestFirst := sortByKey (fun entry : String × LogicalEpoch => toLex (entry.2, entry.1))
    kept.entries
  (oldestFirst.take overflow).foldl (fun epochs entry => epochs.erase entry.1) kept

structure Progress where
  inputFrontiers : List RelationFrontier := []
  inputEventTimeFrontiers : List InputEventTimeFrontier := []
  appliedEpochs : SortedMap String LogicalEpoch := ∅
  logicalEpoch : LogicalEpoch := 0
  deriving DecidableEq

/-- Whether an epoch is to be applied, or was applied before. -/
inductive Gate
  | replayed
  | open
  deriving DecidableEq

def Progress.gate (progress : Progress) (logicalEpoch : LogicalEpoch) (idempotencyKey : String) :
    Except RuntimeError Gate :=
  match progress.appliedEpochs.find? idempotencyKey with
  | some appliedEpoch =>
    if appliedEpoch = logicalEpoch then .ok .replayed
    else .error (.idempotencyKeyConflict idempotencyKey appliedEpoch logicalEpoch)
  | none =>
    if logicalEpoch ≤ progress.logicalEpoch then
      .error (.nonMonotonicLogicalEpoch progress.logicalEpoch logicalEpoch)
    else .ok .open

def Progress.advance (progress : Progress) (input : RelationInputBatch) :
    Except RuntimeError Progress := do
  let inputFrontiers ← advanceInputFrontier progress.inputFrontiers input
  let inputEventTimeFrontiers ←
    advanceInputEventTimeFrontier progress.inputEventTimeFrontiers input
  return { progress with inputFrontiers, inputEventTimeFrontiers }

def Progress.commit (progress : Progress) (logicalEpoch : LogicalEpoch)
    (idempotencyKey : String) : Progress :=
  { progress with
    appliedEpochs :=
      retainRecentAppliedEpochs (progress.appliedEpochs.insert idempotencyKey logicalEpoch)
    logicalEpoch }

@[simp]
theorem commit_inputEventTimeFrontiers (progress : Progress) (e : LogicalEpoch) (ikey : String) :
    (progress.commit e ikey).inputEventTimeFrontiers = progress.inputEventTimeFrontiers := by
  rw [Progress.commit]

/-- What is left to the array library and the processor: whether an array of a column's type can be
built of values, and how two doubles compare. -/
structure ArrowFormat where
  builds : ColumnSchema → List Value → Bool
  compareDoubles : Number → Number → Option Ordering

/-- The rows of an output batch, with their values in the order of the columns. -/
abbrev OutputBatch := List (List Value)

structure ViewOutput (α : Type) where
  viewId : String
  schemaFingerprint : String
  content : α
  deriving DecidableEq

structure EpochCommit where
  logicalEpoch : LogicalEpoch
  idempotencyKey : String
  inputFrontiers : List RelationFrontier
  inputEventTimeFrontiers : List InputEventTimeFrontier
  outputDeltas : List (ViewOutput DeltaBatch)
  outputBatches : List (ViewOutput OutputBatch)
  deriving DecidableEq

def outputColumnValueArray (format : ArrowFormat) (column : ColumnSchema) (values : List Value) :
    Except RuntimeError Unit :=
  if !column.nullable && values.any (· = .null) then .error invalidRuntimeState
  else if format.builds column values then .ok ()
  else .error invalidRuntimeState

/-- The arrays of all columns can be built. -/
def buildArrays (format : ArrowFormat) (columns : List ColumnSchema) (rows : OutputBatch) :
    Except RuntimeError Unit :=
  columns.zipIdx.forM fun (column, index) =>
    outputColumnValueArray format column (rows.filterMap (·[index]?))

def requireSingleWeight (row : DeltaRecord) : Except RuntimeError Unit :=
  if row.weight.val = 1 then .ok ()
  else .error (.invalidProgramIdentity ("generic_page_weight:" ++ toString row.weight.val))

def orMissing {α : Type} : Option α → Except RuntimeError α
  | some a => .ok a
  | none => .error invalidRuntimeState

theorem orMissing_ok {α : Type} {value : Option α} {a : α} (h : orMissing value = .ok a) :
    value = some a := by
  cases value with
  | none => cases h
  | some b =>
    cases h
    rfl

/-- The columns of the primary key are taken from the key, the others are projected. -/
def materializedRow (keyColumns : List ColumnSchema)
    (aggregates : List (SortedMap String Value → Except RuntimeError Value)) (row : DeltaRecord) :
    Except RuntimeError (List Value) := do
  requireSingleWeight row
  let value ← orMissing row.value.asObject
  let keyValues ← if keyColumns.length = 1 then pure [row.key] else do
    let key ← orMissing row.key.asObject
    keyColumns.mapM fun column => orMissing (key.find? column.name)
  let aggregateValues ← aggregates.mapM (· value)
  return keyValues ++ aggregateValues

def materializedDeltaToRecordBatch (format : ArrowFormat) (outputSchema : RelationSchema)
    (state : DeltaBatch) (aggregates : List (SortedMap String Value → Except RuntimeError Value)) :
    Except RuntimeError OutputBatch := do
  let keyCount := outputSchema.primaryKey.length
  if outputSchema.columns.length ≠ keyCount + aggregates.length then .error invalidRuntimeState
  else
    let rows ← orInvalidState state.netRows
    let rows ← rows.mapM (materializedRow (outputSchema.columns.take keyCount) aggregates)
    buildArrays format outputSchema.columns rows
    return rows

/-- The key is an array of the group key and the bounds of the window. -/
def materializedTumblingRow
    (aggregates : List (SortedMap String Value → Except RuntimeError Value)) (row : DeltaRecord) :
    Except RuntimeError (List Value) := do
  requireSingleWeight row
  match ← orMissing row.key.asArray with
  | [groupKey, windowStart, windowEnd] =>
    let value ← orMissing row.value.asObject
    let aggregateValues ← aggregates.mapM (· value)
    return groupKey :: windowStart :: windowEnd :: aggregateValues
  | _ => .error invalidRuntimeState

/-- The first column is the key, the others are fields of the value. -/
def materializedGenericRow (valueColumns : List ColumnSchema) (row : DeltaRecord) :
    Except RuntimeError (List Value) := do
  requireSingleWeight row
  if valueColumns.isEmpty then return [row.key]
  else
    let value ← orMissing row.value.asObject
    let values ← valueColumns.mapM fun column => orMissing (value.find? column.name)
    return row.key :: values

/-- A key that is JSON is written as text, also when it is null. -/
def keyArrayColumn (column : ColumnSchema) : ColumnSchema :=
  { column with nullable := column.dataType = .json }

def materializedGenericDeltaToRecordBatch (format : ArrowFormat) (outputSchema : RelationSchema)
    (state : DeltaBatch) : Except RuntimeError OutputBatch := do
  let rows ← orInvalidState state.netRows
  match outputSchema.columns with
  | [] => .error invalidRuntimeState
  | keyColumn :: valueColumns =>
    let rows ← rows.mapM (materializedGenericRow valueColumns)
    buildArrays format (keyArrayColumn keyColumn :: valueColumns) rows
    return rows

def materializedTumblingDeltaToRecordBatch (format : ArrowFormat) (outputSchema : RelationSchema)
    (state : DeltaBatch) (aggregates : List (SortedMap String Value → Except RuntimeError Value)) :
    Except RuntimeError OutputBatch :=
  match outputSchema.columns with
  | keyColumn :: windowStart :: windowEnd :: aggregateColumns =>
    if aggregateColumns.length ≠ aggregates.length then .error invalidRuntimeState
    else do
      let rows ← orInvalidState state.netRows
      let rows ← rows.mapM (materializedTumblingRow aggregates)
      buildArrays format (keyArrayColumn keyColumn :: { windowStart with nullable := false } ::
        { windowEnd with nullable := false } :: aggregateColumns) rows
      return rows
  | _ => .error invalidRuntimeState

end Velorix.View
