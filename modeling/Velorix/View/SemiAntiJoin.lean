import Velorix.Native.ExistenceGraph
import Velorix.View.Checkpoints
import Velorix.View.Staging

/-! Views over a semi or anti join: a graph of one operator selects rows of the left relation, and
a projection makes the rows of the view of them. -/
namespace Velorix.View

open Json Delta Native

/-- An expression over the fields of a row, with the columns that it reads. -/
structure ProjectionExpr where
  columnIds : List String
  evaluate : SortedMap String Value → Except RuntimeError I64

structure ProjectionColumn where
  inputColumnId : String
  outputColumnId : String
  expression : Option ProjectionExpr

structure SupportedFilterProjectPlan where
  inputRelationId : String
  keyColumnId : String
  outputKeyColumnId : String
  outputKeyInputColumnId : Option String
  valueColumns : List ProjectionColumn

variable (plan : SupportedFilterProjectPlan)

def pushFilterProjectInputColumn (columns : List String) (columnId : String) : List String :=
  if columnId ≠ plan.keyColumnId ∧ columnId ∉ columns then columns ++ [columnId] else columns

/-- The columns of a row that the projection reads, besides its key. -/
def filterProjectInputColumnIds : List String :=
  (plan.outputKeyInputColumnId.toList ++ plan.valueColumns.flatMap fun column =>
    column.inputColumnId :: (column.expression.map (·.columnIds)).getD []).foldl
      (pushFilterProjectInputColumn plan) []

def projectColumn (input : SortedMap String Value) (column : ProjectionColumn) :
    Except RuntimeError (String × Value) := do
  let value ← match column.expression with
    | some expression => do
      let result ← expression.evaluate input
      pure (Value.ofI64 result)
    | none => orMissing (input.find? column.inputColumnId)
  return (column.outputColumnId, value)

/-- The key and the value of a projected record. -/
def projectPair (pair : Value × Value) :
    Except RuntimeError (Value × Value) := do
  let input ← orMissing pair.2.asObject
  let output ← plan.valueColumns.mapM (projectColumn input)
  let outputKey ← match plan.outputKeyInputColumnId with
    | some columnId => orMissing (input.find? columnId)
    | none => pure pair.1
  return (outputKey, .object (.ofList output))

def projectRecord (record : DeltaRecord) :
    Except RuntimeError DeltaRecord := do
  let pair ← projectPair plan record.pair
  return ⟨pair.1, pair.2, record.weight⟩

def projectFilterProjectDeltaBatch (delta : DeltaBatch) (plan : SupportedFilterProjectPlan) :
    Except RuntimeError DeltaBatch := do
  let records ← delta.records.mapM (projectRecord plan)
  return ⟨records⟩

def applyPublishedOutputDelta (current outputDelta : DeltaBatch) :
    Except RuntimeError DeltaBatch := do
  let rows ← orInvalidState (current.combine outputDelta).netRows
  if rows.any (·.weight.val ≠ 1) then .error invalidRuntimeState else return ⟨rows⟩

structure SemiAntiJoinProjectPlan where
  joinKind : ExistenceKind
  leftInputRelationId : String
  rightInputRelationId : String
  leftJoinKeyColumnId : String
  rightJoinKeyColumnId : String
  projection : SupportedFilterProjectPlan

structure SemiAntiJoinDefinition where
  view : OutputView
  catalogs : List Catalog
  inputSchemas : List RelationSchema
  plan : SemiAntiJoinProjectPlan

structure TwoInputSemiAntiJoinRuntime where
  definition : SemiAntiJoinDefinition
  graph : NativeOperatorGraph
  publishedOutput : DeltaBatch := .empty
  progress : Progress := {}

def semiAntiJoinNodeId : String := "semi_anti_join"

def buildSemiAntiJoinGraph (joinKind : ExistenceKind) : Except RuntimeError NativeOperatorGraph :=
  match NativeOperatorGraph.new.addOperator (joinKind.operator (.new semiAntiJoinNodeId)) with
  | .ok graph => .ok graph
  | .error _ => .error invalidRuntimeState

def validateInputMatchesOneSchema (input : RelationInputBatch) (schemas : List RelationSchema)
    (field : String) : Except RuntimeError Unit :=
  if schemas.any fun schema => (validateInputMatchesSchema input schema field).isOk then .ok ()
  else .error (.invalidProgramIdentity field)

def catalogForRelationId (catalogs : List Catalog) (relationId : String) :
    Except RuntimeError Catalog :=
  match catalogs.find? (·.relationId = relationId) with
  | some catalog => .ok catalog
  | none => .error (.invalidProgramIdentity "semi_anti_join_catalog")

namespace SemiAntiJoinDefinition

variable (definition : SemiAntiJoinDefinition)

/-- The two relations are there and different ones, and the left one has the columns of the keys. -/
def contract : Bool :=
  let plan := definition.plan
  let catalog (relationId : String) := definition.catalogs.find? (·.relationId = relationId)
  match catalog plan.leftInputRelationId, catalog plan.rightInputRelationId with
  | some left, some right =>
    definition.catalogs.length = 2 ∧ definition.inputSchemas.length = 2 ∧
      left.relationId ≠ right.relationId ∧
      plan.projection.inputRelationId = plan.leftInputRelationId ∧
      (left.column plan.projection.keyColumnId).isSome ∧
      (left.column plan.leftJoinKeyColumnId).isSome
  | _, _ => false

/-- The key of the view is carried as a value if it is not the key of the join. -/
def leftColumns : List String :=
  let plan := definition.plan
  let columns := filterProjectInputColumnIds plan.projection
  let projectionKey := plan.projection.keyColumnId
  if projectionKey ≠ plan.leftJoinKeyColumnId ∧ projectionKey ∉ columns then
    columns ++ [projectionKey]
  else columns

def rightColumns (catalog : Catalog) : List String :=
  (catalog.columns.map (·.columnId)).filter fun columnId =>
    columnId ≠ definition.plan.rightJoinKeyColumnId ∧ columnId ≠ catalog.weightColumnId

/-- The records of an input, and the port of the join that they go to. -/
def graphInput (input : RelationInputBatch) :
    Except RuntimeError NativeOperatorInputV1 := do
  let plan := definition.plan
  let catalog ← catalogForRelationId definition.catalogs input.relationId
  if input.relationId = plan.leftInputRelationId then
    let delta ← inputDelta catalog input [plan.leftJoinKeyColumnId] definition.leftColumns
      "semi_anti_join_left_input_batch"
    return ⟨semiAntiJoinNodeId, "left", delta⟩
  else if input.relationId = plan.rightInputRelationId then
    let delta ← inputDelta catalog input [plan.rightJoinKeyColumnId]
      (definition.rightColumns catalog) "semi_anti_join_right_input_batch"
    return ⟨semiAntiJoinNodeId, "right", delta⟩
  else .error (.invalidProgramIdentity "semi_anti_join_input_relation")

def stage (staged : List NativeOperatorInputV1 × Progress) (input : RelationInputBatch) :
    Except RuntimeError (List NativeOperatorInputV1 × Progress) := do
  validateInputMatchesOneSchema input definition.inputSchemas "semi_anti_join_input_relation"
  let progress ← staged.2.advance input
  let graphInput ← definition.graphInput input
  return (staged.1 ++ [graphInput], progress)

end SemiAntiJoinDefinition

namespace TwoInputSemiAntiJoinRuntime

/-- A view without rows. `accepts` stands for the compilation of the query, and for the checks of
the plan and the schemas that depend on nothing else. -/
def new (accepts : SemiAntiJoinDefinition → Bool) (definition : SemiAntiJoinDefinition) :
    Except RuntimeError TwoInputSemiAntiJoinRuntime := do
  if !definition.contract then .error (.invalidProgramIdentity "semi_anti_join_contract")
  else if !accepts definition then .error (.invalidProgramIdentity "semi_anti_join_plan")
  else
    let graph ← buildSemiAntiJoinGraph definition.plan.joinKind
    return { definition, graph }

/-- What the output of the graph makes of the published output. -/
def publish (format : ArrowFormat) (runtime : TwoInputSemiAntiJoinRuntime) (output : DeltaBatch) :
    Except RuntimeError (DeltaBatch × DeltaBatch × OutputBatch) := do
  let plan := runtime.definition.plan
  let _ ← catalogForRelationId runtime.definition.catalogs plan.leftInputRelationId
  let outputDelta ← projectFilterProjectDeltaBatch output plan.projection
  let nextPublished ← applyPublishedOutputDelta runtime.publishedOutput outputDelta
  let batch ← materializedGenericDeltaToRecordBatch format runtime.definition.view.schema
    nextPublished
  return (outputDelta, nextPublished, batch)

/-- After a failure, the graph goes back to where it was. -/
def putBack (runtime : TwoInputSemiAntiJoinRuntime) (graph : NativeOperatorGraph)
    (before : NativeOperatorGraphCheckpointV1) (error : RuntimeError) :
    Except RuntimeError EpochCommit × TwoInputSemiAntiJoinRuntime :=
  match graph.restore before with
  | (graph, .ok ()) => (.error error, { runtime with graph })
  | (graph, .error _) => (.error invalidRuntimeState, { runtime with graph })

def applyInputs (format : ArrowFormat) (runtime : TwoInputSemiAntiJoinRuntime)
    (logicalEpoch : LogicalEpoch) (idempotencyKey : String)
    (before : NativeOperatorGraphCheckpointV1) (graphInputs : List NativeOperatorInputV1)
    (progress : Progress) : Except RuntimeError EpochCommit × TwoInputSemiAntiJoinRuntime :=
  match runtime.graph.applyEpoch logicalEpoch graphInputs with
  | none => (.error invalidRuntimeState, runtime)
  | some (graph, .error _) => runtime.putBack graph before invalidRuntimeState
  | some (graph, .ok outputs) =>
    match runtime.publish format ((outputs.find? semiAntiJoinNodeId).getD .empty) with
    | .error error => runtime.putBack graph before error
    | .ok (outputDelta, nextPublished, batch) =>
      (.ok (progress.epochCommit runtime.definition.view logicalEpoch idempotencyKey outputDelta
          batch),
        { runtime with
          graph
          publishedOutput := nextPublished
          progress := progress.commit logicalEpoch idempotencyKey })

/-- The outcome of an epoch, and the runtime after it, whether the epoch failed or not. -/
def applyChanges (format : ArrowFormat) (runtime : TwoInputSemiAntiJoinRuntime)
    (logicalEpoch : LogicalEpoch) (idempotencyKey : String)
    (inputChanges : List RelationInputBatch) :
    Except RuntimeError EpochCommit × TwoInputSemiAntiJoinRuntime :=
  match runtime.progress.gate logicalEpoch idempotencyKey with
  | .error error => (.error error, runtime)
  | .ok .replayed =>
    ((materializedGenericDeltaToRecordBatch format runtime.definition.view.schema
      runtime.publishedOutput).map (runtime.progress.replayCommit runtime.definition.view
        logicalEpoch idempotencyKey), runtime)
  | .ok .open =>
    match runtime.graph.checkpoint with
    | .error _ => (.error invalidRuntimeState, runtime)
    | .ok before =>
      match inputChanges.foldlM runtime.definition.stage ([], runtime.progress) with
      | .error error => runtime.putBack runtime.graph before error
      | .ok (graphInputs, progress) =>
        runtime.applyInputs format logicalEpoch idempotencyKey before graphInputs progress

structure Payload where
  definition : SemiAntiJoinDefinition
  graph : NativeOperatorGraphCheckpointV1
  publishedOutput : DeltaBatch
  inputFrontiers : List RelationFrontier
  inputEventTimeFrontiers : List InputEventTimeFrontier
  appliedEpochs : List (String × LogicalEpoch)

/-- The codec of payloads, `arrow_state`. Either way may fail: `to_state` does on payloads that
go beyond its budget. -/
structure StateCodec (State : Type) where
  toState : Payload → Option State
  fromState : State → Option Payload

/-- What was encoded is decoded as it was. -/
def StateCodec.Lossless {State : Type} (codec : StateCodec State) : Prop :=
  ∀ payload state, codec.toState payload = some state → codec.fromState state = some payload

structure Checkpoint (State : Type) where
  logicalEpoch : LogicalEpoch
  inputFrontiers : List RelationFrontier
  inputEventTimeFrontiers : List InputEventTimeFrontier
  payload : State

def checkpointField : RuntimeError := .invalidProgramIdentity "semi_anti_join_checkpoint"

variable {State : Type} (codec : StateCodec State)

def checkpoint (runtime : TwoInputSemiAntiJoinRuntime) :
    Except RuntimeError (Checkpoint State) := do
  let graph ← runtime.graph.checkpoint.mapError fun _ => invalidCheckpoint
  let progress := runtime.progress
  match codec.toState ⟨runtime.definition, graph, runtime.publishedOutput, progress.inputFrontiers,
      progress.inputEventTimeFrontiers, progress.appliedEpochs.entries⟩ with
  | none => .error invalidCheckpoint
  | some payload => return ⟨progress.logicalEpoch, progress.inputFrontiers,
      progress.inputEventTimeFrontiers, payload⟩

def addRightCount (count : I64) (right : DeltaRecord) : Except RuntimeError I64 :=
  if right.weight.val < 0 then .error invalidCheckpoint
  else match count.checkedAdd right.weight with
    | some count => .ok count
    | none => .error invalidCheckpoint

def retains : ExistenceKind → I64 → Bool
  | .semi, count => 0 < count.val
  | .anti, count => count.val = 0

def expectedRow (joinKind : ExistenceKind) (rightRows : List DeltaRecord) (row : DeltaRecord) :
    Except RuntimeError (Option DeltaRecord) := do
  if row.weight.val < 0 then .error invalidCheckpoint
  else
    let rightCount ← (rightRows.filter (·.key.eq row.key)).foldlM addRightCount 0
    return if retains joinKind rightCount then some row else none

def expectedSemiAntiOutput (graph : NativeOperatorGraphCheckpointV1) (joinKind : ExistenceKind) :
    Except RuntimeError DeltaBatch :=
  match graph.operators.find? (·.nodeId = semiAntiJoinNodeId) with
  | some { state := .binary leftState rightState, .. } => do
    let rightRows ← rightState.netRows.mapError fun _ => invalidCheckpoint
    let leftRows ← leftState.netRows.mapError fun _ => invalidCheckpoint
    let output ← leftRows.mapM (expectedRow joinKind rightRows)
    return ⟨output.filterMap id⟩
  | _ => .error invalidCheckpoint

def restorePayload (accepts : SemiAntiJoinDefinition → Bool) (checkpoint : Checkpoint State)
    (payload : Payload) : Except RuntimeError TwoInputSemiAntiJoinRuntime := do
  let definition := payload.definition
  if payload.graph.logicalEpoch ≠ checkpoint.logicalEpoch ∨
      payload.inputFrontiers ≠ checkpoint.inputFrontiers ∨
      payload.inputEventTimeFrontiers ≠ checkpoint.inputEventTimeFrontiers then
    .error checkpointField
  else if !definition.contract ∨ !accepts definition then .error invalidCheckpoint
  else
    validateInputEventTimeFrontiersForCatalogs definition.catalogs []
      checkpoint.inputEventTimeFrontiers
    validatePublishedOutput payload.publishedOutput
    let expected ← expectedSemiAntiOutput payload.graph definition.plan.joinKind
    let _ ← catalogForRelationId definition.catalogs definition.plan.leftInputRelationId
    let expected ← projectFilterProjectDeltaBatch expected definition.plan.projection
    if !expected.eq payload.publishedOutput then .error invalidCheckpoint
    else
      let graph ← buildSemiAntiJoinGraph definition.plan.joinKind
      match graph.restore payload.graph with
      | (_, .error _) => .error invalidCheckpoint
      | (graph, .ok ()) =>
        let appliedEpochs := retainRecentAppliedEpochs (.ofList payload.appliedEpochs)
        if !appliedEpochsFit appliedEpochs checkpoint.logicalEpoch then .error checkpointField
        else return ⟨definition, graph, payload.publishedOutput,
          ⟨checkpoint.inputFrontiers, checkpoint.inputEventTimeFrontiers, appliedEpochs,
            checkpoint.logicalEpoch⟩⟩

def restore (accepts : SemiAntiJoinDefinition → Bool) (checkpoint : Checkpoint State) :
    Except RuntimeError TwoInputSemiAntiJoinRuntime :=
  match codec.fromState checkpoint.payload with
  | none => .error invalidCheckpoint
  | some payload => restorePayload accepts checkpoint payload

end TwoInputSemiAntiJoinRuntime

end Velorix.View
