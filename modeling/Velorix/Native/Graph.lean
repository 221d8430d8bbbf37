import Velorix.Foundation.Kahn
import Velorix.Native.Joins
import Velorix.Native.Unary

/-! The graph of native operators. An epoch delivers its inputs through a queue, breadth
first; when it fails, the checkpoint taken before it is restored. -/
namespace Velorix.Native

open Delta

inductive NativeOperator
  | filter (operator : NativeFilterOperator)
  | project (operator : NativeProjectOperator)
  | aggregate (operator : NativeAggregateOperator)
  | binaryJoin (operator : NativeBinaryJoinOperator)
  | semiJoin (operator : ExistenceJoin)
  | antiJoin (operator : ExistenceJoin)
  | leftJoin (operator : NativeLeftJoinOperator)
  | fullJoin (operator : NativeFullJoinOperator)
  | topK (operator : NativeTopKOperator)

/-- An operator that does not move when it fails. -/
def stepped {σ : Type} (operator : σ) (wrap : σ → NativeOperator)
    (result : Except NativeOperatorError (DeltaBatch × σ)) :
    NativeOperator × Except NativeOperatorError DeltaBatch :=
  match result with
  | .ok (output, next) => (wrap next, .ok output)
  | .error error => (wrap operator, .error error)

namespace NativeOperator

def nodeId : NativeOperator → String
  | filter operator => operator.nodeId
  | project operator => operator.nodeId
  | aggregate operator => operator.nodeId
  | binaryJoin operator => operator.nodeId
  | semiJoin operator => operator.nodeId
  | antiJoin operator => operator.nodeId
  | leftJoin operator => operator.nodeId
  | fullJoin operator => operator.nodeId
  | topK operator => operator.nodeId

def inputPorts : NativeOperator → List String
  | filter _ | project _ | aggregate _ | topK _ => ["input"]
  | binaryJoin _ | semiJoin _ | antiJoin _ | leftJoin _ | fullJoin _ => ["left", "right"]

def apply (operator : NativeOperator) (portId : String) (input : DeltaBatch) :
    NativeOperator × Except NativeOperatorError DeltaBatch :=
  match operator with
  | filter operator => (filter operator, operator.apply portId input)
  | project operator => (project operator, operator.apply portId input)
  | aggregate operator => stepped operator aggregate (operator.apply portId input)
  | binaryJoin operator => stepped operator binaryJoin (operator.apply portId input)
  | semiJoin operator =>
    let (next, result) := operator.apply NativeSemiJoinOperator portId input
    (semiJoin next, result)
  | antiJoin operator =>
    let (next, result) := operator.apply NativeAntiJoinOperator portId input
    (antiJoin next, result)
  | leftJoin operator =>
    let (next, result) := operator.apply portId input
    (leftJoin next, result)
  | fullJoin operator =>
    let (next, result) := operator.apply portId input
    (fullJoin next, result)
  | topK operator =>
    let (next, result) := operator.apply portId input
    (topK next, result)

def checkpoint : NativeOperator → NativeOperatorCheckpointV1
  | filter operator => operator.checkpoint
  | project operator => operator.checkpoint
  | aggregate operator => operator.checkpoint
  | binaryJoin operator => operator.checkpoint
  | semiJoin operator => operator.checkpoint NativeSemiJoinOperator
  | antiJoin operator => operator.checkpoint NativeAntiJoinOperator
  | leftJoin operator => operator.checkpoint
  | fullJoin operator => operator.checkpoint
  | topK operator => operator.checkpoint

def restore (operator : NativeOperator) (checkpoint : NativeOperatorCheckpointV1) :
    Except NativeOperatorError NativeOperator :=
  match operator with
  | filter operator => filter <$> operator.restore checkpoint
  | project operator => project <$> operator.restore checkpoint
  | aggregate operator => aggregate <$> operator.restore checkpoint
  | binaryJoin operator => binaryJoin <$> operator.restore checkpoint
  | semiJoin operator => semiJoin <$> operator.restore NativeSemiJoinOperator checkpoint
  | antiJoin operator => antiJoin <$> operator.restore NativeAntiJoinOperator checkpoint
  | leftJoin operator => leftJoin <$> operator.restore checkpoint
  | fullJoin operator => fullJoin <$> operator.restore checkpoint
  | topK operator => topK <$> operator.restore checkpoint

end NativeOperator

structure NativeOperatorEdgeV1 where
  fromNodeId : String
  toNodeId : String
  toPortId : String
  deriving DecidableEq

def NativeOperatorEdgeV1.rank (edge : NativeOperatorEdgeV1) : String ×ₗ (String ×ₗ String) :=
  toLex (edge.fromNodeId, toLex (edge.toNodeId, edge.toPortId))

structure NativeOperatorInputV1 where
  nodeId : String
  portId : String
  batch : DeltaBatch
  deriving DecidableEq

/-- Operators are stored under their own node ids. -/
structure NativeOperatorGraph where
  logicalEpoch : UInt64
  operators : SortedMap String NativeOperator
  named : ∀ nodeId operator, operators.find? nodeId = some operator → operator.nodeId = nodeId
  edges : List NativeOperatorEdgeV1

def requireIdentity (field value : String) : Except String Unit :=
  if BlankText.isBlank value then .error (field ++ " must be non-empty") else .ok ()

namespace NativeOperatorGraph

def new : NativeOperatorGraph := ⟨0, ∅, by simp, []⟩

variable (graph : NativeOperatorGraph)

/-- Puts an operator in the place of its node id. -/
def setOperator (operator : NativeOperator) : NativeOperatorGraph :=
  { graph with
    operators := graph.operators.insert operator.nodeId operator
    named := by
      intro nodeId other h
      rw [SortedMap.find?_insert] at h
      split_ifs at h with heq
      · cases h
        exact heq
      · exact graph.named nodeId other h }

def addOperator (operator : NativeOperator) : Except NativeOperatorError NativeOperatorGraph :=
  match requireIdentity "node_id" operator.nodeId with
  | .error reason => .error (.invalidGraph reason)
  | .ok () =>
    if (graph.operators.find? operator.nodeId).isSome then
      .error (.invalidGraph "operator node ids must be unique")
    else .ok (graph.setOperator operator)

def addEdge (edge : NativeOperatorEdgeV1) : NativeOperatorGraph :=
  { graph with edges := (graph.edges ++ [edge]).insertionSort fun a b => a.rank ≤ b.rank }

def doesNotAccept (nodeId portId : String) : NativeOperatorError :=
  .invalidGraph ("operator " ++ nodeId ++ " does not accept input port " ++ portId)

def validateEdge (operators : SortedMap String NativeOperator)
    (unique : List NativeOperatorEdgeV1) (edge : NativeOperatorEdgeV1) :
    Except NativeOperatorError (List NativeOperatorEdgeV1) :=
  if edge ∈ unique then .error (.invalidGraph "operator edges must be unique")
  else if (operators.find? edge.fromNodeId).isNone then
    .error (.invalidGraph "edge producer is missing")
  else match operators.find? edge.toNodeId with
    | none => .error (.invalidGraph "edge consumer is missing")
    | some consumer =>
      if edge.toPortId ∉ consumer.inputPorts then
        .error (doesNotAccept edge.toNodeId edge.toPortId)
      else .ok (edge :: unique)

def ends (edges : List NativeOperatorEdgeV1) : List (String × String) :=
  edges.map fun edge => (edge.fromNodeId, edge.toNodeId)

def validateAcyclic (operators : SortedMap String NativeOperator)
    (edges : List NativeOperatorEdgeV1) : Except NativeOperatorError Unit :=
  if (Kahn.order operators.keys (ends edges)).length ≠ operators.size then
    .error (.invalidGraph "operator graph contains a cycle")
  else .ok ()

def validate : Except NativeOperatorError Unit := do
  if graph.operators.isEmpty then .error (.invalidGraph "at least one operator is required")
  else
    let _ ← graph.edges.foldlM (validateEdge graph.operators) []
    validateAcyclic graph.operators graph.edges

def checkpoint (graph : NativeOperatorGraph) :
    Except NativeOperatorError NativeOperatorGraphCheckpointV1 := do
  graph.validate
  return ⟨1, graph.logicalEpoch, graph.operators.values.map NativeOperator.checkpoint⟩

/-- The loop of an epoch: the operators as they are now, the inputs still to be delivered
and what reached the sinks. -/
structure EpochState where
  graph : NativeOperatorGraph
  queue : List NativeOperatorInputV1
  sinks : SortedMap String DeltaBatch

def outgoing (graph : NativeOperatorGraph) (nodeId : String) : List NativeOperatorEdgeV1 :=
  graph.edges.filter fun edge => edge.fromNodeId = nodeId

/-- Passes on the output of an operator: to the sinks, or along the outgoing edges. -/
def emit (state : EpochState) (nodeId : String) (output : DeltaBatch) : EpochState :=
  let edges := state.graph.outgoing nodeId
  if edges.isEmpty then
    let current := (state.sinks.find? nodeId).getD .empty
    { state with sinks := state.sinks.insert nodeId (current.combine output) }
  else { state with
    queue := state.queue ++ edges.map fun edge => ⟨edge.toNodeId, edge.toPortId, output⟩ }

/-- Delivers one input. An error carries the graph as the failed delivery left it. -/
def deliver (state : EpochState) (input : NativeOperatorInputV1) :
    Except (NativeOperatorGraph × NativeOperatorError) EpochState :=
  match state.graph.operators.find? input.nodeId with
  | none => .error (state.graph,
      .invalidGraph ("input target operator " ++ input.nodeId ++ " is missing"))
  | some operator =>
    if input.portId ∉ operator.inputPorts then
      .error (state.graph, doesNotAccept input.nodeId input.portId)
    else
      let (next, result) := operator.apply input.portId input.batch
      let graph := state.graph.setOperator next
      match result with
      | .error error => .error (graph, error)
      | .ok output => .ok (emit { state with graph } input.nodeId output)

/-- The `while` loop, cut off after a number of deliveries. -/
def drain : ℕ → EpochState → Option (Except (NativeOperatorGraph × NativeOperatorError) EpochState)
  | fuel, ⟨graph, queue, sinks⟩ =>
    match queue with
    | [] => some (.ok ⟨graph, [], sinks⟩)
    | input :: queue =>
      match fuel with
      | 0 => none
      | fuel + 1 =>
        match deliver ⟨graph, queue, sinks⟩ input with
        | .error error => some (.error error)
        | .ok state => drain fuel state

/-- How many deliveries one input at a node leads to, itself included, following at most
`depth` edges. -/
def deliveries (edges : List NativeOperatorEdgeV1) : ℕ → String → ℕ
  | 0, _ => 1
  | depth + 1, nodeId => 1 + ((edges.filter fun edge => edge.fromNodeId = nodeId).map fun edge =>
      deliveries edges depth edge.toNodeId).sum

/-- The deliveries that a queue leads to when none fails. -/
def deliveryBudget (queue : List NativeOperatorInputV1) : ℕ :=
  (queue.map fun input => deliveries graph.edges graph.operators.size input.nodeId).sum

def consolidateSinks (sinks : SortedMap String DeltaBatch) :
    Except NativeOperatorError (SortedMap String DeltaBatch) := do
  let entries ← sinks.entries.mapM fun sink => do
    let rows ← netRows sink.2
    return (sink.1, (⟨rows⟩ : DeltaBatch))
  return SortedMap.ofList entries

def sortInputs (inputs : List NativeOperatorInputV1) : List NativeOperatorInputV1 :=
  inputs.insertionSort fun left right =>
    toLex (left.nodeId, left.portId) ≤ toLex (right.nodeId, right.portId)

/-- The result of an epoch with the graph it leaves; `none` only if the loop were cut off. -/
abbrev EpochResult := Option (NativeOperatorGraph × Except NativeOperatorError
  (SortedMap String DeltaBatch))

/-- The epoch number is set before the sinks are consolidated. -/
def applyEpochInner (logicalEpoch : UInt64) (inputs : List NativeOperatorInputV1) : EpochResult :=
  let queue := sortInputs inputs
  match drain (graph.deliveryBudget queue) ⟨graph, queue, ∅⟩ with
  | none => none
  | some (.error (graph, error)) => some (graph, .error error)
  | some (.ok state) => some ({ state.graph with logicalEpoch }, consolidateSinks state.sinks)

/-- Restores the operators in key order, up to the first that fails. -/
def restoreOperators (checkpoints : SortedMap String NativeOperatorCheckpointV1) :
    List (String × NativeOperator) → NativeOperatorGraph →
      NativeOperatorGraph × Except NativeOperatorError Unit
  | [], graph => (graph, .ok ())
  | (nodeId, operator) :: rest, graph =>
    match checkpoints.find? nodeId with
    | none => (graph,
        .error (.invalidCheckpoint ("checkpoint for operator " ++ nodeId ++ " is missing")))
    | some state =>
      match operator.restore state with
      | .error error => (graph, .error error)
      | .ok next => restoreOperators checkpoints rest (graph.setOperator next)

def restoreInner (checkpoint : NativeOperatorGraphCheckpointV1) :
    NativeOperatorGraph × Except NativeOperatorError Unit :=
  if checkpoint.schemaVersion ≠ 1 then
    (graph, .error (.invalidCheckpoint "unsupported checkpoint schema version"))
  else if checkpoint.operators.length ≠ graph.operators.size then
    (graph, .error (.invalidCheckpoint "checkpoint operator set does not match graph"))
  else
    let checkpoints := SortedMap.ofList (checkpoint.operators.map fun c => (c.nodeId, c))
    match restoreOperators checkpoints graph.operators.entries graph with
    | (graph, .error error) => (graph, .error error)
    | (graph, .ok ()) => ({ graph with logicalEpoch := checkpoint.logicalEpoch }, .ok ())

/-- Goes back to the checkpoint after an error; `during` says what failed. -/
def rollback {α : Type} (graph : NativeOperatorGraph) (previous : NativeOperatorGraphCheckpointV1)
    (during : String) (error : NativeOperatorError) :
    NativeOperatorGraph × Except NativeOperatorError α :=
  match graph.restoreInner previous with
  | (graph, .ok ()) => (graph, .error error)
  | (graph, .error rollback) => (graph, .error (.invalidCheckpoint (during ++ " failed with " ++
      error.message ++ "; graph rollback failed with " ++ rollback.message)))

def applyEpoch (logicalEpoch : UInt64) (inputs : List NativeOperatorInputV1) : EpochResult :=
  match graph.validate with
  | .error error => some (graph, .error error)
  | .ok () =>
    if logicalEpoch ≤ graph.logicalEpoch then
      some (graph, .error (.nonMonotonicEpoch graph.logicalEpoch logicalEpoch))
    else match graph.checkpoint with
      | .error error => some (graph, .error error)
      | .ok previous =>
        match graph.applyEpochInner logicalEpoch inputs with
        | none => none
        | some (graph, .ok outputs) => some (graph, .ok outputs)
        | some (graph, .error error) => some (graph.rollback previous "epoch" error)

def restore (graph : NativeOperatorGraph) (checkpoint : NativeOperatorGraphCheckpointV1) :
    NativeOperatorGraph × Except NativeOperatorError Unit :=
  match graph.validate with
  | .error error => (graph, .error error)
  | .ok () =>
    match graph.checkpoint with
    | .error error => (graph, .error error)
    | .ok previous =>
      match graph.restoreInner checkpoint with
      | (graph, .ok ()) => (graph, .ok ())
      | (graph, .error error) => graph.rollback previous "restore" error

/-- Epochs that all succeed, with their outputs. -/
def runEpochs (graph : NativeOperatorGraph) : List (UInt64 × List NativeOperatorInputV1) →
    Option (NativeOperatorGraph × List (SortedMap String DeltaBatch))
  | [] => some (graph, [])
  | (logicalEpoch, inputs) :: rest =>
    match graph.applyEpoch logicalEpoch inputs with
    | some (next, .ok outputs) =>
      (next.runEpochs rest).map fun run => (run.1, outputs :: run.2)
    | _ => none

theorem runEpochs_cons {graph final : NativeOperatorGraph}
    {epoch : UInt64 × List NativeOperatorInputV1}
    {rest : List (UInt64 × List NativeOperatorInputV1)} {outs : List (SortedMap String DeltaBatch)}
    (h : graph.runEpochs (epoch :: rest) = some (final, outs)) :
    ∃ next o others, graph.applyEpoch epoch.1 epoch.2 = some (next, .ok o) ∧
      next.runEpochs rest = some (final, others) ∧ outs = o :: others := by
  rw [runEpochs] at h
  split at h
  · rename_i next o he
    obtain ⟨⟨final', others⟩, hr, h⟩ := Option.map_eq_some_iff.mp h
    cases h
    exact ⟨next, o, others, he, hr, rfl⟩
  · cases h

end NativeOperatorGraph
end Velorix.Native
