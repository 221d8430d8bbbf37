import Velorix.Foundation.Words
import Velorix.Native.Types

/-! The native operators with one input: filter, project, aggregate and top-k. An
operator returns its state after the call along with the result, since some of them
move before a later check fails. -/
namespace Velorix.Native

open Json Delta Operator

def mapDeltaBatch (input : DeltaBatch)
    (transform : DeltaRecord → Except OperatorError (Value × Value)) :
    Except OperatorError DeltaBatch := do
  let records ← input.records.mapM fun record => do
    let (key, value) ← transform record
    return (⟨key, value, record.weight⟩ : DeltaRecord)
  return ⟨records⟩

def filterDeltaBatch (input : DeltaBatch) (predicate : DeltaRecord → Except OperatorError Bool) :
    Except OperatorError DeltaBatch := do
  let kept := input.records.filterMap fun record =>
    match predicate record with
    | .ok true => some (.ok record)
    | .ok false => none
    | .error error => some (.error error)
  let records ← kept.mapM id
  return ⟨records⟩

structure NativeFilterOperator where
  nodeId : String
  predicate : DeltaRecord → Except OperatorError Bool

namespace NativeFilterOperator

def apply (operator : NativeFilterOperator) (portId : String) (input : DeltaBatch) :
    Except NativeOperatorError DeltaBatch := do
  requirePort portId "input"
  liftOperator (filterDeltaBatch input operator.predicate)

def checkpoint (operator : NativeFilterOperator) : NativeOperatorCheckpointV1 :=
  statelessCheckpoint operator.nodeId "velorix-native-filter-v1"

def restore (operator : NativeFilterOperator) (checkpoint : NativeOperatorCheckpointV1) :
    Except NativeOperatorError NativeFilterOperator := do
  validateCheckpointIdentity checkpoint operator.nodeId "velorix-native-filter-v1" .stateless
  return operator

end NativeFilterOperator

structure NativeProjectOperator where
  nodeId : String
  project : DeltaRecord → Except OperatorError (Value × Value)

namespace NativeProjectOperator

def apply (operator : NativeProjectOperator) (portId : String) (input : DeltaBatch) :
    Except NativeOperatorError DeltaBatch := do
  requirePort portId "input"
  liftOperator (mapDeltaBatch input operator.project)

def checkpoint (operator : NativeProjectOperator) : NativeOperatorCheckpointV1 :=
  statelessCheckpoint operator.nodeId "velorix-native-project-v1"

def restore (operator : NativeProjectOperator) (checkpoint : NativeOperatorCheckpointV1) :
    Except NativeOperatorError NativeProjectOperator := do
  validateCheckpointIdentity checkpoint operator.nodeId "velorix-native-project-v1" .stateless
  return operator

end NativeProjectOperator

structure NativeAggregateOperator where
  nodeId : String
  aggregate : KeyedSumCountAggregate
  valueMode : AggregateValueMode
  trackExtrema : Bool

namespace NativeAggregateOperator

def new (nodeId : String) (valueMode : AggregateValueMode) (trackExtrema : Bool) :
    NativeAggregateOperator :=
  ⟨nodeId, .withValueModeAndExtrema valueMode trackExtrema, valueMode, trackExtrema⟩

def apply (operator : NativeAggregateOperator) (portId : String) (input : DeltaBatch) :
    Except NativeOperatorError (DeltaBatch × NativeAggregateOperator) := do
  requirePort portId "input"
  let (output, aggregate) ← liftOperator (operator.aggregate.apply input)
  return (output, { operator with aggregate })

def checkpoint (operator : NativeAggregateOperator) : NativeOperatorCheckpointV1 :=
  ⟨operator.nodeId, "velorix-native-aggregate-v1", 1, .unary operator.aggregate.stateBatch⟩

def restore (operator : NativeAggregateOperator) (checkpoint : NativeOperatorCheckpointV1) :
    Except NativeOperatorError NativeAggregateOperator := do
  validateCheckpointHeader checkpoint operator.nodeId "velorix-native-aggregate-v1"
  match checkpoint.state with
  | .unary state => do
    let aggregate ← liftOperator (KeyedSumCountAggregate.fromStateWithValueModeAndExtrema state
      operator.valueMode operator.trackExtrema)
    return { operator with aggregate }
  | _ => .error (.invalidCheckpoint "aggregate checkpoint requires unary state")

end NativeAggregateOperator

abbrev NativeSortKeyV1 := List UInt8

structure NativeTopKOperator where
  nodeId : String
  offset : ℕ
  limit : ℕ
  descending : Bool
  orderKey : DeltaRecord → Except OperatorError NativeSortKeyV1
  inputState : DeltaBatch
  outputState : DeltaBatch

/-- A row with what it is ranked by: its sort key, then its canonical texts. -/
structure RankedRow where
  rank : NativeSortKeyV1 ×ₗ (List Char ×ₗ List Char)
  row : DeltaRecord

namespace NativeTopKOperator

/-- `offset` and `limit` are words of 64 bits; the limit must be positive. -/
def new (nodeId : String) (offset limit : UInt64) (descending : Bool)
    (orderKey : DeltaRecord → Except OperatorError NativeSortKeyV1) :
    Except NativeOperatorError NativeTopKOperator :=
  if limit = 0 then .error (.invalidGraph "top-k limit must be positive")
  else .ok ⟨nodeId, offset.toNat, limit.toNat, descending, orderKey, .empty, .empty⟩

variable (operator : NativeTopKOperator)

def rankRow (row : DeltaRecord) :
    Except NativeOperatorError RankedRow := do
  if row.weight.val < 0 then .error .negativeTopKMultiplicity
  else
    let key ← liftOperator (operator.orderKey row)
    return ⟨toLex (key, toLex (canonicalJson row.key, canonicalJson row.value)), row⟩

def sortRows (rows : List RankedRow) : List RankedRow :=
  if operator.descending then rows.insertionSort fun left right => right.rank ≤ left.rank
  else rows.insertionSort fun left right => left.rank ≤ right.rank

/-- A row taken with another multiplicity, or no row. -/
def takeRow (row : DeltaRecord) (take : ℕ) : Except NativeOperatorError (List DeltaRecord) :=
  if take > 0 then
    match SInt.ofInt? 64 take with
    | some weight => .ok [{ row with weight }]
    | none => .error (.delta .weightOverflow)
  else .ok []

/-- Walks the ranked rows, skipping and then taking multiplicities. -/
def selectRows : List RankedRow → (skipped remaining : ℕ) →
    Except NativeOperatorError (List DeltaRecord)
  | [], _, _ => .ok []
  | ranked :: rest, skipped, remaining => do
    let multiplicity := ranked.row.weight.val.toNat
    let skip := min skipped multiplicity
    let take := min remaining (multiplicity - skip)
    let chosen ← takeRow ranked.row take
    if remaining - take = 0 then return chosen
    else do
      let others ← selectRows rest (skipped - skip) (remaining - take)
      return chosen ++ others

def selectedOutputFrom (inputState : DeltaBatch) :
    Except NativeOperatorError DeltaBatch := do
  let net ← netRows inputState
  let ranked ← net.mapM operator.rankRow
  let selected ← selectRows (operator.sortRows ranked) operator.offset operator.limit
  return ⟨selected⟩

/-- Both states are replaced before the change is consolidated. -/
def apply (portId : String) (input : DeltaBatch) :
    NativeTopKOperator × Except NativeOperatorError DeltaBatch :=
  let prepared : Except NativeOperatorError (DeltaBatch × DeltaBatch × DeltaBatch) := do
    requirePort portId "input"
    let net ← netRows (operator.inputState.combine input)
    let nextOutput ← operator.selectedOutputFrom ⟨net⟩
    let delta ← liftDelta (operator.outputState.diff nextOutput)
    return (⟨net⟩, nextOutput, delta)
  match prepared with
  | .error error => (operator, .error error)
  | .ok (inputState, outputState, delta) =>
    ({ operator with inputState, outputState }, DeltaBatch.mk <$> netRows delta)

def checkpoint : NativeOperatorCheckpointV1 :=
  ⟨operator.nodeId, "velorix-native-top-k-v1", 1,
    .binary operator.inputState operator.outputState⟩

def restore (checkpoint : NativeOperatorCheckpointV1) :
    Except NativeOperatorError NativeTopKOperator := do
  validateCheckpointHeader checkpoint operator.nodeId "velorix-native-top-k-v1"
  let (leftState, rightState) ←
    binaryState checkpoint "top-k checkpoint requires input and output state"
  let restoredInput ← netRows leftState
  let restoredOutput ← netRows rightState
  let selected ← operator.selectedOutputFrom ⟨restoredInput⟩
  if !selected.eq ⟨restoredOutput⟩ then
    .error (.invalidCheckpoint "top-k output state does not match input state")
  else return { operator with inputState := ⟨restoredInput⟩, outputState := ⟨restoredOutput⟩ }

end NativeTopKOperator
end Velorix.Native
