import Velorix.Native.Types

/-! The native operators with two inputs. Semi and anti join keep consolidated bags of
both inputs; the binary, left and full joins are built on the keyed equi-join. -/
namespace Velorix.Native

open Json Delta Operator

variable (negative : NativeOperatorError)

def addCount (count : I64) (row : DeltaRecord) : Except NativeOperatorError I64 :=
  if row.weight.val < 0 then .error negative
  else match count.checkedAdd row.weight with
    | some count => .ok count
    | none => .error (.operator .weightOverflow)

/-- The total multiplicity of a key, where keys are compared with `==`. -/
def countForKey (state : DeltaBatch) (key : Value) :
    Except NativeOperatorError I64 := do
  let net ← netRows state
  (net.filter fun row => row.key.eq key).foldlM (addCount negative) 0

/-- A row with another value, taken with a sign. -/
def signedRow (valueOf : Value → Except OperatorError Value)
    (sign : I64) (row : DeltaRecord) : Except NativeOperatorError DeltaRecord := do
  if row.weight.val < 0 then .error negative
  else
    let value ← liftOperator (valueOf row.value)
    match row.weight.checkedMul sign with
    | some weight => return ⟨row.key, value, weight⟩
    | none => .error (.operator .weightOverflow)

/-- The rows of a key with other values, taken with a sign. -/
def signedRowsForKey
    (valueOf : Value → Except OperatorError Value) (state : DeltaBatch) (key : Value)
    (sign : I64) : Except NativeOperatorError DeltaBatch := do
  let net ← netRows state
  let rows ← (net.filter fun row => row.key.eq key).mapM (signedRow negative valueOf sign)
  return ⟨rows⟩

def minusOne : I64 := ⟨-1, SInt.minusOne_lo, SInt.minusOne_hi⟩

/-- Adds the rows of a touched key whose count leaves or reaches zero. -/
def addTransition (valueOf : Value → Except OperatorError Value)
    (before after retained : DeltaBatch) (onFirst onLast : I64) (output : DeltaBatch)
    (key : Value) : Except NativeOperatorError DeltaBatch := do
  let countBefore ← countForKey negative before key
  let countAfter ← countForKey negative after key
  if countBefore = 0 ∧ countAfter ≠ 0 then do
    let rows ← signedRowsForKey negative valueOf retained key onFirst
    return output.combine rows
  else if countBefore ≠ 0 ∧ countAfter = 0 then do
    let rows ← signedRowsForKey negative valueOf retained key onLast
    return output.combine rows
  else return output

/-- Adds the unmatched form of a row whose key has no partner. -/
def addUnmatched (valueOf : Value → Except OperatorError Value)
    (opposite : DeltaBatch) (output : DeltaBatch) (row : DeltaRecord) :
    Except NativeOperatorError DeltaBatch := do
  let count ← countForKey negative opposite row.key
  if count = 0 then do
    let value ← liftOperator (valueOf row.value)
    return output.combine ⟨[⟨row.key, value, row.weight⟩]⟩
  else return output

def hasNegative (rows : List DeltaRecord) : Bool := rows.any fun row => row.weight.val < 0

/-- `label` and `port` name the operator and the port in the error. -/
def unknownPort (label nodeId port : String) : NativeOperatorError :=
  .invalidGraph (label ++ " operator " ++ nodeId ++ " does not accept input port " ++ port)

/-- The sides of a checkpoint, of which neither may hold a negative row. -/
def nonNegativeSides (checkpoint : NativeOperatorCheckpointV1) (label : String) :
    Except NativeOperatorError (DeltaBatch × DeltaBatch) := do
  let (leftState, rightState) ←
    binaryState checkpoint (label ++ " checkpoint requires left and right state")
  let leftRows ← netRows leftState
  if hasNegative leftRows then
    .error (.invalidCheckpoint (label ++ " checkpoint contains negative multiplicity"))
  else
    let rightRows ← netRows rightState
    if hasNegative rightRows then
      .error (.invalidCheckpoint (label ++ " checkpoint contains negative multiplicity"))
    else return (leftState, rightState)

/-- What tells the semi join and the anti join apart. -/
structure ExistenceJoinKind where
  label : String
  codecId : String
  negative : NativeOperatorError
  /-- Whether a left row is kept when its key has a match, or when it has none. -/
  keepsMatched : Bool

structure ExistenceJoin where
  nodeId : String
  leftState : DeltaBatch
  rightState : DeltaBatch
  deriving DecidableEq

namespace ExistenceJoin

def new (nodeId : String) : ExistenceJoin := ⟨nodeId, .empty, .empty⟩

variable (kind : ExistenceJoinKind)

def validateNonNegative (state : DeltaBatch) : Except NativeOperatorError Unit := do
  let net ← netRows state
  if hasNegative net then .error kind.negative else .ok ()

/-- Whether a left row is passed on at this count of its key. -/
def keeps (count : I64) : Bool := (count != 0) == kind.keepsMatched

def selectRow (rightState : DeltaBatch) (row : DeltaRecord) :
    Option (Except NativeOperatorError DeltaRecord) :=
  match countForKey kind.negative rightState row.key with
  | .ok count => if keeps kind count then some (.ok row) else none
  | .error error => some (.error error)

variable (join : ExistenceJoin)

def applyLeft (input : DeltaBatch) :
    Except NativeOperatorError (DeltaBatch × ExistenceJoin) := do
  let nextLeft := join.leftState.combine input
  validateNonNegative kind nextLeft
  let net ← netRows input
  let output ← (net.filterMap (selectRow kind join.rightState)).mapM id
  let leftRows ← netRows nextLeft
  return (⟨output⟩, { join with leftState := ⟨leftRows⟩ })

/-- The right state moves before the output is consolidated. -/
def applyRight (input : DeltaBatch) : ExistenceJoin × Except NativeOperatorError DeltaBatch :=
  let nextRight := join.rightState.combine input
  let onFirst : I64 := if kind.keepsMatched then 1 else minusOne
  let onLast : I64 := if kind.keepsMatched then minusOne else 1
  let prepared : Except NativeOperatorError (DeltaBatch × DeltaBatch) := do
    validateNonNegative kind nextRight
    let output ← (touchedKeys input).foldlM (addTransition kind.negative .ok join.rightState
      nextRight join.leftState onFirst onLast) .empty
    let rightRows ← netRows nextRight
    return (output, ⟨rightRows⟩)
  match prepared with
  | .error error => (join, .error error)
  | .ok (output, rightState) => ({ join with rightState }, DeltaBatch.mk <$> netRows output)

def apply (portId : String) (input : DeltaBatch) :
    ExistenceJoin × Except NativeOperatorError DeltaBatch :=
  if portId = "left" then
    match applyLeft kind join input with
    | .ok (output, next) => (next, .ok output)
    | .error error => (join, .error error)
  else if portId = "right" then applyRight kind join input
  else (join, .error (unknownPort kind.label join.nodeId portId))

def checkpoint : NativeOperatorCheckpointV1 :=
  ⟨join.nodeId, kind.codecId, 1, .binary join.leftState join.rightState⟩

def restore (checkpoint : NativeOperatorCheckpointV1) :
    Except NativeOperatorError ExistenceJoin := do
  validateCheckpointHeader checkpoint join.nodeId kind.codecId
  let (leftState, rightState) ← nonNegativeSides checkpoint kind.label
  let leftRows ← netRows leftState
  let rightRows ← netRows rightState
  return { join with leftState := ⟨leftRows⟩, rightState := ⟨rightRows⟩ }

end ExistenceJoin

def NativeSemiJoinOperator : ExistenceJoinKind where
  label := "semi join"
  codecId := "velorix-native-semi-join-v1"
  negative := .negativeSemiJoinMultiplicity
  keepsMatched := true

def NativeAntiJoinOperator : ExistenceJoinKind where
  label := "anti join"
  codecId := "velorix-native-anti-join-v1"
  negative := .negativeAntiJoinMultiplicity
  keepsMatched := false

structure NativeBinaryJoinOperator where
  nodeId : String
  join : KeyedEquiJoin

namespace NativeBinaryJoinOperator

def apply (operator : NativeBinaryJoinOperator) (portId : String) (input : DeltaBatch) :
    Except NativeOperatorError (DeltaBatch × NativeBinaryJoinOperator) := do
  if portId = "left" then
    let (output, join) ← liftOperator (operator.join.applyLeft input)
    return (output, { operator with join })
  else if portId = "right" then
    let (output, join) ← liftOperator (operator.join.applyRight input)
    return (output, { operator with join })
  else .error (unknownPort "join" operator.nodeId portId)

def checkpoint (operator : NativeBinaryJoinOperator) : NativeOperatorCheckpointV1 :=
  ⟨operator.nodeId, "velorix-native-binary-join-v1", 1,
    .binary operator.join.leftState operator.join.rightState⟩

def restore (operator : NativeBinaryJoinOperator) (checkpoint : NativeOperatorCheckpointV1) :
    Except NativeOperatorError NativeBinaryJoinOperator := do
  validateCheckpointHeader checkpoint operator.nodeId "velorix-native-binary-join-v1"
  let (leftState, rightState) ←
    binaryState checkpoint "binary join checkpoint requires left and right state"
  let join ← liftOperator (operator.join.restoreState leftState rightState)
  return { operator with join }

end NativeBinaryJoinOperator

/-- The retained rows of both sides of a keyed join. -/
structure JoinSides where
  left : DeltaBatch
  right : DeltaBatch

def joinSides (join : KeyedEquiJoin) : JoinSides := ⟨join.leftState, join.rightState⟩

/-- What an outer join emits for a batch on a side, from the sides before and after it
and from the joined rows. -/
abbrev OuterOutput := JoinInputSide → (before after : JoinSides) → (input joined : DeltaBatch) →
  Except NativeOperatorError DeltaBatch

/-- The keyed join moves before the output is computed. -/
def applyOuter (label nodeId : String) (output : OuterOutput) (join : KeyedEquiJoin)
    (portId : String) (input : DeltaBatch) :
    KeyedEquiJoin × Except NativeOperatorError DeltaBatch :=
  if portId = "left" then
    match join.applyLeft input with
    | .error error => (join, .error (.operator error))
    | .ok (joined, next) => (next, output .left (joinSides join) (joinSides next) input joined)
  else if portId = "right" then
    match join.applyRight input with
    | .error error => (join, .error (.operator error))
    | .ok (joined, next) => (next, output .right (joinSides join) (joinSides next) input joined)
  else (join, .error (unknownPort label nodeId portId))

def checkpointOuter (nodeId codecId : String) (join : KeyedEquiJoin) : NativeOperatorCheckpointV1 :=
  ⟨nodeId, codecId, 1, .binary join.leftState join.rightState⟩

def restoreOuter (label nodeId codecId : String) (join : KeyedEquiJoin)
    (checkpoint : NativeOperatorCheckpointV1) : Except NativeOperatorError KeyedEquiJoin := do
  validateCheckpointHeader checkpoint nodeId codecId
  let (leftState, rightState) ← nonNegativeSides checkpoint label
  liftOperator (join.restoreState leftState rightState)

structure NativeLeftJoinOperator where
  nodeId : String
  join : KeyedEquiJoin
  unmatchedValue : Value → Except OperatorError Value

namespace NativeLeftJoinOperator

def new (nodeId : String) (joinValues : Value → Value → Except OperatorError Value)
    (unmatchedValue : Value → Except OperatorError Value) (instanceId : UInt64) :
    NativeLeftJoinOperator :=
  ⟨nodeId, .new joinValues instanceId, unmatchedValue⟩

/-- A left row without a match is emitted in its unmatched form; a right batch moves the
unmatched rows of the keys that gain their first match or lose their last one. -/
def output (unmatchedValue : Value → Except OperatorError Value) : OuterOutput
  | .left, before, _, input, joined => do
    let net ← netRows input
    let output ← net.foldlM
      (addUnmatched .negativeLeftJoinMultiplicity unmatchedValue before.right) joined
    DeltaBatch.mk <$> netRows output
  | .right, before, after, input, joined => do
    let output ← (touchedKeys input).foldlM (addTransition .negativeLeftJoinMultiplicity
      unmatchedValue before.right after.right after.left minusOne 1) joined
    DeltaBatch.mk <$> netRows output

def apply (operator : NativeLeftJoinOperator) (portId : String) (input : DeltaBatch) :
    NativeLeftJoinOperator × Except NativeOperatorError DeltaBatch :=
  let (join, result) := applyOuter "left join" operator.nodeId (output operator.unmatchedValue)
    operator.join portId input
  ({ operator with join }, result)

def checkpoint (operator : NativeLeftJoinOperator) : NativeOperatorCheckpointV1 :=
  checkpointOuter operator.nodeId "velorix-native-left-join-v1" operator.join

def restore (operator : NativeLeftJoinOperator) (checkpoint : NativeOperatorCheckpointV1) :
    Except NativeOperatorError NativeLeftJoinOperator := do
  let join ← restoreOuter "left join" operator.nodeId "velorix-native-left-join-v1" operator.join
    checkpoint
  return { operator with join }

end NativeLeftJoinOperator

structure NativeFullJoinOperator where
  nodeId : String
  join : KeyedEquiJoin
  unmatchedLeftValue : Value → Except OperatorError Value
  unmatchedRightValue : Value → Except OperatorError Value

namespace NativeFullJoinOperator

def new (nodeId : String) (joinValues : Value → Value → Except OperatorError Value)
    (unmatchedLeftValue unmatchedRightValue : Value → Except OperatorError Value)
    (instanceId : UInt64) : NativeFullJoinOperator :=
  ⟨nodeId, .new joinValues instanceId, unmatchedLeftValue, unmatchedRightValue⟩

/-- What one side emits: its own unmatched rows, and the unmatched rows of the opposite
side whose key gains its first match or loses its last one. -/
def sideOutput (ownValue oppositeValue : Value → Except OperatorError Value)
    (before after opposite input joined : DeltaBatch) : Except NativeOperatorError DeltaBatch := do
  let net ← netRows input
  let output ← net.foldlM (addUnmatched .negativeFullJoinMultiplicity ownValue opposite) joined
  let output ← (touchedKeys input).foldlM (addTransition .negativeFullJoinMultiplicity
    oppositeValue before after opposite minusOne 1) output
  DeltaBatch.mk <$> netRows output

def output (unmatchedLeftValue unmatchedRightValue : Value → Except OperatorError Value) :
    OuterOutput
  | .left, before, after, input, joined =>
    sideOutput unmatchedLeftValue unmatchedRightValue before.left after.left before.right input
      joined
  | .right, before, after, input, joined =>
    sideOutput unmatchedRightValue unmatchedLeftValue before.right after.right before.left input
      joined

def apply (operator : NativeFullJoinOperator) (portId : String) (input : DeltaBatch) :
    NativeFullJoinOperator × Except NativeOperatorError DeltaBatch :=
  let (join, result) := applyOuter "full join" operator.nodeId
    (output operator.unmatchedLeftValue operator.unmatchedRightValue) operator.join portId input
  ({ operator with join }, result)

def checkpoint (operator : NativeFullJoinOperator) : NativeOperatorCheckpointV1 :=
  checkpointOuter operator.nodeId "velorix-native-full-join-v1" operator.join

def restore (operator : NativeFullJoinOperator) (checkpoint : NativeOperatorCheckpointV1) :
    Except NativeOperatorError NativeFullJoinOperator := do
  let join ← restoreOuter "full join" operator.nodeId "velorix-native-full-join-v1" operator.join
    checkpoint
  return { operator with join }

end NativeFullJoinOperator
end Velorix.Native
