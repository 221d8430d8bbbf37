import Velorix.Operator.Aggregate
import Velorix.Operator.Join

/-! Errors and checkpoints shared by the native operators and their graph. -/
namespace Velorix.Native

open Json Delta Operator DecimalText

def deltaErrorMessage : DeltaError → String
  | .weightOverflow => "delta weight arithmetic overflowed"

def operatorErrorMessage : OperatorError → String
  | .delta error => deltaErrorMessage error
  | .weightOverflow => "delta weight arithmetic overflowed"
  | .nonIntegerAggregateValue => "aggregate input value must be a signed integer"
  | .nonDecimalAggregateValue => "aggregate input value must be a Decimal128 string"
  | .decimalPrecisionOverflow => "aggregate decimal value exceeds declared precision"
  | .invalidAggregateStateValue =>
    "aggregate state value must contain integer `sum` and `count` fields"

inductive NativeOperatorError
  | operator (error : OperatorError)
  | delta (error : DeltaError)
  | invalidGraph (reason : String)
  | invalidCheckpoint (reason : String)
  | nonMonotonicEpoch (current attempted : UInt64)
  | negativeTopKMultiplicity
  | negativeLeftJoinMultiplicity
  | negativeFullJoinMultiplicity
  | negativeSemiJoinMultiplicity
  | negativeAntiJoinMultiplicity
  deriving DecidableEq

def u64Text (n : UInt64) : String := String.ofList (natText n.toNat)

def NativeOperatorError.message : NativeOperatorError → String
  | .operator error => operatorErrorMessage error
  | .delta error => deltaErrorMessage error
  | .invalidGraph reason => "native operator graph is invalid: " ++ reason
  | .invalidCheckpoint reason => "native operator checkpoint is invalid: " ++ reason
  | .nonMonotonicEpoch current attempted =>
    "logical epoch must increase: current=" ++ u64Text current ++ ", attempted=" ++
      u64Text attempted
  | .negativeTopKMultiplicity => "top-k state contains a negative multiplicity"
  | .negativeLeftJoinMultiplicity => "left-join state contains a negative multiplicity"
  | .negativeFullJoinMultiplicity => "full-join state contains a negative multiplicity"
  | .negativeSemiJoinMultiplicity => "semi-join state contains a negative multiplicity"
  | .negativeAntiJoinMultiplicity => "anti-join state contains a negative multiplicity"

/-- `?` on an operator error. -/
def liftOperator {α : Type} : Except OperatorError α → Except NativeOperatorError α
  | .ok a => .ok a
  | .error e => .error (.operator e)

/-- `?` on a delta error. -/
def liftDelta {α : Type} : Except DeltaError α → Except NativeOperatorError α
  | .ok a => .ok a
  | .error e => .error (.delta e)

theorem liftOperator_eq_ok {α : Type} {x : Except OperatorError α} {a : α} :
    liftOperator x = .ok a ↔ x = .ok a := by
  cases x <;> simp [liftOperator]

theorem liftDelta_eq_ok {α : Type} {x : Except DeltaError α} {a : α} :
    liftDelta x = .ok a ↔ x = .ok a := by
  cases x <;> simp [liftDelta]

def netRows (batch : DeltaBatch) : Except NativeOperatorError (List DeltaRecord) :=
  liftDelta batch.netRows

inductive NativeOperatorStateV1
  | stateless
  | unary (state : DeltaBatch)
  | binary (leftState rightState : DeltaBatch)
  deriving DecidableEq

structure NativeOperatorCheckpointV1 where
  nodeId : String
  codecId : String
  codecVersion : UInt32
  state : NativeOperatorStateV1
  deriving DecidableEq

structure NativeOperatorGraphCheckpointV1 where
  schemaVersion : UInt32
  logicalEpoch : UInt64
  operators : List NativeOperatorCheckpointV1
  deriving DecidableEq

def statelessCheckpoint (nodeId codecId : String) : NativeOperatorCheckpointV1 :=
  ⟨nodeId, codecId, 1, .stateless⟩

variable (checkpoint : NativeOperatorCheckpointV1)

def validateCheckpointHeader (nodeId codecId : String) : Except NativeOperatorError Unit :=
  if checkpoint.nodeId ≠ nodeId ∨ checkpoint.codecId ≠ codecId ∨ checkpoint.codecVersion ≠ 1 then
    .error (.invalidCheckpoint "operator checkpoint identity or codec does not match")
  else .ok ()

def validateCheckpointIdentity
    (nodeId codecId : String) (state : NativeOperatorStateV1) :
    Except NativeOperatorError Unit := do
  validateCheckpointHeader checkpoint nodeId codecId
  if checkpoint.state ≠ state then
    .error (.invalidCheckpoint "stateless operator checkpoint contains state")
  else .ok ()

def requirePort (portId expected : String) : Except NativeOperatorError Unit :=
  if portId ≠ expected then
    .error (.invalidGraph ("expected input port " ++ expected ++ ", found " ++ portId))
  else .ok ()

/-- The state of a checkpoint with two sides. -/
def binaryState (reason : String) : Except NativeOperatorError (DeltaBatch × DeltaBatch) :=
  match checkpoint.state with
  | .binary left right => .ok (left, right)
  | _ => .error (.invalidCheckpoint reason)

/-- The keys of a batch, once each, in the order of their canonical texts. -/
def touchedKeys (input : DeltaBatch) : List Value :=
  (SortedMap.ofList (input.records.map fun row => (canonicalJson row.key, row.key))).values

@[simp]
theorem validateCheckpointHeader_self (n codecId : String) (s : NativeOperatorStateV1) :
    validateCheckpointHeader ⟨n, codecId, 1, s⟩ n codecId = .ok () := by
  simp [validateCheckpointHeader]

end Velorix.Native
