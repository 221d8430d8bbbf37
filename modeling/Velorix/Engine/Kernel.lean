import Velorix.Native.Types

/-! The keyed aggregate kernel: epochs are prepared as tokens and committed later, or
pushed in one go. -/
namespace Velorix.Engine

open Delta Operator

structure EngineCheckpoint where
  logicalEpoch : UInt64
  state : DeltaBatch
  deriving DecidableEq

inductive EngineError
  | operator (error : OperatorError)
  | nonMonotonicLogicalEpoch (current attempted : UInt64)
  | preparedEpochWrongKernel
  | preparedEpochStale (current preparedBase : UInt64)
  deriving DecidableEq

/-- Instance ids come from one counter that never repeats. -/
structure KeyedAggregateKernel where
  logicalEpoch : UInt64
  aggregate : KeyedSumCountAggregate
  instanceId : ℕ

structure PreparedKeyedAggregateEpoch where
  logicalEpoch : UInt64
  baseEpoch : UInt64
  kernelInstanceId : ℕ
  changes : PreparedAggregateChanges

namespace KeyedAggregateKernel

def withAggregateValueModeAndExtrema (valueMode : AggregateValueMode) (trackExtrema : Bool)
    (instanceId : ℕ) : KeyedAggregateKernel :=
  ⟨0, .withValueModeAndExtrema valueMode trackExtrema, instanceId⟩

def fromCheckpointWithAggregateValueModeAndExtrema (checkpoint : EngineCheckpoint)
    (valueMode : AggregateValueMode) (trackExtrema : Bool) (instanceId : ℕ) :
    Except EngineError KeyedAggregateKernel :=
  match KeyedSumCountAggregate.fromStateWithValueModeAndExtrema checkpoint.state valueMode
      trackExtrema with
  | .ok aggregate => .ok ⟨checkpoint.logicalEpoch, aggregate, instanceId⟩
  | .error error => .error (.operator error)

variable (kernel : KeyedAggregateKernel)

def clone (instanceId : ℕ) : KeyedAggregateKernel :=
  { kernel with instanceId }

def prepareEpoch (logicalEpoch : UInt64)
    (signedInputChanges : DeltaBatch) : Except EngineError PreparedKeyedAggregateEpoch :=
  if logicalEpoch ≤ kernel.logicalEpoch then
    .error (.nonMonotonicLogicalEpoch kernel.logicalEpoch logicalEpoch)
  else match kernel.aggregate.prepare signedInputChanges with
    | .ok changes => .ok ⟨logicalEpoch, kernel.logicalEpoch, kernel.instanceId, changes⟩
    | .error error => .error (.operator error)

def validatePreparedEpoch (prepared : PreparedKeyedAggregateEpoch) : Except EngineError Unit :=
  if prepared.kernelInstanceId ≠ kernel.instanceId then .error .preparedEpochWrongKernel
  else if prepared.baseEpoch ≠ kernel.logicalEpoch then
    .error (.preparedEpochStale kernel.logicalEpoch prepared.baseEpoch)
  else .ok ()

/-- The kernel after the call, with the result. -/
def commitPreparedEpoch (prepared : PreparedKeyedAggregateEpoch) :
    KeyedAggregateKernel × Except EngineError DeltaBatch :=
  match kernel.validatePreparedEpoch prepared with
  | .error error => (kernel, .error error)
  | .ok () => ({ kernel with
      aggregate := kernel.aggregate.commit prepared.changes
      logicalEpoch := prepared.logicalEpoch }, .ok prepared.changes.output)

def pushChanges (logicalEpoch : UInt64)
    (signedInputChanges : DeltaBatch) : KeyedAggregateKernel × Except EngineError DeltaBatch :=
  match kernel.prepareEpoch logicalEpoch signedInputChanges with
  | .error error => (kernel, .error error)
  | .ok prepared => kernel.commitPreparedEpoch prepared

def materializedState : DeltaBatch := kernel.aggregate.stateBatch

theorem fromCheckpoint_ok {c : EngineCheckpoint} {valueMode : AggregateValueMode}
    {track : Bool} {instanceId : ℕ} {kernel : KeyedAggregateKernel}
    (h : fromCheckpointWithAggregateValueModeAndExtrema c valueMode track
      instanceId = .ok kernel) :
    kernel.instanceId = instanceId ∧
      KeyedSumCountAggregate.fromStateWithValueModeAndExtrema c.state valueMode
        track = .ok kernel.aggregate := by
  unfold fromCheckpointWithAggregateValueModeAndExtrema at h
  split at h
  · rename_i a ha
    cases h
    exact ⟨rfl, ha⟩
  · cases h

theorem prepareEpoch_ok {kernel : KeyedAggregateKernel} {e : UInt64}
    {i : DeltaBatch} {p : PreparedKeyedAggregateEpoch} (h : kernel.prepareEpoch e i = .ok p) :
    kernel.logicalEpoch < e ∧ kernel.aggregate.prepare i = .ok p.changes ∧
      p = ⟨e, kernel.logicalEpoch, kernel.instanceId, p.changes⟩ := by
  unfold prepareEpoch at h
  split_ifs at h with hle
  split at h
  · rename_i changes hc
    cases h
    exact ⟨UInt64.not_le.mp hle, hc, rfl⟩
  · cases h

theorem commitPreparedEpoch_cases (p : PreparedKeyedAggregateEpoch) :
    ((p.kernelInstanceId = kernel.instanceId ∧ p.baseEpoch = kernel.logicalEpoch) ∧
      kernel.commitPreparedEpoch p =
        (⟨p.logicalEpoch, kernel.aggregate.commit p.changes, kernel.instanceId⟩,
          .ok p.changes.output)) ∨ (¬ (p.kernelInstanceId = kernel.instanceId ∧
        p.baseEpoch = kernel.logicalEpoch) ∧
      ∃ error, kernel.commitPreparedEpoch p = (kernel, .error error)) := by
  unfold commitPreparedEpoch validatePreparedEpoch
  by_cases hid : p.kernelInstanceId = kernel.instanceId
  · by_cases hb : p.baseEpoch = kernel.logicalEpoch
    · left
      simp only [hid, hb, ne_eq, not_true_eq_false, if_false]
      exact ⟨⟨trivial, trivial⟩, trivial⟩
    · right
      simp only [hid, hb, ne_eq, not_true_eq_false, if_false, not_false_eq_true, if_true]
      exact ⟨fun h => h.2, _, rfl⟩
  · right
    simp only [hid, ne_eq, not_false_eq_true, if_true]
    exact ⟨fun h => h.1, _, rfl⟩

theorem pushChanges_cases (e : UInt64) (i : DeltaBatch) :
    (∃ changes, kernel.logicalEpoch < e ∧ kernel.aggregate.prepare i = .ok changes ∧
      kernel.pushChanges e i = (⟨e, kernel.aggregate.commit changes, kernel.instanceId⟩,
          .ok changes.output)) ∨ ∃ error, kernel.pushChanges e i = (kernel, .error error) := by
  unfold pushChanges
  rcases hprep : kernel.prepareEpoch e i with error | p
  · exact .inr ⟨error, rfl⟩
  · left
    obtain ⟨hlt, hc, hp⟩ := prepareEpoch_ok hprep
    refine ⟨p.changes, hlt, hc, ?_⟩
    rw [hp]
    rcases commitPreparedEpoch_cases kernel
      ⟨e, kernel.logicalEpoch, kernel.instanceId, p.changes⟩ with
      ⟨-, hcommit⟩ | ⟨hn, -⟩
    · exact hcommit
    · exact absurd ⟨rfl, rfl⟩ hn

end KeyedAggregateKernel
end Velorix.Engine
