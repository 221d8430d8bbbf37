import Velorix.Native.Graph
import Velorix.Native.Restore
import Velorix.Operator.AggregateEpoch

/-! What the calls of an operator keep: its definition, the form of its state, and that
its own checkpoint can be restored into it after any further calls. -/
namespace Velorix.Native

open Json Delta Operator Result KeyedSumCountAggregate

variable {i o : DeltaBatch} {portId : String} {operator : NativeOperator}

def freshJoin (join : KeyedEquiJoin) : KeyedEquiJoin := .new join.joinValues join.instanceId

namespace NativeOperator

/-- The operator as it was constructed: the same definition without state. -/
def reset : NativeOperator → NativeOperator
  | filter operator => filter operator
  | project operator => project operator
  | aggregate operator =>
    aggregate (.new operator.nodeId operator.valueMode operator.trackExtrema)
  | binaryJoin operator => binaryJoin { operator with join := freshJoin operator.join }
  | semiJoin operator => semiJoin (.new operator.nodeId)
  | antiJoin operator => antiJoin (.new operator.nodeId)
  | leftJoin operator => leftJoin { operator with join := freshJoin operator.join }
  | fullJoin operator => fullJoin { operator with join := freshJoin operator.join }
  | topK operator => topK { operator with inputState := .empty, outputState := .empty }

/-- The operators whose checkpoints hold consolidated, non-negative state only. -/
def isCore : NativeOperator → Bool
  | filter _ | project _ | aggregate _ | binaryJoin _ | semiJoin _ | antiJoin _ => true
  | leftJoin _ | fullJoin _ | topK _ => false

/-- The revision of the keyed join inside, if there is one. -/
def revision : NativeOperator → ℕ
  | binaryJoin operator => operator.join.revision.toNat
  | leftJoin operator => operator.join.revision.toNat
  | fullJoin operator => operator.join.revision.toNat
  | _ => 0

@[simp]
theorem nodeId_reset (operator : NativeOperator) : operator.reset.nodeId = operator.nodeId := by
  cases operator <;> rfl

@[simp]
theorem inputPorts_reset (operator : NativeOperator) :
    operator.reset.inputPorts = operator.inputPorts := by
  cases operator <;> rfl

@[simp]
theorem isCore_reset (operator : NativeOperator) : operator.reset.isCore = operator.isCore := by
  cases operator <;> rfl

theorem nodeId_of_reset {a b : NativeOperator} (h : a.reset = b.reset) : a.nodeId = b.nodeId := by
  rw [← nodeId_reset a, h, nodeId_reset]

theorem inputPorts_of_reset {a b : NativeOperator} (h : a.reset = b.reset) :
    a.inputPorts = b.inputPorts := by
  rw [← inputPorts_reset a, h, inputPorts_reset]

end NativeOperator

section Calls

variable {join next : KeyedEquiJoin} {c : NativeOperatorCheckpointV1}

theorem KeyedEquiJoin.applySide_next {side : JoinInputSide}
    (h : join.applySide side i = .ok (o, next)) :
    next.joinValues = join.joinValues ∧ next.instanceId = join.instanceId ∧
      next.revision = join.revision + 1 := by
  obtain ⟨s, -, -, rfl⟩ := KeyedEquiJoin.applySide_ok h
  cases side <;> exact ⟨rfl, rfl, rfl⟩

theorem revision_succ_le (revision : UInt64) : (revision + 1).toNat ≤ revision.toNat + 1 := by
  rw [UInt64.toNat_add]
  exact Nat.mod_le ..

def JoinKept (join next : KeyedEquiJoin) : Prop :=
  next.joinValues = join.joinValues ∧ next.instanceId = join.instanceId ∧
    next.revision.toNat ≤ join.revision.toNat + 1

theorem joinKept_refl (join : KeyedEquiJoin) : JoinKept join join := ⟨rfl, rfl, by omega⟩

theorem joinKept_of_applySide {side : JoinInputSide} (h : join.applySide side i = .ok (o, next)) :
    JoinKept join next := by
  obtain ⟨hv, hid, hrev⟩ := KeyedEquiJoin.applySide_next h
  exact ⟨hv, hid, by rw [hrev]; exact revision_succ_le _⟩

theorem applyOuter_kept (label n : String) (o : OuterOutput) (join : KeyedEquiJoin)
    (portId : String) (i : DeltaBatch) : JoinKept join (applyOuter label n o join portId i).1 := by
  show JoinKept join (stepOuter label n o join (portId, i)).1
  rcases stepOuter_eq label n o (portId, i) with ⟨side, hs⟩ | ⟨error, he⟩
  · rw [hs]
    rcases h : join.applySide side i with e | ⟨joined, next⟩
    · exact joinKept_refl join
    · exact joinKept_of_applySide h
  · rw [he]
    exact joinKept_refl join

theorem NativeBinaryJoinOperator.apply_ok {operator next : NativeBinaryJoinOperator}
    (h : operator.apply portId i = .ok (o, next)) :
    ∃ side join, operator.join.applySide side i = .ok (o, join) ∧ next = { operator with join } ∧
      portId = (match side with | .left => "left" | .right => "right") := by
  unfold apply at h
  split_ifs at h with hl hr
  · obtain ⟨⟨o', join⟩, hj, h⟩ := bind_eq_ok.mp h
    cases h
    exact ⟨.left, join, liftOperator_eq_ok.mp hj, rfl, hl⟩
  · obtain ⟨⟨o', join⟩, hj, h⟩ := bind_eq_ok.mp h
    cases h
    exact ⟨.right, join, liftOperator_eq_ok.mp hj, rfl, hr⟩

theorem requirePort_ok {expected : String} (h : requirePort portId expected = .ok ()) :
    portId = expected := by
  unfold requirePort at h
  split_ifs at h with hne
  exact not_not.mp hne

theorem stepped_ok {σ : Type} {operator : σ} {wrap : σ → NativeOperator} {next : NativeOperator}
    {result : Except NativeOperatorError (DeltaBatch × σ)}
    (h : stepped operator wrap result = (next, .ok o)) :
    ∃ moved, result = .ok (o, moved) ∧ next = wrap moved := by
  rcases result with error | ⟨o', moved⟩ <;> cases h
  exact ⟨moved, rfl, rfl⟩

theorem NativeAggregateOperator.apply_ok {operator next : NativeAggregateOperator}
    (h : operator.apply portId i = .ok (o, next)) :
    portId = "input" ∧ ∃ p, operator.aggregate.prepare i = .ok p ∧ o = p.output ∧
      next = { operator with aggregate := operator.aggregate.commit p } := by
  obtain ⟨_, hport, h⟩ := bind_eq_ok.mp h
  obtain ⟨⟨o', aggregate⟩, ha, h⟩ := bind_eq_ok.mp h
  cases h
  obtain ⟨p, hp, ha⟩ :=
    bind_eq_ok.mp (liftOperator_eq_ok.mp ha)
  cases ha
  exact ⟨requirePort_ok hport, p, hp, rfl, rfl⟩

theorem ExistenceJoin.nodeId_apply (kind : ExistenceJoinKind) (join : ExistenceJoin)
    (portId : String) (i : DeltaBatch) : (join.apply kind portId i).1.nodeId = join.nodeId := by
  unfold apply
  split_ifs
  · split
    · rename_i o next h
      simp only [applyLeft, bind_eq_ok] at h
      obtain ⟨_, -, _, -, _, -, _, -, h⟩ := h
      cases h
      rfl
    · rfl
  · unfold applyRight
    simp only
    split <;> rfl
  · rfl

theorem NativeTopKOperator.apply_kept (operator : NativeTopKOperator) (portId : String)
    (i : DeltaBatch) : ∃ inputState outputState,
      (operator.apply portId i).1 = { operator with inputState, outputState } := by
  unfold apply
  simp only
  split
  · exact ⟨operator.inputState, operator.outputState, rfl⟩
  · exact ⟨_, _, rfl⟩

/-- A call keeps the definition of an operator, whether it succeeds or not, and moves the
revision by at most one. -/
theorem NativeOperator.apply_kept (operator : NativeOperator) (portId : String)
    (i : DeltaBatch) : (operator.apply portId i).1.reset = operator.reset ∧
      (operator.apply portId i).1.revision ≤ operator.revision + 1 := by
  cases operator with
  | filter operator | project operator => exact ⟨rfl, Nat.zero_le _⟩
  | aggregate operator =>
    rw [apply]
    rcases h : operator.apply portId i with e | ⟨o, next⟩
    · exact ⟨rfl, Nat.zero_le _⟩
    · obtain ⟨-, p, -, -, rfl⟩ := NativeAggregateOperator.apply_ok h
      exact ⟨rfl, Nat.zero_le _⟩
  | binaryJoin operator =>
    rw [apply]
    rcases h : operator.apply portId i with e | ⟨o, next⟩
    · exact ⟨rfl, Nat.le_succ _⟩
    · obtain ⟨side, join, hj, rfl, -⟩ := NativeBinaryJoinOperator.apply_ok h
      obtain ⟨hv, hid, hrev⟩ := joinKept_of_applySide hj
      exact ⟨by simp only [stepped, reset, freshJoin, hv, hid], hrev⟩
  | semiJoin operator | antiJoin operator =>
    exact ⟨by simp only [apply, reset, ExistenceJoin.nodeId_apply], Nat.zero_le _⟩
  | leftJoin operator =>
    obtain ⟨hv, hid, hrev⟩ := applyOuter_kept "left join" operator.nodeId
      (NativeLeftJoinOperator.output operator.unmatchedValue) operator.join portId i
    exact ⟨by simp only [apply, NativeLeftJoinOperator.apply, reset, freshJoin, hv, hid], hrev⟩
  | fullJoin operator =>
    obtain ⟨hv, hid, hrev⟩ := applyOuter_kept "full join" operator.nodeId
      (NativeFullJoinOperator.output operator.unmatchedLeftValue operator.unmatchedRightValue)
      operator.join portId i
    exact ⟨by simp only [apply, NativeFullJoinOperator.apply, reset, freshJoin, hv, hid], hrev⟩
  | topK operator =>
    obtain ⟨inputState, outputState, h⟩ := NativeTopKOperator.apply_kept operator portId i
    exact ⟨by simp only [apply, reset, h], Nat.zero_le _⟩

theorem restoreState_kept {left right : DeltaBatch} (h : join.restoreState left right = .ok next) :
    JoinKept join next := by
  simp only [KeyedEquiJoin.restoreState, bind_eq_ok] at h
  obtain ⟨restoredLeft, -, restoredRight, -, h⟩ := h
  split_ifs at h
  cases h
  exact ⟨rfl, rfl, revision_succ_le _⟩

theorem restoreOuter_kept {label n codecId : String}
    (h : restoreOuter label n codecId join c = .ok next) : JoinKept join next := by
  simp only [restoreOuter, bind_eq_ok] at h
  obtain ⟨_, -, sides, -, h⟩ := h
  exact restoreState_kept (liftOperator_eq_ok.mp h)

private theorem map_eq_ok {α β : Type} {f : α → β} {x : Except NativeOperatorError α} {b : β}
    (h : f <$> x = .ok b) : ∃ a, x = .ok a ∧ b = f a := by
  cases x with
  | error e => cases h
  | ok a => exact ⟨a, rfl, (Except.ok.inj h).symm⟩

/-- Restoring, from whatever checkpoint, keeps the definition of an operator as well. -/
theorem NativeOperator.restore_kept {next : NativeOperator} (h : operator.restore c = .ok next) :
    next.reset = operator.reset ∧ next.revision ≤ operator.revision + 1 := by
  cases operator with
  | filter operator | project operator =>
    obtain ⟨restored, hr, rfl⟩ := map_eq_ok h
    obtain ⟨_, -, hr⟩ := bind_eq_ok.mp hr
    cases hr
    exact ⟨rfl, Nat.zero_le _⟩
  | aggregate operator =>
    obtain ⟨restored, hr, rfl⟩ := map_eq_ok h
    obtain ⟨_, -, hr⟩ := bind_eq_ok.mp hr
    split at hr
    · obtain ⟨s, -, hr⟩ := bind_eq_ok.mp hr
      cases hr
      exact ⟨rfl, Nat.zero_le _⟩
    · cases hr
  | binaryJoin operator =>
    obtain ⟨restored, hr, rfl⟩ := map_eq_ok h
    simp only [NativeBinaryJoinOperator.restore, bind_eq_ok] at hr
    obtain ⟨_, -, sides, -, join, hj, hr⟩ := hr
    cases hr
    obtain ⟨hv, hid, hrev⟩ := restoreState_kept (liftOperator_eq_ok.mp hj)
    exact ⟨by simp only [reset, freshJoin, hv, hid], hrev⟩
  | semiJoin operator | antiJoin operator =>
    obtain ⟨restored, hr, rfl⟩ := map_eq_ok h
    simp only [ExistenceJoin.restore, bind_eq_ok] at hr
    obtain ⟨_, -, sides, -, _, -, _, -, hr⟩ := hr
    cases hr
    exact ⟨rfl, Nat.zero_le _⟩
  | leftJoin operator | fullJoin operator =>
    obtain ⟨restored, hr, rfl⟩ := map_eq_ok h
    obtain ⟨join, hj, hr⟩ := bind_eq_ok.mp hr
    cases hr
    obtain ⟨hv, hid, hrev⟩ := restoreOuter_kept hj
    exact ⟨by simp only [reset, freshJoin, hv, hid], hrev⟩
  | topK operator =>
    obtain ⟨restored, hr, rfl⟩ := map_eq_ok h
    simp only [NativeTopKOperator.restore, bind_eq_ok] at hr
    obtain ⟨_, -, sides, -, _, -, _, -, _, -, hr⟩ := hr
    split_ifs at hr
    cases hr
    exact ⟨rfl, Nat.zero_le _⟩

end Calls

section Soundness

variable {kind : ExistenceJoinKind}

/-- Consolidated rows without a negative weight. -/
structure NonNegative (batch : DeltaBatch) : Prop where
  consolidated : DeltaBatch.Consolidated batch.records
  nonNegative : hasNegative batch.records = false

theorem nonNegative_empty : NonNegative .empty := ⟨DeltaBatch.consolidated_nil, rfl⟩

theorem NonNegative.netRows {b : DeltaBatch} (h : NonNegative b) :
    netRows b = .ok b.records := netRows_of_consolidated h.consolidated

theorem validateNonNegative_ok {b : DeltaBatch} {rows : List DeltaRecord}
    (h : ExistenceJoin.validateNonNegative kind b = .ok ()) (hrows : netRows b = .ok rows) :
    NonNegative ⟨rows⟩ := by
  refine ⟨DeltaBatch.consolidated_netRows (netRows_eq_ok.mp hrows), ?_⟩
  unfold ExistenceJoin.validateNonNegative at h
  rw [hrows, ok_bind] at h
  split_ifs at h with hn
  simpa using hn

namespace ExistenceJoin

theorem applyLeft_ok {join next : ExistenceJoin} (h : applyLeft kind join i = .ok (o, next)) :
    ∃ net leftRows, netRows i = .ok net ∧
      netRows (join.leftState.combine i) = .ok leftRows ∧ NonNegative ⟨leftRows⟩ ∧
      (net.filterMap (selectRow kind join.rightState)).mapM id = .ok o.records ∧
      next = { join with leftState := ⟨leftRows⟩ } := by
  simp only [applyLeft, bind_eq_ok] at h
  obtain ⟨_, hv, net, hn, rows, hrows, leftRows, hl, h⟩ := h
  cases h
  exact ⟨net, leftRows, hn, hl, validateNonNegative_ok hv hl, hrows, rfl⟩

theorem applyRight_ok {join next : ExistenceJoin} (h : applyRight kind join i = (next, .ok o)) :
    ∃ rightRows changes, netRows (join.rightState.combine i) = .ok rightRows ∧
      NonNegative ⟨rightRows⟩ ∧
      (touchedKeys i).foldlM (addTransition kind.negative .ok join.rightState
        (join.rightState.combine i) join.leftState (if kind.keepsMatched then 1 else minusOne)
        (if kind.keepsMatched then minusOne else 1)) .empty = .ok changes ∧
      netRows changes = .ok o.records ∧ next = { join with rightState := ⟨rightRows⟩ } := by
  unfold applyRight at h
  simp only at h
  split at h
  · cases h
  · rename_i changes rightState hp
    simp only [bind_eq_ok] at hp
    obtain ⟨_, hv, changes', hc, rightRows, hr, hp⟩ := hp
    cases hp
    simp only [Prod.mk.injEq] at h
    obtain ⟨rfl, ho⟩ := h
    refine ⟨rightRows, changes, hr, validateNonNegative_ok hv hr, hc, ?_, rfl⟩
    rcases hrows : netRows changes with e | rows
    · rw [hrows] at ho
      cases ho
    · rw [hrows] at ho
      cases ho
      rfl

theorem apply_ok {join next : ExistenceJoin} (h : join.apply kind portId i = (next, .ok o)) :
    portId = "left" ∧ applyLeft kind join i = .ok (o, next) ∨
      portId = "right" ∧ applyRight kind join i = (next, .ok o) := by
  unfold ExistenceJoin.apply at h
  split_ifs at h with hl hr
  · rcases ha : applyLeft kind join i with error | moved <;> rw [ha] at h <;> cases h
    exact .inl ⟨hl, rfl⟩
  · exact .inr ⟨hr, h⟩
  · cases h

/-- Both retained bags are consolidated and non-negative. -/
structure Sound (join : ExistenceJoin) : Prop where
  left : NonNegative join.leftState
  right : NonNegative join.rightState

theorem Sound.apply {join next : ExistenceJoin} (h : Sound join)
    (hc : join.apply kind portId i = (next, .ok o)) : Sound next := by
  rcases apply_ok hc with ⟨-, ha⟩ | ⟨-, ha⟩
  · obtain ⟨_, leftRows, -, -, hl, -, rfl⟩ := applyLeft_ok ha
    exact ⟨hl, h.right⟩
  · obtain ⟨rightRows, _, -, hr, -, -, rfl⟩ := applyRight_ok ha
    exact ⟨h.left, hr⟩

theorem Sound.restore {join other : ExistenceJoin} (h : Sound join)
    (hn : other.nodeId = join.nodeId) : other.restore kind (join.checkpoint kind) = .ok join := by
  simp only [ExistenceJoin.restore, ExistenceJoin.checkpoint, hn,
    validateCheckpointHeader_self, ok_bind, nonNegativeSides, binaryState, h.left.netRows,
    h.right.netRows, h.left.nonNegative, h.right.nonNegative, Bool.false_eq_true, if_false,
    pure_eq_ok]

end ExistenceJoin

namespace NativeOperator

/-- The form of the state that every successful call keeps. -/
def Sound : NativeOperator → Prop
  | aggregate operator => operator.aggregate.Valid ∧
      operator.aggregate.valueMode = operator.valueMode ∧
      operator.aggregate.trackExtrema = operator.trackExtrema
  | semiJoin operator => operator.Sound
  | antiJoin operator => operator.Sound
  | _ => True

/-- No decimal sum is the least `i128`. -/
def Readable : NativeOperator → Prop
  | aggregate operator => ∀ text entry, operator.aggregate.state.find? text = some entry →
      operator.valueMode.Readable entry.sum
  | _ => True

theorem sound_of_fresh (h : operator.reset = operator) : operator.Sound := by
  cases operator with
  | aggregate operator =>
    rw [← h]
    exact ⟨valid_empty _ _, rfl, rfl⟩
  | semiJoin operator | antiJoin operator =>
    rw [← h]
    exact ⟨nonNegative_empty, nonNegative_empty⟩
  | _ => trivial

theorem Sound.apply {next : NativeOperator} (h : operator.Sound)
    (hc : operator.apply portId i = (next, .ok o)) : next.Sound := by
  cases operator with
  | aggregate operator =>
    obtain ⟨_, ha, rfl⟩ := stepped_ok hc
    obtain ⟨-, p, hp, -, rfl⟩ := NativeAggregateOperator.apply_ok ha
    exact ⟨commit_valid h.1 hp, h.2.1, h.2.2⟩
  | semiJoin operator | antiJoin operator =>
    simp only [NativeOperator.apply, Prod.mk.injEq] at hc
    obtain ⟨rfl, ho⟩ := hc
    exact ExistenceJoin.Sound.apply h (Prod.ext rfl ho)
  | binaryJoin operator =>
    obtain ⟨_, -, rfl⟩ := stepped_ok hc
    trivial
  | _ =>
    simp only [NativeOperator.apply, Prod.mk.injEq] at hc
    obtain ⟨rfl, -⟩ := hc
    trivial

private theorem restore_aggregate {operator later : NativeAggregateOperator}
    (hsound : (aggregate operator).Sound) (hr : (aggregate operator).Readable)
    (hs : (aggregate later).reset = (aggregate operator).reset) :
    ∃ restored, (aggregate later).restore (aggregate operator).checkpoint = .ok restored ∧
      restored.checkpoint = (aggregate operator).checkpoint ∧
      restored.reset = (aggregate operator).reset := by
  obtain ⟨hv, hm, ht⟩ := hsound
  simp only [reset, aggregate.injEq, NativeAggregateOperator.new,
    NativeAggregateOperator.mk.injEq] at hs
  obtain ⟨hn, -, hm', ht'⟩ := hs
  have hstate := fromState_stateBatch hv
    (fun text e hf => hm ▸ hr text e hf)
  rw [hm, ht] at hstate
  refine ⟨aggregate { later with aggregate := operator.aggregate }, ?_, ?_, ?_⟩
  · simp [NativeOperator.restore, NativeOperator.checkpoint, NativeAggregateOperator.restore,
      NativeAggregateOperator.checkpoint, hn, hm', ht', validateCheckpointHeader_self,
      hstate, liftOperator]
  · simp [NativeOperator.checkpoint, NativeAggregateOperator.checkpoint, hn]
  · simp [reset, hn, hm', ht']

private theorem restore_binaryJoin {operator later : NativeBinaryJoinOperator}
    (hs : (binaryJoin later).reset = (binaryJoin operator).reset)
    (hrev : (binaryJoin later).revision < 2 ^ 64 - 1) :
    ∃ restored, (binaryJoin later).restore (binaryJoin operator).checkpoint = .ok restored ∧
      restored.checkpoint = (binaryJoin operator).checkpoint ∧
      restored.reset = (binaryJoin operator).reset := by
  simp only [reset, binaryJoin.injEq, NativeBinaryJoinOperator.mk.injEq, freshJoin,
    KeyedEquiJoin.new, KeyedEquiJoin.mk.injEq] at hs
  obtain ⟨hn, -, -, hv, hid, -⟩ := hs
  have hf : later.join.revision ≠ UInt64.ofNat (2 ^ 64 - 1) := by
    intro hm
    rw [revision, hm] at hrev
    exact absurd hrev (by decide)
  have hj := KeyedEquiJoin.restoreState_batches later.join operator.join hf
  refine ⟨binaryJoin { later with join := { later.join with
    left := operator.join.left, right := operator.join.right,
    revision := later.join.revision + 1 } }, ?_, ?_, ?_⟩
  · simp [NativeOperator.restore, NativeOperator.checkpoint, hn, hj,
      NativeBinaryJoinOperator.restore, NativeBinaryJoinOperator.checkpoint, binaryState,
      validateCheckpointHeader_self, liftOperator]
  · simp [NativeOperator.checkpoint, NativeBinaryJoinOperator.checkpoint, hn,
      KeyedEquiJoin.leftState, KeyedEquiJoin.rightState]
  · simp [reset, freshJoin, hn, hv, hid]

/-- The checkpoint of a sound operator restores it into any later stage of itself. -/
theorem restore_checkpoint {later : NativeOperator} (hsound : operator.Sound)
    (hc : operator.isCore = true) (hr : operator.Readable)
    (hs : later.reset = operator.reset) (hrev : later.revision < 2 ^ 64 - 1) :
    ∃ restored, later.restore operator.checkpoint = .ok restored ∧
      restored.checkpoint = operator.checkpoint ∧ restored.reset = operator.reset := by
  cases operator with
  | filter operator | project operator =>
    cases later <;> cases hs
    exact ⟨_, by simp only [NativeOperator.restore, NativeOperator.checkpoint,
      NativeFilterOperator.restore, NativeFilterOperator.checkpoint,
      NativeProjectOperator.restore, NativeProjectOperator.checkpoint, statelessCheckpoint,
      validateCheckpointIdentity, validateCheckpointHeader_self]; rfl, rfl, rfl⟩
  | aggregate operator =>
    cases later with
    | aggregate later => exact restore_aggregate hsound hr hs
    | _ => cases hs
  | binaryJoin operator =>
    cases later with
    | binaryJoin later => exact restore_binaryJoin hs hrev
    | _ => cases hs
  | semiJoin operator | antiJoin operator =>
    have hn := nodeId_of_reset hs
    cases later <;> first
    | cases hs
    | refine ⟨_, ?_, rfl, rfl⟩
      simp only [NativeOperator.restore, NativeOperator.checkpoint,
        ExistenceJoin.Sound.restore hsound hn]
      rfl
  | _ => cases hc

end NativeOperator
end Soundness
end Velorix.Native
