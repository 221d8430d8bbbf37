import Velorix.Delta.Consolidated
import Velorix.Foundation.Machine
import Velorix.Native.Joins
import Velorix.Native.Unary

/-! Restoring the checkpoint of an operator into a fresh operator of the same definition.
Top-k accepts its own checkpoint only when the selected rows happen to stand in the order
of their encodings; the outer joins accept theirs only when no sum is negative. -/
namespace Velorix.Native

open Json Delta Operator Result DeltaBatch Machine

variable {rows : List DeltaRecord}

theorem netRows_eq_ok {b : DeltaBatch} :
    netRows b = .ok rows ↔ b.netRows = .ok rows := liftDelta_eq_ok

theorem netRows_of_consolidated (h : DeltaBatch.Consolidated rows) :
    netRows ⟨rows⟩ = .ok rows := netRows_eq_ok.mpr h.netRows

namespace NativeTopKOperator

variable {op : NativeTopKOperator}

def step (operator : NativeTopKOperator) (input : String × DeltaBatch) :
    NativeTopKOperator × Except NativeOperatorError DeltaBatch :=
  operator.apply input.1 input.2

def withStates (operator : NativeTopKOperator) (inputState outputState : DeltaBatch) :
    NativeTopKOperator := { operator with inputState, outputState }

theorem takeRow_positive {row : DeltaRecord} {take : ℕ} (h : takeRow row take = .ok rows) :
    ∀ r ∈ rows, r.weight.val ≠ 0 := by
  unfold takeRow at h
  split_ifs at h with ht
  · split at h
    · rename_i weight hw
      cases h
      have hv := SInt.ofInt?_eq_some.mp hw
      simp only [List.mem_singleton, forall_eq]
      omega
    · cases h
  · cases h
    simp

theorem selectRows_positive {ranked : List RankedRow} {skipped remaining : ℕ}
    (h : selectRows ranked skipped remaining = .ok rows) : ∀ r ∈ rows, r.weight.val ≠ 0 := by
  induction ranked generalizing skipped remaining rows with
  | nil =>
    cases h
    simp
  | cons row rest ih =>
    simp only [selectRows, bind_eq_ok] at h
    obtain ⟨chosen, hc, h⟩ := h
    split_ifs at h
    · cases h
      exact takeRow_positive hc
    · obtain ⟨others, ho, h⟩ := bind_eq_ok.mp h
      cases h
      intro r hr
      rcases List.mem_append.mp hr with hr | hr
      · exact takeRow_positive hc r hr
      · exact ih ho r hr

theorem selectedOutputFrom_positive {i output : DeltaBatch}
    (h : op.selectedOutputFrom i = .ok output) : ∀ r ∈ output.records, r.weight.val ≠ 0 := by
  obtain ⟨net, -, h⟩ := bind_eq_ok.mp h
  obtain ⟨ranked, -, h⟩ := bind_eq_ok.mp h
  obtain ⟨selected, hs, h⟩ := bind_eq_ok.mp h
  cases h
  exact selectRows_positive hs

theorem step_ok {next : NativeTopKOperator} {i : String × DeltaBatch} {output : DeltaBatch}
    (h : op.step i = (next, .ok output)) :
    ∃ inputState outputState, next = op.withStates inputState outputState ∧
      DeltaBatch.Consolidated inputState.records ∧
      op.selectedOutputFrom inputState = .ok outputState := by
  unfold step apply at h
  simp only at h
  split at h
  · cases h
  · rename_i inputState outputState d hp
    obtain ⟨_, -, hp⟩ := bind_eq_ok.mp hp
    obtain ⟨net, hn, hp⟩ := bind_eq_ok.mp hp
    obtain ⟨selected, hs, hp⟩ := bind_eq_ok.mp hp
    obtain ⟨_, -, hp⟩ := bind_eq_ok.mp hp
    cases hp
    simp only [Prod.mk.injEq] at h
    obtain ⟨rfl, -⟩ := h
    exact ⟨⟨net⟩, outputState, rfl, consolidated_netRows (netRows_eq_ok.mp hn), hs⟩

/-- A reachable operator is the fresh one with a consolidated input and its selection. -/
def Sound (fresh operator : NativeTopKOperator) : Prop :=
  ∃ inputState outputState, operator = fresh.withStates inputState outputState ∧
    DeltaBatch.Consolidated inputState.records ∧
    fresh.selectedOutputFrom inputState = .ok outputState

theorem sound_of_reachable {nodeId : String} {offset limit : UInt64} {descending : Bool}
    {orderKey : DeltaRecord → Except OperatorError NativeSortKeyV1} {fresh : NativeTopKOperator}
    (hn : new nodeId offset limit descending orderKey = .ok fresh)
    (h : Machine.Reachable step fresh op) : Sound fresh op := by
  refine h.invariant ?_ ?_
  · unfold new at hn
    split_ifs at hn
    cases hn
    refine ⟨.empty, .empty, rfl, consolidated_nil, ?_⟩
    cases descending <;> rfl
  · rintro s s' i output ⟨inputState, outputState, rfl, -, -⟩ hstep
    obtain ⟨nextInput, nextOutput, rfl, hi, hs⟩ := step_ok hstep
    exact ⟨nextInput, nextOutput, rfl, hi, hs⟩

/-- A sound operator resumes exactly when its selection is in the order of the encodings. -/
theorem resumes_iff_ascending {fresh : NativeTopKOperator} (h : Sound fresh op) :
    Machine.Resumes step checkpoint restore fresh op ↔
      op.outputState.records.Pairwise fun a b => a.encoding < b.encoding := by
  obtain ⟨inputState, outputState, rfl, hi, hs⟩ := h
  have hin : netRows inputState = .ok inputState.records := netRows_of_consolidated hi
  have hl : restore fresh (fresh.withStates inputState outputState).checkpoint = (do
      let rows ← netRows outputState
      if !outputState.eq ⟨rows⟩ then
        .error (.invalidCheckpoint "top-k output state does not match input state")
      else return fresh.withStates inputState ⟨rows⟩) := by
    simp only [restore, checkpoint, withStates, validateCheckpointHeader_self, ok_bind,
      binaryState, hin, hs]
  constructor
  · rintro ⟨restored, hr, hsave, -⟩
    rw [hl] at hr
    obtain ⟨rows, hrows, hr⟩ := bind_eq_ok.mp hr
    split_ifs at hr
    cases hr
    have hsame : (⟨rows⟩ : DeltaBatch) = outputState := by
      simpa [checkpoint, withStates] using hsave
    show outputState.records.Pairwise _
    rw [← hsame]
    exact netRows_sorted (netRows_eq_ok.mp hrows)
  · intro ha
    have ho : netRows outputState = .ok outputState.records :=
      netRows_of_consolidated ⟨ha, selectedOutputFrom_positive hs⟩
    refine ⟨_, ?_, rfl, fun _ => rfl⟩
    rw [hl, ho, ok_bind, DeltaBatch.eq, eqRecords_self]
    rfl

end NativeTopKOperator

/-- Every sum of rows that share an encoding is a non-negative `i64`. -/
def NonNegativeSums (batch : DeltaBatch) : Prop :=
  ∀ code, 0 ≤ encodedWeight code batch.records ∧ encodedWeight code batch.records < 2 ^ 63

theorem hasNegative_eq_false : hasNegative rows = false ↔ ∀ r ∈ rows, 0 ≤ r.weight.val := by
  simp [hasNegative]

theorem nonNegativeSides_eq_ok {nodeId codecId label : String} {left right l r : DeltaBatch}
    (hleft : left.records.length < 2 ^ 63) (hright : right.records.length < 2 ^ 63) :
    nonNegativeSides ⟨nodeId, codecId, 1, .binary left right⟩ label = .ok (l, r) ↔
      (NonNegativeSums left ∧ NonNegativeSums right) ∧ l = left ∧ r = right := by
  have hs {b : DeltaBatch} (hl : b.records.length < 2 ^ 63) :
      NonNegativeSums b ↔ ∃ rows, netRows b = .ok rows ∧ hasNegative rows = false := by
    simp only [netRows_eq_ok, hasNegative_eq_false, NonNegativeSums]
    exact (netRows_nonNegative_iff hl).symm
  rw [hs hleft, hs hright]
  simp only [nonNegativeSides, binaryState, ok_bind, bind_eq_ok]
  constructor
  · rintro ⟨leftRows, hlr, h⟩
    split_ifs at h with hn
    obtain ⟨rightRows, hrr, h⟩ := bind_eq_ok.mp h
    split_ifs at h with hn'
    cases h
    exact ⟨⟨⟨_, hlr, by simpa using hn⟩, ⟨_, hrr, by simpa using hn'⟩⟩, rfl, rfl⟩
  · rintro ⟨⟨⟨leftRows, hlr, hn⟩, ⟨rightRows, hrr, hn'⟩⟩, rfl, rfl⟩
    refine ⟨leftRows, hlr, ?_⟩
    simp [hn, hn', hrr]

section Outer
variable (label nodeId codecId : String) (output : OuterOutput)

/-- One call on an outer join, with the port and the batch. -/
def stepOuter (join : KeyedEquiJoin) (input : String × DeltaBatch) :
    KeyedEquiJoin × Except NativeOperatorError DeltaBatch :=
  applyOuter label nodeId output join input.1 input.2

theorem stepOuter_eq (i : String × DeltaBatch) :
    (∃ side, ∀ join, stepOuter label nodeId output join i = match join.applySide side i.2 with
      | .error error => (join, .error (.operator error))
      | .ok (joined, next) =>
        (next, output side (joinSides join) (joinSides next) i.2 joined)) ∨
    ∃ error, ∀ join, stepOuter label nodeId output join i = (join, .error error) := by
  unfold stepOuter applyOuter
  split_ifs
  · exact .inl ⟨.left, fun _ => rfl⟩
  · exact .inl ⟨.right, fun _ => rfl⟩
  · exact .inr ⟨_, fun _ => rfl⟩

theorem stepOuter_reidentified (join : KeyedEquiJoin) (instanceId revision : UInt64)
    (i : String × DeltaBatch) : ∃ revision',
      stepOuter label nodeId output (join.reidentified instanceId revision) i =
        ((stepOuter label nodeId output join i).1.reidentified instanceId revision',
          (stepOuter label nodeId output join i).2) := by
  rcases stepOuter_eq label nodeId output i with ⟨side, hs⟩ | ⟨error, he⟩
  · rw [hs, hs, join.applySide_reidentified]
    rcases join.applySide side i.2 with e | ⟨joined, next⟩
    · exact ⟨revision, rfl⟩
    · exact ⟨revision + 1, rfl⟩
  · rw [he, he]
    exact ⟨revision, rfl⟩

theorem stepOuter_joinValues (join : KeyedEquiJoin) (i : String × DeltaBatch) :
    (stepOuter label nodeId output join i).1.joinValues = join.joinValues := by
  rcases stepOuter_eq label nodeId output i with ⟨side, hs⟩ | ⟨error, he⟩
  · rw [hs]
    rcases h : join.applySide side i.2 with e | ⟨joined, next⟩
    · rfl
    · exact KeyedEquiJoin.applySide_joinValues h
  · rw [he]

theorem joinValues_of_reachable {label nodeId : String} {output : OuterOutput}
    {joinValues : Value → Value → Except OperatorError Value} {instanceId : UInt64}
    {join : KeyedEquiJoin}
    (h : Machine.Reachable (stepOuter label nodeId output) (.new joinValues instanceId) join) :
    joinValues = join.joinValues := by
  induction h with
  | start => rfl
  | @step s s' i _ _ hstep ih =>
    have hk := stepOuter_joinValues label nodeId output s i
    rw [hstep] at hk
    exact ih.trans hk.symm

theorem outputs_reidentified (join : KeyedEquiJoin) (instanceId revision : UInt64)
    (later : List (String × DeltaBatch)) :
    Machine.outputs (stepOuter label nodeId output) (join.reidentified instanceId revision) later =
      Machine.outputs (stepOuter label nodeId output) join later := by
  symm
  refine outputs_eq_of_bisimulation
    (R := fun s t => ∃ revision, t = s.reidentified instanceId revision) ?_ ⟨revision, rfl⟩ later
  rintro s _ i ⟨revision, rfl⟩
  obtain ⟨revision', hstep⟩ := stepOuter_reidentified label nodeId output s instanceId revision i
  rw [hstep]
  exact ⟨rfl, revision', rfl⟩

/-- An outer join resumes in a fresh one exactly when neither side has a negative sum. -/
theorem resumesOuter_iff {fresh join : KeyedEquiJoin} (hrev : fresh.revision = 0)
    (hv : fresh.joinValues = join.joinValues) (hleft : join.leftState.records.length < 2 ^ 63)
    (hright : join.rightState.records.length < 2 ^ 63) :
    Machine.Resumes (stepOuter label nodeId output) (checkpointOuter nodeId codecId)
        (restoreOuter label nodeId codecId) fresh join ↔
      NonNegativeSums join.leftState ∧ NonNegativeSums join.rightState := by
  have hf : fresh.revision ≠ UInt64.ofNat (2 ^ 64 - 1) := by
    rw [hrev]
    decide
  have hl {restored : KeyedEquiJoin} :
      restoreOuter label nodeId codecId fresh (checkpointOuter nodeId codecId join) =
        .ok restored ↔ (NonNegativeSums join.leftState ∧ NonNegativeSums join.rightState) ∧
          restored = join.reidentified fresh.instanceId 1 := by
    rw [restoreOuter, checkpointOuter, validateCheckpointHeader_self, ok_bind,
      bind_eq_ok]
    simp only [Prod.exists, nonNegativeSides_eq_ok hleft hright, liftOperator_eq_ok]
    constructor
    · rintro ⟨_, _, ⟨hs, rfl, rfl⟩, hr⟩
      rw [KeyedEquiJoin.restoreState_batches fresh join hf] at hr
      cases hr
      refine ⟨hs, ?_⟩
      rw [KeyedEquiJoin.reidentified, hv, hrev]
      rfl
    · rintro ⟨hs, rfl⟩
      refine ⟨_, _, ⟨hs, rfl, rfl⟩, ?_⟩
      rw [KeyedEquiJoin.restoreState_batches fresh join hf, KeyedEquiJoin.reidentified, hv, hrev]
      rfl
  constructor
  · rintro ⟨restored, hr, -⟩
    exact (hl.mp hr).1
  · intro hs
    exact ⟨_, hl.mpr ⟨hs, rfl⟩, rfl, outputs_reidentified label nodeId output join _ _⟩

end Outer

namespace NativeLeftJoinOperator

def step (operator : NativeLeftJoinOperator) (input : String × DeltaBatch) :
    NativeLeftJoinOperator × Except NativeOperatorError DeltaBatch :=
  operator.apply input.1 input.2

theorem embeds (nodeId : String) (unmatchedValue : Value → Except OperatorError Value) :
    Machine.Embeds (stepOuter "left join" nodeId (output unmatchedValue))
      (checkpointOuter nodeId "velorix-native-left-join-v1")
      (restoreOuter "left join" nodeId "velorix-native-left-join-v1") step checkpoint restore
      (fun join => ⟨nodeId, join, unmatchedValue⟩) where
  step _ _ := rfl
  save _ := rfl
  load join saved := by
    unfold restore
    rcases restoreOuter "left join" nodeId "velorix-native-left-join-v1" join saved with
      e | next <;> rfl

end NativeLeftJoinOperator

namespace NativeFullJoinOperator

def step (operator : NativeFullJoinOperator) (input : String × DeltaBatch) :
    NativeFullJoinOperator × Except NativeOperatorError DeltaBatch :=
  operator.apply input.1 input.2

theorem embeds (nodeId : String)
    (unmatchedLeftValue unmatchedRightValue : Value → Except OperatorError Value) :
    Machine.Embeds (stepOuter "full join" nodeId (output unmatchedLeftValue unmatchedRightValue))
      (checkpointOuter nodeId "velorix-native-full-join-v1")
      (restoreOuter "full join" nodeId "velorix-native-full-join-v1") step checkpoint restore
      (fun join => ⟨nodeId, join, unmatchedLeftValue, unmatchedRightValue⟩) where
  step _ _ := rfl
  save _ := rfl
  load join saved := by
    unfold restore
    rcases restoreOuter "full join" nodeId "velorix-native-full-join-v1" join saved with
      e | next <;> rfl

end NativeFullJoinOperator

/-- Which reachable operators resume from their own checkpoint in a fresh operator of the
same definition. -/
theorem reachable_resumes_iff (nodeId : String) : (∀ (offset limit : UInt64) (descending : Bool)
      (orderKey : DeltaRecord → Except OperatorError NativeSortKeyV1)
      (fresh operator : NativeTopKOperator),
      NativeTopKOperator.new nodeId offset limit descending orderKey = .ok fresh →
      Machine.Reachable NativeTopKOperator.step fresh operator →
      (Machine.Resumes NativeTopKOperator.step NativeTopKOperator.checkpoint
          NativeTopKOperator.restore fresh operator ↔
        operator.outputState.records.Pairwise fun a b => a.encoding < b.encoding)) ∧
    (∀ (joinValues : Value → Value → Except OperatorError Value)
      (unmatchedValue : Value → Except OperatorError Value) (firstId freshId : UInt64)
      (operator : NativeLeftJoinOperator), Machine.Reachable NativeLeftJoinOperator.step
        (.new nodeId joinValues unmatchedValue firstId) operator →
      operator.join.leftState.records.length < 2 ^ 63 →
      operator.join.rightState.records.length < 2 ^ 63 →
      (Machine.Resumes NativeLeftJoinOperator.step NativeLeftJoinOperator.checkpoint
          NativeLeftJoinOperator.restore (.new nodeId joinValues unmatchedValue freshId) operator ↔
        NonNegativeSums operator.join.leftState ∧ NonNegativeSums operator.join.rightState)) ∧
    (∀ (joinValues : Value → Value → Except OperatorError Value)
      (unmatchedLeftValue unmatchedRightValue : Value → Except OperatorError Value)
      (firstId freshId : UInt64) (operator : NativeFullJoinOperator),
      Machine.Reachable NativeFullJoinOperator.step
        (.new nodeId joinValues unmatchedLeftValue unmatchedRightValue firstId) operator →
      operator.join.leftState.records.length < 2 ^ 63 →
      operator.join.rightState.records.length < 2 ^ 63 →
      (Machine.Resumes NativeFullJoinOperator.step NativeFullJoinOperator.checkpoint
          NativeFullJoinOperator.restore
          (.new nodeId joinValues unmatchedLeftValue unmatchedRightValue freshId) operator ↔
        NonNegativeSums operator.join.leftState ∧ NonNegativeSums operator.join.rightState)) := by
  refine ⟨?_, ?_, ?_⟩
  · intro offset limit descending orderKey fresh operator hnew hreach
    exact NativeTopKOperator.resumes_iff_ascending
      (NativeTopKOperator.sound_of_reachable hnew hreach)
  · intro joinValues unmatchedValue firstId freshId operator hreach hleft hright
    have hembeds := NativeLeftJoinOperator.embeds nodeId unmatchedValue
    obtain ⟨join, rfl, hjoin⟩ := hembeds.reachable hreach
    exact (hembeds.resumes_iff (.new joinValues freshId) join).trans
      (resumesOuter_iff _ _ _ _ rfl (joinValues_of_reachable hjoin) hleft hright)
  · intro joinValues unmatchedLeft unmatchedRight firstId freshId operator hreach hleft hright
    have hembeds := NativeFullJoinOperator.embeds nodeId unmatchedLeft unmatchedRight
    obtain ⟨join, rfl, hjoin⟩ := hembeds.reachable hreach
    exact (hembeds.resumes_iff (.new joinValues freshId) join).trans
      (resumesOuter_iff _ _ _ _ rfl (joinValues_of_reachable hjoin) hleft hright)

section Instances

def topTwo (descending : Bool) : NativeTopKOperator :=
  ⟨"top", 0, 2, descending, fun _ => .ok [], .empty, .empty⟩

def freshLeftJoin (instanceId : UInt64) : NativeLeftJoinOperator :=
  .new "left" (fun _ right => .ok right) .ok instanceId

def freshFullJoin (instanceId : UInt64) : NativeFullJoinOperator :=
  .new "full" (fun _ right => .ok right) .ok .ok instanceId

def twoKeys : DeltaBatch := ⟨[⟨.string "a", .null, 1⟩, ⟨.string "b", .null, 1⟩]⟩

def retraction : DeltaBatch := ⟨[⟨.string "a", .null, minusOne⟩]⟩

theorem nonNegativeSums_of_netRows {b : DeltaBatch} (hl : b.records.length < 2 ^ 63)
    (h : b.netRows.toOption.any (fun rows => !hasNegative rows) = true) : NonNegativeSums b := by
  rcases hrows : b.netRows with e | rows
  · rw [hrows] at h
    cases h
  · rw [hrows] at h
    have hn : hasNegative rows = false := by simpa [Except.toOption] using h
    exact (netRows_nonNegative_iff hl).mp ⟨rows, hrows, hasNegative_eq_false.mp hn⟩

/-- Two rows selected in ascending order, and a left row of each outer join, resume. -/
theorem ascendingRows_resume :
    Machine.Resumes NativeTopKOperator.step NativeTopKOperator.checkpoint
      NativeTopKOperator.restore (topTwo false) ((topTwo false).step ("input", twoKeys)).1 ∧
    Machine.Resumes NativeLeftJoinOperator.step NativeLeftJoinOperator.checkpoint
      NativeLeftJoinOperator.restore (freshLeftJoin 2)
      ((freshLeftJoin 1).step ("left", twoKeys)).1 ∧
    Machine.Resumes NativeFullJoinOperator.step NativeFullJoinOperator.checkpoint
      NativeFullJoinOperator.restore (freshFullJoin 2)
      ((freshFullJoin 1).step ("left", twoKeys)).1 := by
  refine ⟨?_, ?_, ?_⟩
  · refine ((reachable_resumes_iff "top").1 0 2 false (fun _ => .ok []) (topTwo false) _ rfl
      (Machine.Reachable.start.step_of_ok _ (by decide +kernel))).mpr (by decide +kernel)
  · refine ((reachable_resumes_iff "left").2.1 (fun _ right => .ok right) .ok 1 2 _
      (Machine.Reachable.start.step_of_ok ("left", twoKeys) (by decide +kernel))
      (by decide +kernel) (by decide +kernel)).mpr ⟨?_, ?_⟩ <;>
      exact nonNegativeSums_of_netRows (by decide +kernel) (by decide +kernel)
  · refine ((reachable_resumes_iff "full").2.2 (fun _ right => .ok right) .ok .ok 1 2 _
      (Machine.Reachable.start.step_of_ok ("left", twoKeys) (by decide +kernel))
      (by decide +kernel) (by decide +kernel)).mpr ⟨?_, ?_⟩ <;>
      exact nonNegativeSums_of_netRows (by decide +kernel) (by decide +kernel)

/-- A full join after an insertion and a retraction whose pairs have one encoding. -/
def mergedFullJoin : NativeFullJoinOperator :=
  let number (i : Fin 100) : Value := .number (.int i.val (by omega) (by omega))
  let inserted : DeltaBatch := ⟨[⟨number 1, number 23, 1⟩]⟩
  let retracted : DeltaBatch := ⟨[⟨number 12, number 3, ⟨-2, by decide, by decide⟩⟩]⟩
  (((freshFullJoin 1).step ("left", inserted)).1.step ("left", retracted)).1

/-- The same two rows ranked downwards, a retraction before its insertion on a left join,
and a retraction merged with another pair on a full join do not resume. -/
theorem descendingRows_not_resumed : (Machine.Reachable NativeTopKOperator.step (topTwo true)
        ((topTwo true).step ("input", twoKeys)).1 ∧
      ¬ Machine.Resumes NativeTopKOperator.step NativeTopKOperator.checkpoint
        NativeTopKOperator.restore (topTwo true) ((topTwo true).step ("input", twoKeys)).1) ∧
    (Machine.Reachable NativeLeftJoinOperator.step (freshLeftJoin 1)
        ((freshLeftJoin 1).step ("left", retraction)).1 ∧
      ¬ Machine.Resumes NativeLeftJoinOperator.step NativeLeftJoinOperator.checkpoint
        NativeLeftJoinOperator.restore (freshLeftJoin 2)
        ((freshLeftJoin 1).step ("left", retraction)).1) ∧
    (Machine.Reachable NativeFullJoinOperator.step (freshFullJoin 1) mergedFullJoin ∧
      ¬ Machine.Resumes NativeFullJoinOperator.step NativeFullJoinOperator.checkpoint
        NativeFullJoinOperator.restore (freshFullJoin 2) mergedFullJoin) := by
  refine ⟨⟨?_, ?_⟩, ⟨?_, ?_⟩, ⟨?_, ?_⟩⟩
  · exact Machine.Reachable.start.step_of_ok _ (by decide +kernel)
  · exact not_resumes (by decide +kernel)
  · exact Machine.Reachable.start.step_of_ok _ (by decide +kernel)
  · exact not_resumes (by decide +kernel)
  · exact (Machine.Reachable.start.step_of_ok _ (by decide +kernel)).step_of_ok _
      (by decide +kernel)
  · exact not_resumes (by decide +kernel)

end Instances
end Velorix.Native
