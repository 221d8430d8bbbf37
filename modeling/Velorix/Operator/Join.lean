import Velorix.Operator.Side

/-! The keyed equi-join. A batch on one side is joined with the net rows of the other
side and then added to its own side. A prepared epoch works on overlays instead and
changes the sides only when it is committed. -/
namespace Velorix.Operator

open Json Delta Result Option

def checkedWeightProduct (left right : I64) : Except OperatorError I64 :=
  match left.checkedMul right with
  | some weight => .ok weight
  | none => .error .weightOverflow

inductive JoinInputSide
  | left
  | right
  deriving DecidableEq

def JoinInputSide.opposite : JoinInputSide → JoinInputSide
  | .left => .right
  | .right => .left

theorem JoinInputSide.opposite_ne (side : JoinInputSide) : side.opposite ≠ side := by
  cases side <;> decide

structure KeyedEquiJoin where
  left : SideState
  right : SideState
  joinValues : Value → Value → Except OperatorError Value
  instanceId : UInt64
  revision : UInt64

/-- A validated epoch, bound to the join instance and the revision it was read from. -/
structure PreparedKeyedEquiJoinEpoch where
  baseRevision : UInt64
  joinInstanceId : UInt64
  leftOverlay : SideOverlay
  rightOverlay : SideOverlay
  touchedKeys : SortedMap (List Char) Value
  output : DeltaBatch

namespace PreparedKeyedEquiJoinEpoch

def outputChanges (prepared : PreparedKeyedEquiJoinEpoch) : DeltaBatch := prepared.output

def overlay (prepared : PreparedKeyedEquiJoinEpoch) : JoinInputSide → SideOverlay
  | .left => prepared.leftOverlay
  | .right => prepared.rightOverlay

end PreparedKeyedEquiJoinEpoch

namespace KeyedEquiJoin

/-- A join without rows; the instance id comes from the process-wide counter. -/
def new (joinValues : Value → Value → Except OperatorError Value) (instanceId : UInt64) :
    KeyedEquiJoin :=
  ⟨∅, ∅, joinValues, instanceId, 0⟩

def side (join : KeyedEquiJoin) : JoinInputSide → SideState
  | .left => join.left
  | .right => join.right

variable (join : KeyedEquiJoin)

/-- The row for a record of one side and a row of the other side. -/
def joinRecord (side : JoinInputSide) (record other : DeltaRecord) :
    Except OperatorError DeltaRecord := do
  let weight ← checkedWeightProduct record.weight other.weight
  let value ← match side with
    | .left => join.joinValues record.value other.value
    | .right => join.joinValues other.value record.value
  return ⟨record.key, value, weight⟩

def joinAgainst (side : JoinInputSide) (input : DeltaBatch)
    (other : SideState) : Except OperatorError DeltaBatch := do
  let outputs ← input.records.mapM fun record =>
    (other.netRecordsForKey record.key).mapM (join.joinRecord side record)
  return ⟨outputs.flatten⟩

def applyLeft (input : DeltaBatch) :
    Except OperatorError (DeltaBatch × KeyedEquiJoin) := do
  let output ← join.joinAgainst .left input join.right
  let left ← join.left.applied input
  return (output, { join with left, revision := join.revision + 1 })

def applyRight (input : DeltaBatch) :
    Except OperatorError (DeltaBatch × KeyedEquiJoin) := do
  let output ← join.joinAgainst .right input join.left
  let right ← join.right.applied input
  return (output, { join with right, revision := join.revision + 1 })

/-- One record of a prepared epoch: join with the merged other side, then write the
cell of its own side. -/
def prepareRecord (side : JoinInputSide)
    (draft : PreparedKeyedEquiJoinEpoch) (record : DeltaRecord) :
    Except OperatorError PreparedKeyedEquiJoinEpoch := do
  let text := canonicalJson record.key
  let touchedKeys := match draft.touchedKeys.find? text with
    | some _ => draft.touchedKeys
    | none => draft.touchedKeys.insert text record.key
  let other := match side with
    | .left => mergedRecordsForKey join.right draft.rightOverlay record.key
    | .right => mergedRecordsForKey join.left draft.leftOverlay record.key
  let output ← other.mapM (join.joinRecord side record)
  let draft := { draft with touchedKeys, output := ⟨draft.output.records ++ output⟩ }
  match side with
  | .left => do
    let leftOverlay ← applyOverlayRecord join.left draft.leftOverlay record
    return { draft with leftOverlay }
  | .right => do
    let rightOverlay ← applyOverlayRecord join.right draft.rightOverlay record
    return { draft with rightOverlay }

def prepareInput (draft : PreparedKeyedEquiJoinEpoch)
    (input : JoinInputSide × DeltaBatch) : Except OperatorError PreparedKeyedEquiJoinEpoch :=
  input.2.records.foldlM (join.prepareRecord input.1) draft

def prepareEpoch (_logicalEpoch : UInt64)
    (inputs : List (JoinInputSide × DeltaBatch)) :
    Except OperatorError PreparedKeyedEquiJoinEpoch :=
  inputs.foldlM join.prepareInput
    ⟨join.revision, join.instanceId, ∅, ∅, ∅, DeltaBatch.empty⟩

def validatePreparedEpoch (prepared : PreparedKeyedEquiJoinEpoch) : Except OperatorError Unit :=
  if prepared.joinInstanceId ≠ join.instanceId ∨ prepared.baseRevision ≠ join.revision then
    .error .weightOverflow
  else .ok ()

def commitPreparedEpoch (prepared : PreparedKeyedEquiJoinEpoch) :
    Except OperatorError KeyedEquiJoin := do
  join.validatePreparedEpoch prepared
  return { join with
    left := applyOverlay join.left prepared.leftOverlay
    right := applyOverlay join.right prepared.rightOverlay
    revision := join.revision + 1 }

def preparedSideRecords (prepared : PreparedKeyedEquiJoinEpoch)
    (side : JoinInputSide) (key : Value) (after : Bool) : List DeltaRecord :=
  if after then mergedRecordsForKey (join.side side) (prepared.overlay side) key
  else (join.side side).netRecordsForKey key

def leftState : DeltaBatch := join.left.batch

def rightState : DeltaBatch := join.right.batch

/-- Rebuilds both sides; the revision must not wrap. -/
def restoreState (left right : DeltaBatch) :
    Except OperatorError KeyedEquiJoin := do
  let restoredLeft ← SideState.applied ∅ left
  let restoredRight ← SideState.applied ∅ right
  if join.revision = UInt64.ofNat (2 ^ 64 - 1) then .error .weightOverflow
  else .ok { join with
    left := restoredLeft, right := restoredRight, revision := join.revision + 1 }

def applySide : JoinInputSide → DeltaBatch →
    Except OperatorError (DeltaBatch × KeyedEquiJoin)
  | .left, input => join.applyLeft input
  | .right, input => join.applyRight input

/-- The join after one more call that left a side at a new state. -/
def moved (side : JoinInputSide) (state : SideState) : KeyedEquiJoin :=
  match side with
  | .left => { join with left := state, revision := join.revision + 1 }
  | .right => { join with right := state, revision := join.revision + 1 }

theorem applySide_eq (side : JoinInputSide) (i : DeltaBatch) :
    join.applySide side i = do
      let output ← join.joinAgainst side i (join.side side.opposite)
      let s ← (join.side side).applied i return (output, join.moved side s) := by
  cases side <;> rfl

theorem applySide_ok {join next : KeyedEquiJoin} {side : JoinInputSide} {i output : DeltaBatch}
    (h : join.applySide side i = .ok (output, next)) : ∃ s,
      join.joinAgainst side i (join.side side.opposite) = .ok output ∧
        (join.side side).applied i = .ok s ∧ next = join.moved side s := by
  rw [applySide_eq] at h
  obtain ⟨joined, hj, h⟩ := bind_eq_ok.mp h
  obtain ⟨s, hs, h⟩ := bind_eq_ok.mp h
  cases h
  exact ⟨s, hj, hs, rfl⟩

@[simp]
theorem side_moved (side : JoinInputSide) (s : SideState) :
    (join.moved side s).side = Function.update join.side side s := by
  funext other
  cases side <;> cases other <;> rfl

@[simp]
theorem joinValues_moved (side : JoinInputSide) (s : SideState) :
    (join.moved side s).joinValues = join.joinValues := by
  cases side <;> rfl

/-- The batches one after another, with the output of each. -/
def applySequence (join : KeyedEquiJoin) :
    List (JoinInputSide × DeltaBatch) → Except OperatorError (List DeltaBatch × KeyedEquiJoin)
  | [] => .ok ([], join)
  | (side, input) :: rest => do
    let (output, next) ← join.applySide side input
    let (outputs, final) ← next.applySequence rest
    return (output :: outputs, final)

section PreparedEpochs

/-- Both sides with the rows emitted so far. -/
abbrev View := (JoinInputSide → SideState) × List DeltaRecord

/-- What a draft stands for: the sides with its overlays applied. -/
def draftView (join : KeyedEquiJoin) (draft : PreparedKeyedEquiJoinEpoch) : View :=
  (fun side => applyOverlay (join.side side) (draft.overlay side), draft.output.records)

def viewRecord (join : KeyedEquiJoin) (side : JoinInputSide) (view : View)
    (record : DeltaRecord) : Option View := do
  let output ← (((view.1 side.opposite).netRecordsForKey record.key).mapM
    (join.joinRecord side record)).toOption
  let next ← ((view.1 side).applyRecord record).toOption
  return (Function.update view.1 side next, view.2 ++ output)

/-- One batch on a view: all rows are joined before the side moves. -/
def viewInput (join : KeyedEquiJoin) (view : View) (input : JoinInputSide × DeltaBatch) :
    Option View := do
  let output ← (join.joinAgainst input.1 input.2 (view.1 input.1.opposite)).toOption
  let next ← ((view.1 input.1).applied input.2).toOption
  return (Function.update view.1 input.1 next, view.2 ++ output.records)

variable (join : KeyedEquiJoin)

theorem draftView_setOverlay (draft : PreparedKeyedEquiJoinEpoch)
    (touchedKeys : SortedMap (List Char) Value) (output : DeltaBatch) (overlay : SideOverlay) :
    draftView join { draft with touchedKeys, output, leftOverlay := overlay } =
      (Function.update (draftView join draft).1 .left (applyOverlay join.left overlay),
        output.records) ∧
    draftView join { draft with touchedKeys, output, rightOverlay := overlay } =
      (Function.update (draftView join draft).1 .right (applyOverlay join.right overlay),
        output.records) := by
  constructor <;>
  · refine Prod.ext (funext fun side => ?_) rfl
    cases side <;> rfl

theorem prepareRecord_view (side : JoinInputSide) (draft : PreparedKeyedEquiJoinEpoch)
    (r : DeltaRecord) :
    (join.prepareRecord side draft r).toOption.map (draftView join) =
      join.viewRecord side (draftView join draft) r := by
  cases side with
  | left =>
    have hw := applyOverlayRecord_refines join.left draft.leftOverlay r
    have hr := mergedRecordsForKey_eq join.right draft.rightOverlay r.key
    simp only [prepareRecord, viewRecord, draftView, side, PreparedKeyedEquiJoinEpoch.overlay,
      JoinInputSide.opposite, hr, ← hw]
    rcases List.mapM (join.joinRecord .left r) _ with e | output
    · rfl
    · rcases applyOverlayRecord join.left draft.leftOverlay r with e | overlay
      · rfl
      · exact congrArg some (draftView_setOverlay join draft _ _ overlay).1
  | right =>
    have hw := applyOverlayRecord_refines join.right draft.rightOverlay r
    have hr := mergedRecordsForKey_eq join.left draft.leftOverlay r.key
    simp only [prepareRecord, viewRecord, draftView, side, PreparedKeyedEquiJoinEpoch.overlay,
      JoinInputSide.opposite, hr, ← hw]
    rcases List.mapM (join.joinRecord .right r) _ with e | output
    · rfl
    · rcases applyOverlayRecord join.right draft.rightOverlay r with e | overlay
      · rfl
      · exact congrArg some (draftView_setOverlay join draft _ _ overlay).2

theorem foldlM_viewRecord (side : JoinInputSide) (rs : List DeltaRecord) (view : View) :
    rs.foldlM (join.viewRecord side) view = join.viewInput view (side, ⟨rs⟩) := by
  induction rs generalizing view with
  | nil => simp [viewInput, joinAgainst, SideState.applied, Except.toOption]
  | cons r rs ih =>
    have ho (next : SideState) :
        Function.update view.1 side next side.opposite = view.1 side.opposite :=
      Function.update_of_ne side.opposite_ne ..
    simp only [List.foldlM_cons, ih, viewRecord, viewInput, joinAgainst, SideState.applied,
      List.mapM_cons]
    rcases List.mapM (join.joinRecord side r) _ with e | output
    · rfl
    · rcases (view.1 side).applyRecord r with e | next
      · rcases List.mapM _ rs with e | outs <;> rfl
      · simp only [Except.toOption, bind_eq_bind, bind_some, ho,
          Function.update_self, ok_bind, pure_def]
        rcases List.mapM _ rs with e | outs
        · rfl
        · rcases List.foldlM _ next rs with e | final
          · rfl
          · simp [Function.update_idem]

theorem prepareInput_view (draft : PreparedKeyedEquiJoinEpoch) (i : JoinInputSide × DeltaBatch) :
    (join.prepareInput draft i).toOption.map (draftView join) =
      join.viewInput (draftView join draft) i := by
  rw [← foldlM_viewRecord, prepareInput]
  exact foldlM_map_toOption (join.prepareRecord_view i.1) draft

theorem applySide_view (side : JoinInputSide) (i : DeltaBatch) (emitted : List DeltaRecord) :
    (join.applySide side i).toOption.map (fun r => (r.2.side, emitted ++ r.1.records)) =
      join.viewInput (join.side, emitted) (side, i) := by
  simp only [applySide_eq, viewInput]
  rcases join.joinAgainst side i (join.side side.opposite) with e | output
  · rfl
  · rcases (join.side side).applied i with e | next
    · rfl
    · exact congrArg (fun sides => some (sides, emitted ++ output.records))
        (join.side_moved side next)

variable {join}

theorem applySide_joinValues {side : JoinInputSide} {i output : DeltaBatch}
    {next : KeyedEquiJoin} (h : join.applySide side i = .ok (output, next)) :
    next.joinValues = join.joinValues := by
  obtain ⟨s, -, -, rfl⟩ := applySide_ok h
  exact join.joinValues_moved side s

theorem viewInput_congr {other : KeyedEquiJoin} (h : other.joinValues = join.joinValues) :
    other.viewInput = join.viewInput := by
  obtain ⟨_, _, _, _, _⟩ := join
  obtain ⟨_, _, _, _, _⟩ := other
  cases h
  rfl

theorem applySequence_view (join : KeyedEquiJoin) (ins : List (JoinInputSide × DeltaBatch))
    (emitted : List DeltaRecord) :
    (join.applySequence ins).toOption.map
        (fun r => (r.2.side, emitted ++ r.1.flatMap DeltaBatch.records)) =
      ins.foldlM join.viewInput (join.side, emitted) := by
  induction ins generalizing join emitted with
  | nil => simp [applySequence, Except.toOption]
  | cons i rest ih =>
    rw [List.foldlM_cons, ← join.applySide_view, applySequence]
    rcases hs : join.applySide i.1 i.2 with e | ⟨output, next⟩
    · rfl
    · have hr := ih next (emitted ++ output.records)
      rw [viewInput_congr (applySide_joinValues hs)] at hr
      refine Eq.trans ?_ hr
      rcases hseq : next.applySequence rest with e | ⟨outs, final⟩ <;>
        simp [hseq, Except.toOption]

theorem prepareEpoch_view (join : KeyedEquiJoin) (e : UInt64)
    (ins : List (JoinInputSide × DeltaBatch)) :
    (join.prepareEpoch e ins).toOption.map (draftView join) = (join.applySequence ins).toOption.map
        fun r => (r.2.side, r.1.flatMap DeltaBatch.records) := by
  have hs := applySequence_view join ins []
  simp only [List.nil_append] at hs
  rw [hs, prepareEpoch, foldlM_map_toOption join.prepareInput_view]
  congr 1
  refine Prod.ext (funext fun side => ?_) rfl
  cases side <;> exact applyOverlay_empty _

theorem prepareRecord_bound {side : JoinInputSide} {draft next : PreparedKeyedEquiJoinEpoch}
    {r : DeltaRecord} (h : join.prepareRecord side draft r = .ok next) :
    next.joinInstanceId = draft.joinInstanceId ∧ next.baseRevision = draft.baseRevision := by
  obtain ⟨_, -, h⟩ := bind_eq_ok.mp h
  cases side with
  | left | right =>
    obtain ⟨_, -, h⟩ := bind_eq_ok.mp h
    cases h
    exact ⟨rfl, rfl⟩

theorem prepareEpoch_bound {e : UInt64} {ins : List (JoinInputSide × DeltaBatch)}
    {p : PreparedKeyedEquiJoinEpoch} (h : join.prepareEpoch e ins = .ok p) :
    p.joinInstanceId = join.instanceId ∧ p.baseRevision = join.revision := by
  let Bound (draft : PreparedKeyedEquiJoinEpoch) : Prop :=
    draft.joinInstanceId = join.instanceId ∧ draft.baseRevision = join.revision
  refine foldlM_invariant (P := Bound) h ⟨rfl, rfl⟩ fun hd hi => ?_
  refine foldlM_invariant (P := Bound) hi hd fun hd hr => ?_
  obtain ⟨hid, hrev⟩ := prepareRecord_bound hr
  exact ⟨hid.trans hd.1, hrev.trans hd.2⟩

variable (join)

/-- A prepared epoch refines sequential application: it succeeds on the same inputs, emits
the same rows in the same order, commits to the same sides, and shows through the token the
rows of every key before and after. Preparing returns only the token, so neither side moves. -/
theorem preparedEpoch_refines_sequence (logicalEpoch : UInt64)
    (inputs : List (JoinInputSide × DeltaBatch)) :
    ((∃ prepared, join.prepareEpoch logicalEpoch inputs = .ok prepared) ↔
      ∃ result, join.applySequence inputs = .ok result) ∧
    ∀ prepared outputs final, join.prepareEpoch logicalEpoch inputs = .ok prepared →
      join.applySequence inputs = .ok (outputs, final) →
      prepared.outputChanges.records = outputs.flatMap DeltaBatch.records ∧
      ∃ committed, join.commitPreparedEpoch prepared = .ok committed ∧
        committed.leftState = final.leftState ∧ committed.rightState = final.rightState ∧
        ∀ side key, join.preparedSideRecords prepared side key true =
            (committed.side side).netRecordsForKey key ∧
          join.preparedSideRecords prepared side key false =
            (join.side side).netRecordsForKey key := by
  have hview := join.prepareEpoch_view logicalEpoch inputs
  constructor
  · rw [← toOption_isSome_iff, ← toOption_isSome_iff, ← isSome_map,
      hview, isSome_map]
  · intro prepared outputs final hprepared hsequence
    rw [hprepared, hsequence] at hview
    obtain ⟨hsides, houtput⟩ := Prod.ext_iff.mp (Option.some.inj hview)
    have hleft : applyOverlay join.left prepared.leftOverlay = final.left :=
      congrFun hsides .left
    have hright : applyOverlay join.right prepared.rightOverlay = final.right :=
      congrFun hsides .right
    obtain ⟨hid, hrev⟩ := prepareEpoch_bound hprepared
    refine ⟨houtput, { join with
      left := applyOverlay join.left prepared.leftOverlay
      right := applyOverlay join.right prepared.rightOverlay
      revision := join.revision + 1 }, ?_, ?_, ?_, fun side key => ⟨?_, rfl⟩⟩
    · simp [commitPreparedEpoch, validatePreparedEpoch, hid, hrev]
    · rw [leftState, leftState, hleft]
    · rw [rightState, rightState, hright]
    · cases side <;> exact mergedRecordsForKey_eq _ _ key

end PreparedEpochs

section Identity

/-- The join under another instance id and another revision. -/
def reidentified (join : KeyedEquiJoin) (instanceId revision : UInt64) : KeyedEquiJoin :=
  { join with instanceId, revision }

theorem applySide_reidentified (join : KeyedEquiJoin) (instanceId revision : UInt64)
    (side : JoinInputSide) (i : DeltaBatch) :
    (join.reidentified instanceId revision).applySide side i = (join.applySide side i).map fun r =>
        (r.1, r.2.reidentified instanceId (revision + 1)) := by
  have hj : (join.reidentified instanceId revision).joinAgainst side i =
      join.joinAgainst side i := rfl
  have hs : (join.reidentified instanceId revision).side = join.side := by
    funext side
    cases side <;> rfl
  rw [applySide_eq, applySide_eq, hj, hs]
  rcases join.joinAgainst side i (join.side side.opposite) with e | output
  · rfl
  · rcases (join.side side).applied i with e | next
    · rfl
    · cases side <;> rfl

theorem restoreState_batches (fresh join : KeyedEquiJoin)
    (h : fresh.revision ≠ UInt64.ofNat (2 ^ 64 - 1)) :
    fresh.restoreState join.leftState join.rightState = .ok { fresh with
      left := join.left, right := join.right, revision := fresh.revision + 1 } := by
  rw [restoreState, leftState, rightState, SideState.applied_batch, ok_bind,
    SideState.applied_batch, ok_bind, if_neg h]

end Identity
end KeyedEquiJoin
end Velorix.Operator
