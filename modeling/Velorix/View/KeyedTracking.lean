import Velorix.View.FrameFailures
import Velorix.View.RecursiveFixpoint

/-! Keyed state follows the relations of a view as long as, of all records of a key, the one of the
live row is applied last. -/
namespace Velorix.View

open Json Delta Result InputSide List

section Inputs
variable {C : Type} (side : InputSide C)

def InputSide.byPrimaryKey : InputSide C :=
  { side with keyColumnIds := side.catalog.primaryKeyColumnIds }

variable (inputs : List RelationInputBatch)

/-- The rows that inputs add to the relation or take from it. -/
def InputSide.changes : List DeltaRecord :=
  inputs.flatMap fun input =>
    match side.byPrimaryKey.delta input with
    | .ok delta => delta.records
    | .error _ => []

/-- The records of inputs in the order in which they are applied. -/
def InputSide.listing : List DeltaRecord :=
  inputs.flatMap fun input =>
    match side.listed input with
    | .ok records => records
    | .error _ => []

/-- Rows are kept by primary key, and different rows have different encodings. -/
structure InputSide.ToldApart (inputs : List RelationInputBatch) : Prop where
  keyed : side.keyColumnIds = side.catalog.primaryKeyColumnIds
  separated : ∀ input ∈ inputs, ∀ delta, side.delta input = .ok delta →
    DeltaBatch.Separated delta.records

def InputSide.ofRelation : List RelationInputBatch :=
  inputs.filter (·.relationId = side.schema.relationId)

/-- The listing of inputs leads from some rows to others. -/
structure InputSide.Applies (inputs : List RelationInputBatch) (rows later : KeyedRows C) :
    Prop where
  listed : ∀ input ∈ inputs, ∃ records, side.listed input = .ok records
  applied : applyRecords side.format rows (side.listing inputs) = .ok later

end Inputs

section Inputs
variable {C : Type} {side : InputSide C} {i : RelationInputBatch}
  {inputs : List RelationInputBatch} {rows middle later : KeyedRows C} {rs : List DeltaRecord}

theorem InputSide.listed_ok (h : side.listed i = .ok rs) :
    ∃ d, side.delta i = .ok d ∧ d.netRows = .ok rs := by
  obtain ⟨d, hd, h⟩ := bind_eq_ok.mp h
  exact ⟨d, hd, orInvalidState_ok h⟩

theorem InputSide.relationId_of_listed (h : side.listed i = .ok rs) :
    i.relationId = side.schema.relationId := by
  obtain ⟨d, hd, -⟩ := listed_ok h
  obtain ⟨_, hv, -⟩ := bind_eq_ok.mp hd
  by_contra hne
  rw [validateInputMatchesSchema, if_pos (.inl hne)] at hv
  cases hv

theorem InputSide.listing_cons (h : side.listed i = .ok rs) :
    side.listing (i :: inputs) = rs ++ side.listing inputs := by
  simp only [listing, flatMap_cons, h]

theorem InputSide.zset_listing (ht : side.ToldApart inputs)
    (hl : ∀ i ∈ inputs, ∃ rs, side.listed i = .ok rs) :
    zset (side.listing inputs) = zset (side.changes inputs) := by
  have hk : side.byPrimaryKey = side := by
    rw [byPrimaryKey, ← ht.keyed]
  induction inputs with
  | nil => rfl
  | cons i inputs ih =>
    obtain ⟨rs, hr⟩ := hl i mem_cons_self
    obtain ⟨d, hd, hn⟩ := listed_ok hr
    have hrest : zset (side.listing inputs) = zset (side.changes inputs) := by
      refine ih ⟨ht.keyed, fun i' h => ?_⟩ fun i' h => ?_
      · exact ht.separated i' (mem_cons_of_mem i h)
      · exact hl i' (mem_cons_of_mem i h)
    have hc : side.changes (i :: inputs) = d.records ++ side.changes inputs := by
      simp only [changes, flatMap_cons, hk, hd]
    have hs := ht.separated i mem_cons_self d hd
    rw [listing_cons hr, hc, zset_append, zset_append, hrest, hs.zset_netRows hn]

theorem InputSide.applies_nil (rows : KeyedRows C) : side.Applies [] rows rows :=
  ⟨fun _ hi => absurd hi not_mem_nil, rfl⟩

theorem InputSide.Applies.cons (hs : side.stage rows i = .ok middle)
    (h : side.Applies inputs middle later) : side.Applies (i :: inputs) rows later := by
  obtain ⟨rs, hr, ha⟩ := bind_eq_ok.mp hs
  refine ⟨?_, ?_⟩
  · intro i' hi
    rcases mem_cons.mp hi with rfl | hi
    · exact ⟨rs, hr⟩
    · exact h.listed i' hi
  · rw [listing_cons hr, applyRecords, foldlM_append]
    rw [applyRecords] at ha
    rw [ha]
    exact h.applied

theorem InputSide.relationId_of_stage (h : side.stage rows i = .ok later) :
    i.relationId = side.schema.relationId := by
  obtain ⟨rs, hr, -⟩ := bind_eq_ok.mp h
  exact relationId_of_listed hr

end Inputs

/-- The rows that a runtime keeps of one of its relations. -/
structure KeptState where
  C : Type
  make : Value → SortedMap String Value → C
  side : InputSide C
  overwrites : side.format.Overwrites make
  rows : KeyedRows C

def makeInterval (startColumn endColumn : String) (key : Value)
    (fields : SortedMap String Value) : IntervalRow :=
  ⟨key, ((fields.find? startColumn).bind Value.asI64).getD 0,
    ((fields.find? endColumn).bind Value.asI64).getD 0, fields⟩

theorem updateInterval_ok {startColumn endColumn : String} {row row' : IntervalRow}
    {fields : SortedMap String Value}
    (h : updateInterval startColumn endColumn row fields = .ok row') :
    row' = makeInterval startColumn endColumn row.key fields := by
  obtain ⟨start, hs, h⟩ := bind_eq_ok.mp h
  obtain ⟨stop, hstop, h⟩ := bind_eq_ok.mp h
  split_ifs at h
  cases h
  rw [makeInterval, orMissing_ok hs, orMissing_ok hstop]
  rfl

theorem intervalFormat_overwrites (startColumn endColumn : String) :
    (intervalFormat startColumn endColumn).Overwrites (makeInterval startColumn endColumn) where
  fresh := updateInterval_ok
  update := updateInterval_ok
  injective := fun h => congrArg IntervalRow.values h

theorem valuesFormat_overwrites : valuesFormat.Overwrites fun _ fields => fields where
  fresh := fun h => (Except.ok.inj h).symm
  update := fun h => (Except.ok.inj h).symm
  injective := id

namespace AnalyticWindowFrameRuntime

def side (runtime : AnalyticWindowFrameRuntime) : InputSide AnalyticFrameRow where
  schema := runtime.inputSchema
  catalog := runtime.catalog
  keyColumnIds := [runtime.plan.keyColumnId]
  valueColumnIds := inputColumnIds runtime.plan
  inputField := "analytic_frame_input"
  batchField := "analytic_frame_input_batch"
  format := frameFormat runtime.plan

theorem listed_eq (t : AnalyticWindowFrameRuntime) : t.listed = t.side.listed :=
  rfl

end AnalyticWindowFrameRuntime

inductive KeyedRuntime
  | interval (runtime : IntervalJoinRuntime)
  | cross (runtime : CrossJoinRuntime)
  | recursive (runtime : RecursiveFixpointRuntime)
  | frame (runtime : AnalyticWindowFrameRuntime)

namespace KeyedRuntime

def progress : KeyedRuntime → Progress
  | .interval runtime => runtime.progress
  | .cross runtime => runtime.progress
  | .recursive runtime => runtime.progress
  | .frame runtime => runtime.progress

/-- An epoch that is applied, and the runtime after it. -/
def applyChanges (format : ArrowFormat) (view : KeyedRuntime) (logicalEpoch : LogicalEpoch)
    (idempotencyKey : String) (inputChanges : List RelationInputBatch) :
    Except RuntimeError (EpochCommit × KeyedRuntime) :=
  match view with
  | .interval runtime => do
    let (commit, next) ← runtime.applyChanges format logicalEpoch idempotencyKey inputChanges
    return (commit, .interval next)
  | .cross runtime => do
    let (commit, next) ← runtime.applyChanges format logicalEpoch idempotencyKey inputChanges
    return (commit, .cross next)
  | .recursive runtime => do
    let (commit, next) ← runtime.applyChanges format logicalEpoch idempotencyKey inputChanges
    return (commit, .recursive next)
  | .frame runtime =>
    match runtime.applyChanges format logicalEpoch idempotencyKey inputChanges with
    | some (.ok commit, next) => .ok (commit, .frame next)
    | some (.error error, _) => .error error
    -- A panic commits nothing either.
    | none => .error invalidRuntimeState

/-- Recursive views and window frames have one relation, the left one. -/
def kept : KeyedRuntime → Side → Option KeptState
  | .interval runtime, .left => some ⟨_, _, runtime.sides.left, intervalFormat_overwrites _ _,
    runtime.intervals.left⟩
  | .interval runtime, .right => some ⟨_, _, runtime.sides.right, intervalFormat_overwrites _ _,
    runtime.intervals.right⟩
  | .cross runtime, .left => some ⟨_, _, runtime.sides.left, valuesFormat_overwrites,
    runtime.rows.left⟩
  | .cross runtime, .right => some ⟨_, _, runtime.sides.right, valuesFormat_overwrites,
    runtime.rows.right⟩
  | .recursive runtime, .left => some ⟨_, _, runtime.side, valuesFormat_overwrites,
    runtime.baseMultiset⟩
  | .recursive _, .right => none
  | .frame runtime, .left => some ⟨_, _, runtime.side,
    AnalyticWindowFrameRuntime.frameFormat_overwrites _, runtime.rows⟩
  | .frame _, .right => none

/-- The two relations of a view are different ones. -/
def Distinct (view : KeyedRuntime) : Prop :=
  ∀ left right, view.kept .left = some left → view.kept .right = some right →
    left.side.schema.relationId ≠ right.side.schema.relationId

/-- A view of two different relations that keeps no rows yet. -/
structure Fresh (view : KeyedRuntime) : Prop where
  distinct : view.Distinct
  rows : ∀ side state, view.kept side = some state → state.rows = ∅

variable (view : KeyedRuntime)

/-- The inputs that an epoch applies: none if it was applied before. -/
def applied (logicalEpoch : LogicalEpoch) (idempotencyKey : String)
    (inputs : List RelationInputBatch) : List RelationInputBatch :=
  if view.progress.gate logicalEpoch idempotencyKey = .ok .replayed then [] else inputs

noncomputable def relationsAfter (relations : Side → ZSet)
    (inputs : List RelationInputBatch) (side : Side) : ZSet :=
  match view.kept side with
  | some state => relations side + zset (state.side.changes (state.side.ofRelation inputs))
  | none => relations side

/-- The state kept for a key is there exactly if the relation has a row with that key, and holds
the values of that row. -/
def Tracks (relations : Side → ZSet) : Prop :=
  ∀ side state, view.kept side = some state → RowsTrack state.make state.rows (relations side)

/-- Every primary key has at most one live row. -/
def Single (relations : Side → ZSet) : Prop :=
  ∀ side state, view.kept side = some state → SingleRows (relations side)

def ToldApart (view : KeyedRuntime) (inputs : List RelationInputBatch) : Prop :=
  ∀ side state, view.kept side = some state →
    state.side.ToldApart (state.side.ofRelation inputs)

/-- Of all records of a key that an epoch applies, that of the live row comes last. -/
def LiveLast (relations : Side → ZSet) (inputs : List RelationInputBatch) : Prop :=
  ∀ side state, view.kept side = some state →
    LiveRowsLast (state.side.listing (state.side.ofRelation inputs)) (relations side)

end KeyedRuntime

section Loops
variable {C : Type} {side : InputSide C} {sides : TwoSides C} {i : RelationInputBatch}
  {inputs : List RelationInputBatch} {progress progress' : Progress}

theorem InputSide.ofRelation_cons (h : i.relationId = side.schema.relationId) :
    side.ofRelation (i :: inputs) = i :: side.ofRelation inputs :=
  filter_cons_of_pos (decide_eq_true h)

theorem InputSide.ofRelation_cons_other (h : i.relationId ≠ side.schema.relationId) :
    side.ofRelation (i :: inputs) = side.ofRelation inputs :=
  filter_cons_of_neg (by simpa using h)

theorem TwoSides.applies (hne : sides.left.schema.relationId ≠ sides.right.schema.relationId)
    {rows later : SideRows C}
    (h : inputs.foldlM sides.stage (rows, progress) = .ok (later, progress')) :
    sides.left.Applies (sides.left.ofRelation inputs) rows.left later.left ∧
      sides.right.Applies (sides.right.ofRelation inputs) rows.right later.right := by
  induction inputs generalizing rows progress with
  | nil =>
    cases h
    exact ⟨applies_nil _, applies_nil _⟩
  | cons i inputs ih =>
    rw [foldlM_cons] at h
    obtain ⟨⟨middle, progress₁⟩, hs, hrest⟩ := bind_eq_ok.mp h
    obtain ⟨hl, hright⟩ := ih hrest
    obtain ⟨rows', hr, hs⟩ := bind_eq_ok.mp hs
    obtain ⟨_, -, hs⟩ := bind_eq_ok.mp hs
    cases hs
    rw [TwoSides.stageRows] at hr
    split at hr
    · obtain ⟨left, hstaged, hr⟩ := bind_eq_ok.mp hr
      cases hr
      have hid := relationId_of_stage hstaged
      rw [ofRelation_cons hid, ofRelation_cons_other (hid ▸ hne)]
      exact ⟨hl.cons hstaged, hright⟩
    · obtain ⟨right, hstaged, hr⟩ := bind_eq_ok.mp hr
      cases hr
      have hid := relationId_of_stage hstaged
      rw [ofRelation_cons hid, ofRelation_cons_other (hid ▸ hne.symm)]
      exact ⟨hl, hright.cons hstaged⟩
    · cases hr

end Loops

theorem RecursiveFixpointRuntime.applies {t : RecursiveFixpointRuntime}
    {inputs : List RelationInputBatch} {rows later : BaseRows} {progress progress' : Progress}
    (h : inputs.foldlM t.stage (rows, progress) = .ok (later, progress')) :
    t.side.Applies (t.side.ofRelation inputs) rows later := by
  induction inputs generalizing rows progress with
  | nil =>
    cases h
    exact applies_nil _
  | cons i inputs ih =>
    rw [foldlM_cons] at h
    obtain ⟨⟨middle, progress₁⟩, hs, hrest⟩ := bind_eq_ok.mp h
    rw [stage] at hs
    split_ifs at hs
    obtain ⟨rows', hstaged, hs⟩ := bind_eq_ok.mp hs
    obtain ⟨_, -, hs⟩ := bind_eq_ok.mp hs
    cases hs
    rw [ofRelation_cons (relationId_of_stage hstaged)]
    exact (ih hrest).cons hstaged

namespace AnalyticWindowFrameRuntime

theorem eq_append_of_recordsEnding {original : FrameRows} {rs done done' : List DeltaRecord}
    (h : recordsEnding original done rs = .completed done') : done' = done ++ rs := by
  induction rs generalizing done with
  | nil =>
    cases h
    exact (append_nil _).symm
  | cons r rs ih =>
    rw [recordsEnding] at h
    split_ifs at h
    rw [ih h, append_assoc]
    rfl

theorem listing_of_inputsEnding {t : AnalyticWindowFrameRuntime}
    {inputs : List RelationInputBatch} {progress : Progress} {done done' : List DeltaRecord}
    (h : inputsEnding t progress done inputs = .completed done') :
    done' = done ++ t.side.listing (t.side.ofRelation inputs) ∧
      ∀ i ∈ t.side.ofRelation inputs, ∃ rs, t.side.listed i = .ok rs := by
  induction inputs generalizing done progress with
  | nil =>
    cases h
    exact ⟨(append_nil _).symm, fun _ hi => absurd hi not_mem_nil⟩
  | cons i inputs ih =>
    rw [inputsEnding] at h
    cases hl : t.listed i with
    | error error =>
      rw [hl] at h
      cases h
    | ok rs =>
      simp only [hl] at h
      cases he : recordsEnding t.rows done rs with
      | restored | abandoned _ =>
        rw [he] at h
        cases h
      | completed middle =>
        simp only [he] at h
        cases ha : progress.advance i with
        | error error =>
          rw [ha] at h
          cases h
        | ok progress' =>
          simp only [ha] at h
          obtain ⟨hd, hall⟩ := ih h
          rw [listed_eq] at hl
          rw [ofRelation_cons (InputSide.relationId_of_listed hl),
            InputSide.listing_cons hl, hd, eq_append_of_recordsEnding he]
          refine ⟨append_assoc _ _ _, fun i' hi => ?_⟩
          rcases mem_cons.mp hi with rfl | hi
          · exact ⟨rs, hl⟩
          · exact hall i' hi

theorem applies {t : AnalyticWindowFrameRuntime} {inputs : List RelationInputBatch}
    {done : List DeltaRecord} {rows : FrameRows}
    (he : inputsEnding t t.progress [] inputs = .completed done)
    (hd : applyRecords (frameFormat t.plan) t.rows done = .ok rows) :
    t.side.Applies (t.side.ofRelation inputs) t.rows rows := by
  obtain ⟨heq, hl⟩ := listing_of_inputsEnding he
  rw [nil_append] at heq
  exact ⟨hl, heq ▸ hd⟩

end AnalyticWindowFrameRuntime

end Velorix.View
