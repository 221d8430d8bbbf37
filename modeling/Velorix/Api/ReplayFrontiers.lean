import Velorix.View.Epoch

/-!
What a published checkpoint of a standing runtime lets recovery skip.

A checkpoint record carries the input frontiers of its runtime and, for batches replayed from
the log, replay checkpoints of its own. A batch that either list covers is not applied again,
so the record is checked before it is published.
-/

namespace Velorix.Api

open View (RelationFrontier)
open Result List

structure ReplayCheckpoint where
  relationId : Option String
  relationVersion : Option String
  streamId : String
  partitionId : UInt32
  endOffsetExclusive : UInt64
  deriving DecidableEq

/-- What tells two replay checkpoints of one record apart, in the order records list them. -/
def ReplayCheckpoint.place (replay : ReplayCheckpoint) :
    String ×ₗ UInt32 ×ₗ WithBot String ×ₗ WithBot String :=
  toLex (replay.streamId, toLex (replay.partitionId,
    toLex (replay.relationId, replay.relationVersion)))

structure StandingRuntimeCheckpointRecord where
  viewId : String
  statePayload : Option ByteArray
  inputFrontiers : List RelationFrontier
  replayCheckpoints : List ReplayCheckpoint

inductive ReplayFrontierError where
  | noInputFrontier (viewId : String)
  | duplicateInputFrontier (viewId : String) (frontier : RelationFrontier)
  | duplicateReplayFrontier (viewId : String) (replay : ReplayCheckpoint)
  | aheadOfInputFrontier (viewId : String) (replay : ReplayCheckpoint) (checkpointEnd : UInt64)
  | lacksRelationMetadata (viewId : String) (replay : ReplayCheckpoint)
  | partialRelationMetadata (viewId : String) (replay : ReplayCheckpoint)

namespace StandingRuntimeCheckpointRecord

variable (record : StandingRuntimeCheckpointRecord)

/-- The index of the input frontiers, as the list of those it holds. -/
def inputFrontiersByRelation : Except ReplayFrontierError (List RelationFrontier) :=
  record.inputFrontiers.foldlM (fun index frontier =>
    if index.any fun other => other.sortKey = frontier.sortKey then
      .error (.duplicateInputFrontier record.viewId frontier)
    else .ok (frontier :: index)) []

def validateReplayEnd (replay : ReplayCheckpoint) (checkpointEnd : UInt64) :
    Except ReplayFrontierError Unit :=
  if replay.endOffsetExclusive > checkpointEnd then
    .error (.aheadOfInputFrontier record.viewId replay checkpointEnd)
  else .ok ()

def validateReplay (index : List RelationFrontier) (legacyFrontier : UInt64)
    (replay : ReplayCheckpoint) : Except ReplayFrontierError Unit :=
  match replay.relationId, replay.relationVersion with
  | some relationId, some relationVersion =>
    let get (streamId : String) (partitionId : UInt32) := index.find? fun frontier =>
      frontier.sortKey =
        toLex (relationId, toLex (relationVersion, toLex (streamId, partitionId)))
    match (get replay.streamId replay.partitionId).or (get "" 0) with
    | some frontier => record.validateReplayEnd replay frontier.committedOffsetExclusive
    -- no frontier to compare with: the source goes on to the next replay checkpoint
    | none => .ok ()
  | none, none =>
    if record.inputFrontiers.length = 1 then record.validateReplayEnd replay legacyFrontier
    else .error (.lacksRelationMetadata record.viewId replay)
  | _, _ => .error (.partialRelationMetadata record.viewId replay)

def validateStandingRuntimeCheckpointReplayFrontiers : Except ReplayFrontierError Unit :=
  if record.statePayload.isNone then .ok ()
  else if record.inputFrontiers.isEmpty && record.replayCheckpoints.isEmpty then .ok ()
  else match (record.inputFrontiers.map (·.committedOffsetExclusive)).max? with
    | none => .error (.noInputFrontier record.viewId)
    | some legacyFrontier => do
      let index ← record.inputFrontiersByRelation
      let _ ← record.replayCheckpoints.foldlM (fun seen replay =>
        if replay.place ∈ seen then .error (.duplicateReplayFrontier record.viewId replay)
        else do
          record.validateReplay index legacyFrontier replay
          return replay.place :: seen) []

end StandingRuntimeCheckpointRecord

/-- The end of the first replay checkpoint of the same place is raised, or a new one appended. -/
def mergeReplayCheckpoint (merged : List ReplayCheckpoint) (replay : ReplayCheckpoint) :
    List ReplayCheckpoint :=
  match merged with
  | [] => [replay]
  | existing :: rest =>
    if existing.place = replay.place then
      { existing with
        endOffsetExclusive := max existing.endOffsetExclusive replay.endOffsetExclusive } :: rest
    else existing :: mergeReplayCheckpoint rest replay

def mergedStandingRuntimeReplayCheckpoints (previous : Option StandingRuntimeCheckpointRecord)
    (toMerge : List ReplayCheckpoint) : List ReplayCheckpoint :=
  View.sortByKey ReplayCheckpoint.place
    (toMerge.foldl mergeReplayCheckpoint ((previous.map (·.replayCheckpoints)).getD []))

structure StandingRuntimeReplayPlan where
  replayCheckpoints : List ReplayCheckpoint
  inputFrontiers : List RelationFrontier

structure ReplayedBatch where
  relationId : String
  relationVersion : String
  streamId : String
  partitionId : UInt32
  endOffsetExclusive : UInt64

def ReplayCheckpoint.covers (replay : ReplayCheckpoint) (batch : ReplayedBatch) : Bool :=
  replay.relationId = some batch.relationId ∧
    replay.relationVersion = some batch.relationVersion ∧ replay.streamId = batch.streamId ∧
    replay.partitionId = batch.partitionId ∧
    replay.endOffsetExclusive ≥ batch.endOffsetExclusive

/-- The frontier is of the batch's relation and version, for its stream and partition or, as
older checkpoints have it, without a stream, and the batch ends before it. -/
def ReplayedBatch.appliedBelow (batch : ReplayedBatch) (frontier : RelationFrontier) : Bool :=
  frontier.relationId = batch.relationId ∧ frontier.relationVersion = batch.relationVersion ∧
    ((frontier.streamId = batch.streamId ∧ frontier.partitionId = batch.partitionId) ∨
      frontier.streamId = "") ∧ frontier.committedOffsetExclusive ≥ batch.endOffsetExclusive

def replayPlanCoversReplayedBatch (plan : StandingRuntimeReplayPlan) (batch : ReplayedBatch) :
    Bool :=
  plan.replayCheckpoints.any (·.covers batch) || plan.inputFrontiers.any batch.appliedBelow

theorem mem_mergeReplayCheckpoint {merged : List ReplayCheckpoint}
    {replay c : ReplayCheckpoint} (h : c ∈ mergeReplayCheckpoint merged replay) :
    c ∈ merged ∨ c = replay := by
  induction merged with
  | nil => exact .inr (mem_singleton.mp h)
  | cons existing rest ih =>
    rw [mergeReplayCheckpoint] at h
    split_ifs at h with hplace
    · rcases mem_cons.mp h with rfl | h
      · -- the larger end belongs to one of the two, and they agree on everything else
        rcases le_total replay.endOffsetExclusive existing.endOffsetExclusive with hle | hle
        · simp [max_eq_left hle]
        · cases existing
          cases replay
          cases hplace
          exact .inr (congrArg _ (max_eq_right hle))
      · simp [h]
    · rcases mem_cons.mp h with rfl | h
      · simp
      · exact (ih h).imp_left (mem_cons_of_mem existing)

theorem mem_merged {record : StandingRuntimeCheckpointRecord} {toMerge : List ReplayCheckpoint}
    {c : ReplayCheckpoint} (h : c ∈ mergedStandingRuntimeReplayCheckpoints (some record) toMerge) :
    c ∈ record.replayCheckpoints ∨ c ∈ toMerge := by
  have hf (merged : List ReplayCheckpoint)
      (h : c ∈ toMerge.foldl mergeReplayCheckpoint merged) :
      c ∈ merged ∨ c ∈ toMerge := by
    clear * - h
    induction toMerge generalizing merged with
    | nil => exact .inl h
    | cons replay toMerge ih =>
      rcases ih _ h with h | h
      · rcases mem_mergeReplayCheckpoint h with h | rfl <;> simp [*]
      · simp [h]
  exact hf _ ((perm_insertionSort _ _).mem_iff.mp h)

namespace StandingRuntimeCheckpointRecord

variable {record : StandingRuntimeCheckpointRecord}

theorem mem_inputFrontiersByRelation {index : List RelationFrontier}
    (h : record.inputFrontiersByRelation = .ok index) (frontier : RelationFrontier) :
    frontier ∈ index ↔ frontier ∈ record.inputFrontiers := by
  refine foldlM_ok_induct (P := fun seen index => frontier ∈ index ↔ frontier ∈ seen)
    h (by simp) ?_
  intro seen index other index' hi hs
  split_ifs at hs
  cases hs
  simp [hi, or_comm]

/-- The runtime of the record has applied the batch. -/
def Applied (record : StandingRuntimeCheckpointRecord) (batch : ReplayedBatch) : Prop :=
  ∃ frontier ∈ record.inputFrontiers, batch.appliedBelow frontier

/-- Whatever the record covers has been applied, and stays so when replay checkpoints that
cover only applied batches are merged in. -/
structure SkipsOnlyApplied (record : StandingRuntimeCheckpointRecord) : Prop where
  covered : ∀ batch, replayPlanCoversReplayedBatch
    ⟨record.replayCheckpoints, record.inputFrontiers⟩ batch → record.Applied batch
  merged : ∀ toMerge : List ReplayCheckpoint,
    (∀ replay ∈ toMerge, ∀ batch, replay.covers batch → record.Applied batch) →
    ∀ batch, replayPlanCoversReplayedBatch
      ⟨mergedStandingRuntimeReplayCheckpoints (some record) toMerge, record.inputFrontiers⟩ batch →
    record.Applied batch

theorem covered_iff {replays : List ReplayCheckpoint} :
    (∀ b, replayPlanCoversReplayedBatch ⟨replays, record.inputFrontiers⟩ b → record.Applied b) ↔
      ∀ replay ∈ replays, ∀ b, replay.covers b → record.Applied b := by
  simp only [replayPlanCoversReplayedBatch, Bool.or_eq_true, any_eq_true]
  exact ⟨fun h replay hr b hc => h b (.inl ⟨replay, hr, hc⟩), fun h b hc => hc.elim
      (fun ⟨replay, hr, hc⟩ => h replay hr b hc) id⟩

/-- A replay checkpoint with relation metadata that the check compares with a frontier: one of
its stream and partition or the stream-less one of partition 0. One that no frontier is found
for is left unchecked, and is harmless only below another stream-less frontier. -/
def Anchored (record : StandingRuntimeCheckpointRecord) (replay : ReplayCheckpoint) : Prop :=
  ∀ relationId ∈ replay.relationId, ∀ relationVersion ∈ replay.relationVersion,
    ∃ frontier ∈ record.inputFrontiers, frontier.relationId = relationId ∧
      frontier.relationVersion = relationVersion ∧
      ((frontier.streamId = replay.streamId ∧ frontier.partitionId = replay.partitionId) ∨
        frontier.streamId = "" ∧ (frontier.partitionId = 0 ∨
          replay.endOffsetExclusive ≤ frontier.committedOffsetExclusive))

section
variable {replay : ReplayCheckpoint} (hp : record.statePayload.isSome)
  (h : record.validateStandingRuntimeCheckpointReplayFrontiers = .ok ())
  (hr : replay ∈ record.replayCheckpoints)
include hp h hr

theorem validateReplay_of_accepted :
    ∃ index legacyFrontier, record.inputFrontiersByRelation = .ok index ∧
      record.validateReplay index legacyFrontier replay = .ok () := by
  have hn : record.replayCheckpoints.isEmpty = false := by
    simpa using ne_nil_of_mem hr
  simp only [validateStandingRuntimeCheckpointReplayFrontiers, hn, Bool.and_false,
    Bool.false_eq_true, if_false, Option.isNone_iff_eq_none, Option.ne_none_iff_isSome.mpr hp]
    at h
  split at h
  · exact nomatch h
  · rename_i legacyFrontier _
    obtain ⟨index, hi, h⟩ := bind_eq_ok.mp h
    obtain ⟨_, hf, -⟩ := bind_eq_ok.mp h
    refine ⟨index, legacyFrontier, hi, ?_⟩
    refine foldlM_ok_induct (P := fun seen _ => ∀ replay ∈ seen,
      record.validateReplay index legacyFrontier replay = .ok ()) hf (by simp) ?_ replay hr
    intro seen places replay places' hseen hs
    split_ifs at hs
    obtain ⟨_, hv, -⟩ := bind_eq_ok.mp hs
    simpa [or_imp, forall_and, hv] using hseen

/-- An accepted replay checkpoint ends before the frontier that anchors it. -/
theorem applied_of_anchored (ha : record.Anchored replay) {b : ReplayedBatch}
    (hc : replay.covers b) :
    record.Applied b := by
  obtain ⟨index, legacyFrontier, hi, hv⟩ := validateReplay_of_accepted hp h hr
  simp only [ReplayCheckpoint.covers, decide_eq_true_eq] at hc
  obtain ⟨hrel, hversion, hs, hpart, hend⟩ := hc
  simp only [validateReplay, hrel, hversion, RelationFrontier.sortKey] at hv
  simp only [Applied, ReplayedBatch.appliedBelow, decide_eq_true_eq]
  split at hv
  case h_1 frontier hg =>
    rw [validateReplayEnd] at hv
    split_ifs at hv with hle
    have hlast := hend.trans (not_lt.mp hle)
    rcases Option.or_eq_some_iff.mp hg with hg | ⟨-, hg⟩ <;>
      refine ⟨frontier, (mem_inputFrontiersByRelation hi frontier).mp
        (mem_of_find?_eq_some hg), ?_⟩ <;>
      have hplace := find?_some hg <;> simp_all
  case h_2 hg =>
    obtain ⟨anchor, hm, hid, hver, hplace⟩ := ha _ hrel _ hversion
    simp only [Option.or_eq_none_iff, find?_eq_none, mem_inputFrontiersByRelation hi]
      at hg
    have he := hg.1 anchor hm
    have hl := hg.2 anchor hm
    refine ⟨anchor, hm, hid, hver, ?_⟩
    grind

end

/-- Recovery skips only what the checkpoint has applied just when every replay checkpoint that
names a relation is anchored. -/
theorem skipsOnlyApplied_iff (hpayload : record.statePayload.isSome)
    (h : record.validateStandingRuntimeCheckpointReplayFrontiers = .ok ()) :
    record.SkipsOnlyApplied ↔ ∀ replay ∈ record.replayCheckpoints, record.Anchored replay := by
  constructor
  · intro hskips replay hreplay relationId hid relationVersion hversion
    -- a batch that ends where the replay checkpoint does
    obtain ⟨frontier, hfrontier, happlied⟩ := covered_iff.mp hskips.covered replay hreplay
      ⟨relationId, relationVersion, replay.streamId, replay.partitionId,
        replay.endOffsetExclusive⟩ (by simp_all [ReplayCheckpoint.covers])
    simp only [ReplayedBatch.appliedBelow, decide_eq_true_eq] at happlied
    obtain ⟨hrelation, hver, hplace, hend⟩ := happlied
    exact ⟨frontier, hfrontier, hrelation, hver, hplace.imp_right (⟨·, .inr hend⟩)⟩
  · intro hanchored
    have hcovers : ∀ replay ∈ record.replayCheckpoints, ∀ batch, replay.covers batch →
        record.Applied batch :=
      fun replay hreplay batch => applied_of_anchored hpayload h hreplay (hanchored replay hreplay)
    exact ⟨covered_iff.mpr hcovers, fun toMerge hmerge => covered_iff.mpr fun replay hreplay =>
      (mem_merged hreplay).elim (hcovers replay) (hmerge replay)⟩

def trades (replays : List ReplayCheckpoint) : StandingRuntimeCheckpointRecord :=
  ⟨"view", some .empty, [⟨"trades", "v1", "stream", 0, 5⟩], replays⟩

theorem trades_skipsOnlyApplied :
    (trades [⟨some "trades", some "v1", "stream", 0, 5⟩]).SkipsOnlyApplied :=
  (skipsOnlyApplied_iff rfl rfl).mpr (by simp [trades, Anchored])

/-- A replay checkpoint of a relation without any frontier passes the check, and its batches
are never applied. -/
theorem quotes_skipped :
    let record := trades [⟨some "quotes", some "v1", "stream", 0, 9⟩]
    record.statePayload.isSome ∧ record.validateStandingRuntimeCheckpointReplayFrontiers = .ok () ∧
      ∃ batch, replayPlanCoversReplayedBatch
        ⟨record.replayCheckpoints, record.inputFrontiers⟩ batch ∧ ¬record.Applied batch :=
  ⟨rfl, rfl, ⟨"quotes", "v1", "stream", 0, 9⟩, by decide, by
    simp [trades, Applied, ReplayedBatch.appliedBelow]⟩

end StandingRuntimeCheckpointRecord
end Velorix.Api
