import Velorix.View.FrameFailures
import Velorix.View.SemiAntiPublished

/-! The checkpoints of views over semi and anti joins. A restored view compares its rows with the
published ones in the order in which the join holds them, and not in their own order. -/
namespace Velorix.View

open Json Delta Native Result List ExistenceKind

namespace TwoInputSemiAntiJoinRuntime

def join (runtime : TwoInputSemiAntiJoinRuntime) : ExistenceJoin :=
  match runtime.graph.operators.find? semiAntiJoinNodeId with
  | some (.semiJoin join) | some (.antiJoin join) => join
  | _ => .new semiAntiJoinNodeId

/-- The rows that a restored view recomputes, in the order of the rows of the join. -/
def projectedRows (runtime : TwoInputSemiAntiJoinRuntime) : List (Value × Value) :=
  (retainedRows runtime.definition.plan.joinKind.definition runtime.join).filterMap fun row =>
    projectedPair runtime.definition.plan.projection row.pair

/-- The order of the left rows is the order of the rows that are made of them. -/
def Ordered (runtime : TwoInputSemiAntiJoinRuntime) : Prop :=
  runtime.projectedRows.Pairwise fun a b => encodeKvOrdered a.1 a.2 < encodeKvOrdered b.1 b.2

instance (runtime : TwoInputSemiAntiJoinRuntime) : Decidable runtime.Ordered := by
  unfold Ordered
  infer_instance

/-- No two different rows that a restored view recomputes are equal. -/
def ImagesDiffer (runtime : TwoInputSemiAntiJoinRuntime) : Prop :=
  ∀ a ∈ runtime.projectedRows, ∀ b ∈ runtime.projectedRows, a.1.eq b.1 = true →
    a.2.eq b.2 = true → a = b

structure Consistent (accepts : SemiAntiJoinDefinition → Bool) (keys : Set Value)
    (pairs : Set (Value × Value)) (runtime : TwoInputSemiAntiJoinRuntime) : Prop where
  contract : runtime.definition.contract = true
  accepted : accepts runtime.definition = true
  graph : runtime.graph =
    runtime.definition.plan.joinKind.graph runtime.progress.logicalEpoch runtime.join
  nodeId : runtime.join.nodeId = semiAntiJoinNodeId
  settled : runtime.join.Settled keys pairs
  published : Published runtime.definition.plan pairs runtime.join runtime.publishedOutput
  epochs : runtime.progress.EpochsFit
  frontiers : WellFormed runtime.progress.inputEventTimeFrontiers

section Runs
variable {format : ArrowFormat} {accepts : SemiAntiJoinDefinition → Bool} {keys : Set Value}
  {pairs : Set (Value × Value)} {runtime next : TwoInputSemiAntiJoinRuntime}

theorem join_of_graph {kind : ExistenceKind} {epoch : UInt64} {join : ExistenceJoin}
    (h : runtime.graph = kind.graph epoch join) (hn : join.nodeId = semiAntiJoinNodeId) :
    runtime.join = join := by
  rw [TwoInputSemiAntiJoinRuntime.join, h, find?_graph, if_pos hn]
  cases kind <;> rfl

theorem buildSemiAntiJoinGraph_ok (kind : ExistenceKind) :
    buildSemiAntiJoinGraph kind = .ok (kind.graph 0 (.new semiAntiJoinNodeId)) := by
  cases kind <;> rfl

variable {definition : SemiAntiJoinDefinition}

theorem consistent_new
    (h : new accepts definition = .ok runtime) : Consistent accepts keys pairs runtime := by
  rw [new] at h
  split_ifs at h with hc ha
  rw [buildSemiAntiJoinGraph_ok, ok_bind] at h
  cases h
  have hj : TwoInputSemiAntiJoinRuntime.join
      { definition, graph := definition.plan.joinKind.graph 0 (.new semiAntiJoinNodeId) } =
        .new semiAntiJoinNodeId := join_of_graph rfl rfl
  exact
    { contract := by simpa using hc
      accepted := by simpa using ha
      graph := by rw [hj]
      nodeId := by rw [hj]; rfl
      settled := by rw [hj]; exact ExistenceJoin.settled_new _
      published := by rw [hj]; exact published_new _ _
      epochs := epochsFit_start
      frontiers := ⟨fun _ h => absurd h not_mem_nil, nodup_nil⟩ }

/-- The records of the inputs are within the given keys and pairs. -/
def InputsIn (definition : SemiAntiJoinDefinition) (keys : Set Value) (pairs : Set (Value × Value))
    (inputs : List RelationInputBatch) : Prop :=
  ∀ input ∈ inputs, ∀ converted, definition.graphInput input = .ok converted →
    RecordsIn keys pairs converted.batch.records

variable {ins : List RelationInputBatch}

theorem stage_inputs
    {progress : Progress} {staged : List NativeOperatorInputV1 × Progress}
    (hi : InputsIn definition keys pairs ins) (hw : WellFormed progress.inputEventTimeFrontiers)
    (h : ins.foldlM definition.stage ([], progress) = .ok staged) :
    (∀ i ∈ staged.1, RecordsIn keys pairs i.batch.records) ∧
      WellFormed staged.2.inputEventTimeFrontiers ∧
      staged.2.appliedEpochs = progress.appliedEpochs := by
  refine foldlM_ok_induct
    (P := fun seen (staged : List NativeOperatorInputV1 × Progress) =>
      InputsIn definition keys pairs seen → (∀ i ∈ staged.1, RecordsIn keys pairs i.batch.records) ∧
          WellFormed staged.2.inputEventTimeFrontiers ∧
          staged.2.appliedEpochs = progress.appliedEpochs) h ?_ ?_ hi
  · exact fun _ => ⟨fun _ h => absurd h not_mem_nil, hw, rfl⟩
  · intro seen before i after hseen hs hin
    obtain ⟨hr, hb, hsame⟩ := hseen fun other ho =>
      hin other (mem_append_left _ ho)
    obtain ⟨_, -, hs⟩ := bind_eq_ok.mp hs
    obtain ⟨advanced, ha, hs⟩ := bind_eq_ok.mp hs
    obtain ⟨converted, hc, hs⟩ := bind_eq_ok.mp hs
    cases hs
    refine ⟨?_, hb.progress ha, (Progress.advance_same ha).1.trans hsame⟩
    intro other ho
    rcases mem_append.mp ho with ho | ho
    · exact hr other ho
    · cases mem_singleton.mp ho
      exact hin i (mem_append_right _ mem_cons_self) converted hc

variable {commit : EpochCommit}

theorem putBack_ne_ok {graph : NativeOperatorGraph} {before : NativeOperatorGraphCheckpointV1}
    {error : RuntimeError} :
    runtime.putBack graph before error ≠ (.ok commit, next) := by
  intro h
  rw [putBack] at h
  split at h <;> cases h

theorem publish_ok {o d later : DeltaBatch} {b : OutputBatch}
    (h : runtime.publish format o = .ok (d, later, b)) :
    projectFilterProjectDeltaBatch o runtime.definition.plan.projection = .ok d ∧
      applyPublishedOutputDelta runtime.publishedOutput d = .ok later := by
  obtain ⟨_, -, h⟩ := bind_eq_ok.mp h
  obtain ⟨_, hp, h⟩ := bind_eq_ok.mp h
  obtain ⟨_, happly, h⟩ := bind_eq_ok.mp h
  obtain ⟨_, -, h⟩ := bind_eq_ok.mp h
  cases h
  exact ⟨hp, happly⟩

/-- A successful epoch keeps a view consistent. -/
theorem Consistent.applyChanges (h : Consistent accepts keys pairs runtime)
    (ha : ToldApart runtime.definition.plan.projection keys pairs)
    {e : LogicalEpoch} {ikey : String} (hk : ikey.utf8ByteSize ≤ maxIdempotencyKeyBytes)
    (hi : InputsIn runtime.definition keys pairs ins)
    (hc : runtime.applyChanges format e ikey ins =
      (.ok commit, next)) : Consistent accepts keys pairs next := by
  rw [TwoInputSemiAntiJoinRuntime.applyChanges] at hc
  split at hc
  · cases hc
  · obtain ⟨-, rfl⟩ := Prod.mk.inj hc
    exact h
  · rename_i hg
    split at hc
    · cases hc
    · split at hc
      · exact absurd hc putBack_ne_ok
      · rename_i staged progress hstaged
        obtain ⟨hr, hw, hsame⟩ := stage_inputs hi h.frontiers hstaged
        rw [applyInputs] at hc
        split at hc
        · cases hc
        · exact absurd hc putBack_ne_ok
        · rename_i graph outs hepoch
          split at hc
          · exact absurd hc putBack_ne_ok
          · rename_i d later b hpublish
            rw [h.graph] at hepoch
            obtain ⟨join, rfl, hs, hn, ho, hd⟩ :=
              applyEpoch_graph h.settled ha.keysApart ha.pairsApart hr
                hepoch
            rw [h.nodeId] at hn ho hd
            obtain ⟨hp, happly⟩ := publish_ok hpublish
            have hpub := h.published.publish ha ho hd hp happly
            have he := h.epochs.commit hsame (Progress.gate_open hg) hk
            have hl : (progress.commit e ikey).logicalEpoch =
              e := rfl
            have hst := commit_inputEventTimeFrontiers progress e ikey
            rw [← hst] at hw
            obtain ⟨-, rfl⟩ := Prod.mk.inj hc
            generalize progress.commit e ikey = committed at *
            have hj : TwoInputSemiAntiJoinRuntime.join
                { runtime with
                  graph := runtime.definition.plan.joinKind.graph e join
                  publishedOutput := later
                  progress := committed } = join := join_of_graph rfl hn
            exact
              { contract := h.contract
                accepted := h.accepted
                graph := by rw [hj, hl]
                nodeId := by rw [hj]; exact hn
                settled := by rw [hj]; exact hs
                published := by rw [hj]; exact hpub
                epochs := he
                frontiers := hw }

/-- The states that successful epochs over told-apart rows reach. -/
inductive Reached (format : ArrowFormat) (accepts : SemiAntiJoinDefinition → Bool)
    (keys : Set Value) (pairs : Set (Value × Value)) : TwoInputSemiAntiJoinRuntime → Prop
  | new {definition : SemiAntiJoinDefinition} {runtime : TwoInputSemiAntiJoinRuntime}
      (hnew : new accepts definition = .ok runtime)
      (hapart : ToldApart definition.plan.projection keys pairs) :
      Reached format accepts keys pairs runtime
  | epoch {runtime next : TwoInputSemiAntiJoinRuntime} {logicalEpoch : LogicalEpoch}
      {idempotencyKey : String} {inputs : List RelationInputBatch} {commit : EpochCommit}
      (hreached : Reached format accepts keys pairs runtime)
      (hkey : idempotencyKey.utf8ByteSize ≤ maxIdempotencyKeyBytes)
      (hinputs : InputsIn runtime.definition keys pairs inputs)
      (hcall : runtime.applyChanges format logicalEpoch idempotencyKey inputs =
        (.ok commit, next)) : Reached format accepts keys pairs next

theorem applyChanges_definition (format : ArrowFormat) (runtime : TwoInputSemiAntiJoinRuntime)
    (e : LogicalEpoch) (ikey : String) (ins : List RelationInputBatch) :
    (runtime.applyChanges format e ikey ins).2.definition = runtime.definition := by
  unfold TwoInputSemiAntiJoinRuntime.applyChanges applyInputs putBack
  repeat' split
  all_goals rfl

theorem Reached.consistent (h : Reached format accepts keys pairs runtime) :
    Consistent accepts keys pairs runtime ∧
      ToldApart runtime.definition.plan.projection keys pairs := by
  induction h with
  | new hn ha =>
    refine ⟨consistent_new hn, ?_⟩
    rw [TwoInputSemiAntiJoinRuntime.new] at hn
    split_ifs at hn
    rw [buildSemiAntiJoinGraph_ok, ok_bind] at hn
    cases hn
    exact ha
  | @epoch runtime _ e ikey ins _ _ hk hi hc ih =>
    refine ⟨ih.1.applyChanges ih.2 hk hi hc, ?_⟩
    have hsame := applyChanges_definition format runtime e ikey ins
    rw [hc] at hsame
    rw [hsame]
    exact ih.2

/-- What a view of a consistent graph hands to the codec. -/
def payload (runtime : TwoInputSemiAntiJoinRuntime) : Payload :=
  ⟨runtime.definition, ⟨1, runtime.progress.logicalEpoch,
    [runtime.join.checkpoint runtime.definition.plan.joinKind.definition]⟩,
    runtime.publishedOutput, runtime.progress.inputFrontiers,
    runtime.progress.inputEventTimeFrontiers, runtime.progress.appliedEpochs.entries⟩

section
variable (h : Consistent accepts keys pairs runtime)
include h

/-- A checkpoint fails only where the codec fails. -/
theorem Consistent.checkpoint_cases {State : Type} (codec : StateCodec State) :
    (codec.toState runtime.payload = none ∧ runtime.checkpoint codec = .error invalidCheckpoint) ∨
      ∃ state, codec.toState runtime.payload = some state ∧ runtime.checkpoint codec =
        .ok ⟨runtime.progress.logicalEpoch, runtime.progress.inputFrontiers,
          runtime.progress.inputEventTimeFrontiers, state⟩ := by
  have hg : runtime.graph.checkpoint = .ok ⟨1, runtime.progress.logicalEpoch,
      [runtime.join.checkpoint runtime.definition.plan.joinKind.definition]⟩ := by
    rw [h.graph]
    exact graph_checkpoint _ _ _
  rw [TwoInputSemiAntiJoinRuntime.checkpoint, hg]
  simp only [Except.mapError, ok_bind]
  split
  · rename_i hnone
    exact .inl ⟨hnone, rfl⟩
  · rename_i state hsome
    exact .inr ⟨state, hsome, rfl⟩

theorem Consistent.validatePublishedOutput_ok :
    validatePublishedOutput runtime.publishedOutput = .ok () := by
  rw [validatePublishedOutput, h.published.consolidated.netRows]
  refine forM_ok fun row hrow => ?_
  rw [if_neg (not_not.mpr (h.published.once row hrow))]

theorem Consistent.catalog_ok : ∃ catalog, catalogForRelationId runtime.definition.catalogs
      runtime.definition.plan.leftInputRelationId = .ok catalog := by
  have hc := h.contract
  rw [SemiAntiJoinDefinition.contract] at hc
  split at hc
  · rename_i left _ hl _
    dsimp only at hl
    exact ⟨left, by rw [catalogForRelationId, hl]⟩
  · cases hc

theorem Consistent.retained_positive :
    ∀ row ∈ retainedRows runtime.definition.plan.joinKind.definition runtime.join,
      0 < row.weight.val :=
  fun row hrow => h.settled.sound.left.positive row (mem_filter.mp hrow).1

theorem Consistent.images : ∃ images, projectFilterProjectDeltaBatch
      ⟨retainedRows runtime.definition.plan.joinKind.definition runtime.join⟩
      runtime.definition.plan.projection = .ok images := by
  have hp : ∀ row ∈ retainedRows runtime.definition.plan.joinKind.definition runtime.join,
      ∃ image, projectRecord runtime.definition.plan.projection row = .ok image := by
    intro row hrow
    have hw := DeltaBatch.le_pairWeight h.retained_positive hrow
    have hpositive := h.retained_positive row hrow
    have hretained : runtime.join.retained runtime.definition.plan.joinKind.definition row.pair ≠
        0 := by
      rw [← zset_retainedRows, zset_apply]
      omega
    obtain ⟨image, himage⟩ := h.published.projects row.pair hretained
    exact ⟨⟨image.1, image.2, row.weight⟩, by rw [projectRecord, himage]; rfl⟩
  obtain ⟨rs, hr⟩ := mapM_ok_of_forall hp
  exact ⟨⟨rs⟩, by rw [projectFilterProjectDeltaBatch, hr]; rfl⟩

end

variable {images : DeltaBatch}

/-- A view is restored if its event times are known and its rows are the published ones. -/
theorem Consistent.restore_cases (h : Consistent accepts keys pairs runtime)
    (hkeys : KeysApart keys) {State : Type} {state : State}
    (hi : projectFilterProjectDeltaBatch
      ⟨retainedRows runtime.definition.plan.joinKind.definition runtime.join⟩
      runtime.definition.plan.projection = .ok images) :
    (restorePayload accepts ⟨runtime.progress.logicalEpoch, runtime.progress.inputFrontiers,
          runtime.progress.inputEventTimeFrontiers, state⟩ runtime.payload = .ok runtime ∧
        EventTimesKnown runtime.definition.catalogs runtime.progress.inputEventTimeFrontiers ∧
        images.eq runtime.publishedOutput = true) ∨
      ((∃ error, restorePayload accepts ⟨runtime.progress.logicalEpoch,
          runtime.progress.inputFrontiers, runtime.progress.inputEventTimeFrontiers, state⟩
          runtime.payload = .error error) ∧
        ¬ (EventTimesKnown runtime.definition.catalogs runtime.progress.inputEventTimeFrontiers ∧
          images.eq runtime.publishedOutput = true)) := by
  have hh : ¬ (runtime.progress.logicalEpoch ≠ runtime.progress.logicalEpoch ∨
      runtime.progress.inputFrontiers ≠ runtime.progress.inputFrontiers ∨
      runtime.progress.inputEventTimeFrontiers ≠ runtime.progress.inputEventTimeFrontiers) := by
    simp
  have ha : ¬ ((!runtime.definition.contract) = true ∨ (!accepts runtime.definition) = true) := by
    rw [h.contract, h.accepted]
    decide
  obtain ⟨catalog, hc⟩ := h.catalog_ok
  have hexpected : expectedSemiAntiOutput ⟨1, runtime.progress.logicalEpoch,
      [runtime.join.checkpoint runtime.definition.plan.joinKind.definition]⟩
      runtime.definition.plan.joinKind = .ok _ :=
    expectedSemiAntiOutput_ok h.settled hkeys h.nodeId runtime.progress.logicalEpoch
  have hv : validateInputEventTimeFrontiersForCatalogs runtime.definition.catalogs []
      runtime.progress.inputEventTimeFrontiers = .ok () ↔ _ :=
    validateFrontiers_iff h.frontiers fun _ _ => not_mem_nil
  unfold payload
  simp only [restorePayload]
  rw [if_neg hh, if_neg ha]
  cases hk : validateInputEventTimeFrontiersForCatalogs runtime.definition.catalogs []
      runtime.progress.inputEventTimeFrontiers with
  | error error =>
    refine .inr ⟨⟨error, rfl⟩, fun hb => ?_⟩
    rw [hv.mpr hb.1] at hk
    cases hk
  | ok _ =>
    rw [ok_bind, h.validatePublishedOutput_ok, ok_bind, hexpected, ok_bind,
      hc, ok_bind, hi, ok_bind]
    cases hequal : images.eq runtime.publishedOutput with
    | false => exact .inr ⟨⟨invalidCheckpoint, rfl⟩, fun hb => Bool.noConfusion hb.2⟩
    | true =>
      have he : retainRecentAppliedEpochs
          (.ofList runtime.progress.appliedEpochs.entries) = runtime.progress.appliedEpochs := by
        rw [SortedMap.ofList_entries, h.epochs.retained.retain_eq]
      have hr : (runtime.definition.plan.joinKind.graph 0 (.new semiAntiJoinNodeId)).restore
          ⟨1, runtime.progress.logicalEpoch,
            [runtime.join.checkpoint runtime.definition.plan.joinKind.definition]⟩ =
          (_, .ok ()) := graph_restore h.settled.sound h.nodeId.symm
      refine .inl ⟨?_, hv.mp hk, rfl⟩
      rw [buildSemiAntiJoinGraph_ok, ok_bind, hr]
      dsimp only
      rw [he, h.epochs.appliedEpochsFit, ← h.graph]
      rfl

theorem filterMap_projectedPair {plan : SupportedFilterProjectPlan} {rows images : List DeltaRecord}
    (h : List.Forall₂ (fun row image => projectRecord plan row = .ok image) rows images) :
    rows.filterMap (fun row => projectedPair plan row.pair) = images.map DeltaRecord.pair := by
  induction h with
  | nil => rfl
  | @cons row image rows images hh _ ih =>
    have hp : projectedPair plan row.pair = some image.pair :=
      toOption_eq_some.mpr (projectRecord_ok hh).1
    rw [filterMap_cons, hp, map_cons, ih]

theorem projectedRows_eq
    (hi : projectFilterProjectDeltaBatch
      ⟨retainedRows runtime.definition.plan.joinKind.definition runtime.join⟩
      runtime.definition.plan.projection = .ok images) :
    runtime.projectedRows = images.records.map DeltaRecord.pair := by
  obtain ⟨rs, hr, h⟩ := bind_eq_ok.mp hi
  cases h
  exact filterMap_projectedPair (mapM_eq_ok.mp hr)

theorem Consistent.images_perm (h : Consistent accepts keys pairs runtime)
    (hi : projectFilterProjectDeltaBatch
      ⟨retainedRows runtime.definition.plan.joinKind.definition runtime.join⟩
      runtime.definition.plan.projection = .ok images) :
    images.records.Perm runtime.publishedOutput.records := by
  refine DeltaBatch.perm_of_zset_eq ?_ h.published.consolidated.pairs_nodup h.published.once ?_
  · intro image himage
    obtain ⟨row, hrow, -, hw⟩ := exists_of_mem_project hi himage
    rw [hw]
    exact h.retained_positive row hrow
  · rw [zset_project hi, h.published.rows, zset_retainedRows]

/-- Where the codec fails there is no checkpoint. Else, once the rows of the join are in the order
of the published rows, a checkpoint of a known event time brings back the view; and a view that
comes back has its rows in that order. -/
theorem Reached.restores_when_ordered {State : Type} {codec : StateCodec State}
    (hcodec : codec.Lossless) (h : Reached format accepts keys pairs runtime) :
    (codec.toState runtime.payload = none ∧ runtime.checkpoint codec = .error invalidCheckpoint) ∨
    ∃ saved, runtime.checkpoint codec = .ok saved ∧
      (runtime.Ordered → EventTimesKnown runtime.definition.catalogs
        runtime.progress.inputEventTimeFrontiers → restore codec accepts saved = .ok runtime) ∧
      ∀ restored, restore codec accepts saved = .ok restored →
        EventTimesKnown runtime.definition.catalogs runtime.progress.inputEventTimeFrontiers ∧
          (runtime.ImagesDiffer → runtime.Ordered) := by
  obtain ⟨hconsistent, hapart⟩ := h.consistent
  obtain ⟨images, himages⟩ := hconsistent.images
  have hperm := hconsistent.images_perm himages
  have hprojected := projectedRows_eq himages
  have hordered : runtime.Ordered ↔ images.records.Pairwise fun a b => a.encoding < b.encoding := by
    rw [Ordered, hprojected, pairwise_map]
    rfl
  refine (hconsistent.checkpoint_cases codec).imp_right ?_
  rintro ⟨state, hstate, hsaved⟩
  refine ⟨_, hsaved, ?_⟩
  simp only [restore, hcodec _ _ hstate]
  constructor
  · intro hrows hknown
    rcases hconsistent.restore_cases hapart.keysApart himages with
      ⟨hrestored, -, -⟩ | ⟨-, hrefused⟩
    · exact hrestored
    · have hsame : images.records = runtime.publishedOutput.records :=
        hperm.eq_of_pairwise (fun a b _ _ hab hba => absurd (hab.trans hba) (lt_irrefl _))
          (hordered.mp hrows) hconsistent.published.consolidated.ascending
      refine absurd ⟨hknown, ?_⟩ hrefused
      rw [DeltaBatch.eq, hsame]
      exact DeltaBatch.eqRecords_self _
  · intro restored hrestored
    rcases hconsistent.restore_cases hapart.keysApart himages with
      ⟨-, hknown, hequal⟩ | ⟨⟨error, herror⟩, -⟩
    · refine ⟨hknown, fun hdiffer => hordered.mpr ?_⟩
      have hmem {row : DeltaRecord} (hrow : row ∈ images.records) :
          row.pair ∈ runtime.projectedRows := by
        rw [hprojected]
        exact mem_map_of_mem hrow
      have hsame : images.records = runtime.publishedOutput.records :=
        records_eq_of_eq (fun a ha b hb hkey hvalue =>
          hdiffer _ (hmem ha) _ (hmem (hperm.mem_iff.mpr hb)) hkey hvalue) hequal
      rw [hsame]
      exact hconsistent.published.consolidated.ascending
    · rw [hrestored] at herror
      cases herror

end Runs

open AnalyticWindowFrameRuntime (plainFormat plainColumn smallCell smallValue)

def regionCatalog (relationId : String) : Catalog where
  relationId
  relationVersion := "1"
  schemaFingerprint := "f"
  columns := [plainColumn "id", plainColumn "region", plainColumn "weight"]
  primaryKeyColumnIds := ["id"]
  weightColumnId := "weight"
  supported := true

def regionDefinition : SemiAntiJoinDefinition where
  view := ⟨"v", ⟨"v", "1", "g", [⟨"id", .int64, false⟩, ⟨"region", .int64, false⟩], ["id"]⟩⟩
  catalogs := [regionCatalog "orders", regionCatalog "customers"]
  inputSchemas := [⟨"orders", "1", "f", [], []⟩, ⟨"customers", "1", "f", [], []⟩]
  plan := ⟨.semi, "orders", "customers", "region", "region",
    ⟨"orders", "id", "id", some "id", [⟨"region", "region", none⟩]⟩⟩

/-- Rows 1 and 2 of a relation, with their regions. -/
def regionInput (relationId : String) (first second : Fin 1000) : RelationInputBatch where
  relationId
  relationVersion := "1"
  streamId := relationId
  partitionId := 0
  schemaFingerprint := "f"
  startOffsetInclusive := 0
  endOffsetExclusive := 2
  eventTimeWatermark := none
  encoding := .sourceRelation
  batches := [⟨(regionCatalog relationId).fields,
    [[smallCell 1, smallCell first, smallCell 1], [smallCell 2, smallCell second, smallCell 1]]⟩]

def regionInputs (first second : Fin 1000) : List RelationInputBatch :=
  [regionInput "orders" first second, regionInput "customers" 1 2]

def regionStart : TwoInputSemiAntiJoinRuntime :=
  ⟨regionDefinition, ExistenceKind.semi.graph 0 (.new semiAntiJoinNodeId), .empty, {}⟩

def regionView (first second : Fin 1000) : TwoInputSemiAntiJoinRuntime :=
  (regionStart.applyChanges plainFormat 1 "first" (regionInputs first second)).2

/-- The records that inputs are converted to. -/
def convertedRecords (definition : SemiAntiJoinDefinition) (inputs : List RelationInputBatch) :
    List DeltaRecord :=
  inputs.flatMap fun input =>
    ((definition.graphInput input).toOption.map (·.batch.records)).getD []

theorem inputsIn_converted (definition : SemiAntiJoinDefinition) (ins : List RelationInputBatch) :
    InputsIn definition {key | key ∈ (convertedRecords definition ins).map DeltaRecord.key}
      {p | p ∈ (convertedRecords definition ins).map DeltaRecord.pair} ins := by
  intro i hi converted hc r hr
  have hm : r ∈ convertedRecords definition ins := by
    refine mem_flatMap.mpr ⟨i, hi, ?_⟩
    rw [hc]
    exact hr
  exact ⟨mem_map_of_mem hm, mem_map_of_mem hm⟩

theorem toldApart_of_lists {plan : SupportedFilterProjectPlan} {keys : List Value}
    {pairs : List (Value × Value)} (hkeys : ∀ a ∈ keys, ∀ b ∈ keys, a.eq b = true → a = b)
    (hpairs : ∀ a ∈ pairs, ∀ b ∈ pairs, encodeKvOrdered a.1 a.2 = encodeKvOrdered b.1 b.2 → a = b)
    (hi : ∀ a ∈ pairs.filterMap (projectedPair plan), ∀ b ∈ pairs.filterMap (projectedPair plan),
        encodeKvOrdered a.1 a.2 = encodeKvOrdered b.1 b.2 → a = b) :
    ToldApart plan {key | key ∈ keys} {p | p ∈ pairs} := by
  have hm {image : Value × Value} (h : ∃ p ∈ pairs, projectPair plan p = .ok image) :
      image ∈ pairs.filterMap (projectedPair plan) := by
    obtain ⟨p, hp, himage⟩ := h
    exact mem_filterMap.mpr ⟨p, hp, toOption_eq_some.mpr himage⟩
  exact ⟨hkeys, hpairs, fun a ha b hb => hi a (hm ha) b (hm hb)⟩

theorem regionStart_new : new (fun _ => true) regionDefinition = .ok regionStart := rfl

theorem applyChanges_of_isOk {format : ArrowFormat} {runtime : TwoInputSemiAntiJoinRuntime}
    {e : LogicalEpoch} {ikey : String} {ins : List RelationInputBatch}
    (h : (runtime.applyChanges format e ikey ins).1.isOk = true) :
    ∃ commit, runtime.applyChanges format e ikey ins =
      (.ok commit, (runtime.applyChanges format e ikey ins).2) := by
  generalize runtime.applyChanges format e ikey ins = call at h ⊢
  obtain ⟨outcome, next⟩ := call
  cases outcome with
  | error error => cases h
  | ok commit => exact ⟨commit, rfl⟩

/-- A codec for payloads of views with at most so many rows. -/
def boundedCodec (rows : ℕ) : StateCodec Payload where
  toState payload := if payload.publishedOutput.records.length ≤ rows then some payload else none
  fromState := some

theorem boundedCodec_lossless (rows : ℕ) : (boundedCodec rows).Lossless := by
  intro payload state h
  simp only [boundedCodec] at h
  split_ifs at h
  exact h.symm

/-- Rows in the order of their regions come back. -/
theorem regionView_restores : ∃ saved, (regionView 1 2).checkpoint (boundedCodec 2) = .ok saved ∧
    restore (boundedCodec 2) (fun _ => true) saved = .ok (regionView 1 2) := by
  obtain ⟨commit, hcall⟩ : ∃ commit, regionStart.applyChanges plainFormat 1 "first"
      (regionInputs 1 2) = (.ok commit, regionView 1 2) := applyChanges_of_isOk (by decide +kernel)
  have hapart : ToldApart regionDefinition.plan.projection
      {key | key ∈ (convertedRecords regionDefinition (regionInputs 1 2)).map DeltaRecord.key}
      {pair | pair ∈ (convertedRecords regionDefinition (regionInputs 1 2)).map DeltaRecord.pair} :=
    toldApart_of_lists (by decide +kernel) (by decide +kernel) (by decide +kernel)
  have hstart : Reached plainFormat (fun _ => true) _ _ regionStart := .new regionStart_new hapart
  have hkey : "first".utf8ByteSize ≤ maxIdempotencyKeyBytes := by decide +kernel
  have hordered : (regionView 1 2).Ordered := by decide +kernel
  have htimes : (regionView 1 2).progress.inputEventTimeFrontiers = [] := by decide +kernel
  have hfits : ((boundedCodec 2).toState (regionView 1 2).payload).isSome = true := by
    decide +kernel
  obtain ⟨hnone, -⟩ | ⟨saved, hsaved, hrestored, -⟩ := Reached.restores_when_ordered
    (boundedCodec_lossless 2)
    (hstart.epoch hkey (inputsIn_converted regionDefinition (regionInputs 1 2)) hcall)
  · rw [hnone] at hfits
    cases hfits
  · refine ⟨saved, hsaved, hrestored hordered ?_⟩
    rw [htimes]
    exact fun _ h => absurd h not_mem_nil

/-- Rows in another order do not. -/
theorem regionView_refused :
    new (fun _ => true) regionDefinition = .ok regionStart ∧
    (regionStart.applyChanges plainFormat 1 "first" (regionInputs 2 1)).1.isOk = true ∧
    ((regionView 2 1).checkpoint (boundedCodec 2)).isOk = true ∧
    ((regionView 2 1).checkpoint (boundedCodec 2) >>=
      restore (boundedCodec 2) fun _ => true).map (fun _ => ()) = .error invalidCheckpoint :=
  ⟨regionStart_new, by decide +kernel, by decide +kernel, by decide +kernel⟩

end TwoInputSemiAntiJoinRuntime

end Velorix.View
