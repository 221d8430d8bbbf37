import Velorix.Meta.Cuts
import Velorix.Meta.Owners

/-! The cut that a bootstrap is sealed at: when later captures still cover it. -/
namespace Velorix.Meta

open Contiguous InMemoryMetaState List IngestRangeReservation

variable {partition : IngestSourcePartitionCutV1} {control : ViewBootstrapControlV1}

/-- The offsets at which ranges of a relation start on a partition. -/
def InMemoryMetaState.startsOf (state : InMemoryMetaState)
    (relation : IngestSourceRelationIdentityV1) (slot : String × UInt32) : Set UInt64 :=
  { offset | ∃ range ∈ state.reservationsAt slot, range.relationIdentity = relation ∧
    range.startOffsetInclusive = offset }

/-- The lowest range of the relation starts at the base of the entry, and the committed ranges
that the entry counts are still there. -/
structure PartitionSealed (state : InMemoryMetaState) (relation : IngestSourceRelationIdentityV1)
    (partition : IngestSourcePartitionCutV1) : Prop where
  generations : partition.streamGeneration = ingestSourceIdentityGenerationV1 ∧
    partition.partitionGeneration = ingestSourceIdentityGenerationV1
  base : IsLeast (state.startsOf relation (partition.streamId, partition.partitionId))
    partition.baseOffsetInclusive
  tiles : ∃ ranges,
    RangesTile partition.baseOffsetInclusive partition.committedOffsetExclusive ranges ∧
      ∀ range ∈ ranges, range ∈ state.reservationsAt (partition.streamId, partition.partitionId) ∧
        range.relationIdentity = relation ∧ range.batchKey ∈ state.committedIngestBatchKeys

/-- The bootstrap of a scope is sealed at the cut. -/
structure CutSealed (scope : Scope) (cut : IngestSourceCutV1) (state : InMemoryMetaState) :
    Prop where
  control : ∃ control, state.viewBootstraps.lookup scope = some control ∧
    control.bootstrapCut = cut
  epoch : cut.inputCatalogEpoch ≤ state.ingestCatalogEpoch
  valid : CaptureIngestSourceCutRequest.validate
    ⟨cut.relations.map IngestSourceRelationCutV1.relation⟩ = .ok ()
  partitions : ∀ relationCut ∈ cut.relations, ∀ partition ∈ relationCut.partitions,
    PartitionSealed state relationCut.relation partition

section Covering
variable {rel : IngestSourceRelationIdentityV1}

variable {state : InMemoryMetaState} {scope : Scope} {cut : IngestSourceCutV1}
  {requested : List IngestSourceRelationIdentityV1} {key : SourceKey}

theorem mem_rangesOf_state (h : TableFiled state.reservationsAt) {r : IngestRangeReservation} :
    r ∈ rangesOf state.ingestReservations.values.flatten requested key ↔ key.relation ∈ requested ∧
        r ∈ state.reservationsAt (key.streamId, key.partitionId) ∧
        r.relationIdentity = key.relation := by
  rw [mem_rangesOf]
  constructor
  · intro ⟨hf, hr, hi, hslot⟩
    have hh := (valid_of_mem_flatten h hf).2
    rw [hslot] at hh
    exact ⟨hr, hh, hi⟩
  · intro ⟨hr, hh, hi⟩
    exact ⟨mem_flatten_values.mpr ⟨_, hh⟩, hr, hi, (h.valid _ _ hh).1⟩

theorem startsOf_eq (h : TableFiled state.reservationsAt) (hr : key.relation ∈ requested) :
    state.startsOf key.relation (key.streamId, key.partitionId) = { offset | ∃ r ∈
      rangesOf state.ingestReservations.values.flatten requested key,
        r.startOffsetInclusive = offset } := by
  ext offset
  constructor
  · rintro ⟨r, hh, hi, hs⟩
    exact ⟨r, (mem_rangesOf_state h).mpr ⟨hr, hh, hi⟩, hs⟩
  · rintro ⟨r, hmem, hs⟩
    obtain ⟨-, hh, hi⟩ := (mem_rangesOf_state h).mp hmem
    exact ⟨r, hh, hi, hs⟩

theorem partitionSealed_of_cut (h : TableFiled state.reservationsAt) (hk : key.relation = rel)
    (hne : rangesOf state.ingestReservations.values.flatten requested key ≠ [])
    (hp : PartitionCutOf state.committedIngestBatchKeys key
      (rangesOf state.ingestReservations.values.flatten requested key) partition) :
    PartitionSealed state rel partition := by
  subst hk
  have hslot : (partition.streamId, partition.partitionId) = (key.streamId, key.partitionId) := by
    rw [hp.streamId, hp.partitionId]
  obtain ⟨first, hf⟩ := exists_mem_of_ne_nil _ hne
  refine ⟨⟨hp.streamGeneration, hp.partitionGeneration⟩, ?_, ?_⟩
  · rw [hslot, startsOf_eq h ((mem_rangesOf_state h).mp hf).1, hp.base]
    exact baseOffset_isLeast hne
  · obtain ⟨rs, ht, hranges⟩ := tiles_of_reach
      startOffsetInclusive endOffsetExclusive
      (isCommitted state.committedIngestBatchKeys) partition.baseOffsetInclusive
      ((rangesOf state.ingestReservations.values.flatten requested key).insertionSort rangeLe)
    refine ⟨rs, ?_, ?_⟩
    · rw [hp.committed]
      exact ht
    · intro r hr
      obtain ⟨hmem, hd⟩ := hranges r hr
      obtain ⟨-, hh, hi⟩ :=
        (mem_rangesOf_state h).mp ((perm_insertionSort _ _).mem_iff.mp hmem)
      exact ⟨hslot ▸ hh, hi, of_decide_eq_true hd⟩

/-- The entry of a later cut under the same key covers the sealed entry. -/
theorem PartitionSealed.covers {found : IngestSourcePartitionCutV1}
    (h : PartitionSealed state rel partition) (hfiled : TableFiled state.reservationsAt)
    (hr : rel ∈ requested) (hrel : key.relation = rel) (hs : key.streamId = partition.streamId)
    (hpi : key.partitionId = partition.partitionId)
    (hf : PartitionCutOf state.committedIngestBatchKeys key
      (rangesOf state.ingestReservations.values.flatten requested key) found)
    (hne : rangesOf state.ingestReservations.values.flatten requested key ≠ []) :
    found.covers partition = true := by
  have hbase : found.baseOffsetInclusive = partition.baseOffsetInclusive := by
    have hl := h.base
    rw [← hs, ← hpi, ← hrel, startsOf_eq hfiled (hrel ▸ hr)]
      at hl
    rw [hf.base]
    exact (baseOffset_isLeast hne).unique hl
  have hreach : partition.committedOffsetExclusive ≤ found.committedOffsetExclusive := by
    obtain ⟨rs, ht, hranges⟩ := h.tiles
    have hv : ∀ r ∈ rangesOf state.ingestReservations.values.flatten requested key,
        r.validate = .ok () := fun r hmem =>
      (hfiled.valid _ r ((mem_rangesOf_state hfiled).mp hmem).2.1).2
    have hsort {r : IngestRangeReservation} :=
      (perm_insertionSort rangeLe
        (rangesOf state.ingestReservations.values.flatten requested key)).mem_iff (a := r)
    rw [hf.committed, hbase]
    apply Tiles.le_reach ht
    · apply ordered_insertionSort hv
      apply ((apart_flatten_values hfiled).sublist filter_sublist).imp_of_mem
      intro a b ha hb hab
      exact hab ((mem_rangesOf.mp ha).2.2.2.trans (mem_rangesOf.mp hb).2.2.2.symm)
    · intro r hmem
      exact start_lt_end_of_valid (hv r (hsort.mp hmem))
    · intro r hmem
      rw [← hbase, hf.base]
      exact (baseOffset_isLeast hne).2 ⟨r, hsort.mp hmem, rfl⟩
    · intro r hmem
      obtain ⟨hh, hi, hcom⟩ := hranges r hmem
      refine ⟨hsort.mpr ((mem_rangesOf_state hfiled).mpr ⟨hrel ▸ hr, ?_, ?_⟩),
        decide_eq_true hcom⟩
      · rw [hs, hpi]
        exact hh
      · rw [hi, hrel]
  simp only [IngestSourcePartitionCutV1.covers, Bool.and_eq_true, beq_iff_eq, decide_eq_true_eq]
  exact ⟨⟨⟨⟨⟨hf.streamId.trans hs, hf.streamGeneration.trans h.generations.1.symm⟩,
    hf.partitionId.trans hpi⟩,
    hf.partitionGeneration.trans h.generations.2.symm⟩, hbase⟩, hreach⟩

/-- The cut under the relations of a sealed cut can be built, and covers it. -/
theorem CutSealed.covered (h : CutSealed scope cut state)
    (hfiled : TableFiled state.reservationsAt) :
    ∃ later, state.buildCut (cut.relations.map IngestSourceRelationCutV1.relation) = .ok later ∧
      sourceCutCovers later cut = true := by
  obtain ⟨later, hl⟩ := buildCut_ok hfiled h.valid
  refine ⟨later, hl, ?_⟩
  have hspec := buildIngestSourceCut_spec hl
  unfold sourceCutCovers
  rw [Bool.and_eq_true, decide_eq_true_eq, hspec.epoch]
  refine ⟨h.epoch, ?_⟩
  rw [all_eq_true]
  intro relationCut hrc
  have hr : relationCut.relation ∈
      cut.relations.map IngestSourceRelationCutV1.relation := mem_map_of_mem hrc
  -- the later cut has an entry for every relation of the sealed one
  have hrelations : later.relations.map IngestSourceRelationCutV1.relation =
      cut.relations.map IngestSourceRelationCutV1.relation := hspec.relations
  have he := hr
  rw [← hrelations] at he
  obtain ⟨found, hf, hsame⟩ := mem_map.mp he
  rw [any_eq_true]
  refine ⟨found, hf, ?_⟩
  rw [Bool.and_eq_true, decide_eq_true_eq, all_eq_true]
  refine ⟨hsame, ?_⟩
  intro partition hp
  have hs := h.partitions relationCut hrc partition hp
  let key : SourceKey :=
    toLex (relationCut.relation, toLex (partition.streamId, partition.partitionId))
  have hne : rangesOf state.ingestReservations.values.flatten
      (cut.relations.map IngestSourceRelationCutV1.relation) key ≠ [] := by
    obtain ⟨r, hh, hi, -⟩ := hs.base.1
    exact ne_nil_of_mem ((mem_rangesOf_state hfiled).mpr ⟨hr, hh, hi⟩)
  obtain ⟨counted, hc, hcut⟩ := hspec.complete found hf key hsame.symm hne
  rw [any_eq_true]
  exact ⟨counted, hc, hs.covers hfiled hr rfl rfl rfl hcut hne⟩

end Covering

/-- What a step leaves of the ranges, the commits and the bootstraps; a new range is above the
bases that are sealed. -/
structure Growth (state next : InMemoryMetaState) : Prop where
  kept : ∀ slot held, held ∈ state.reservationsAt slot → held ∈ next.reservationsAt slot
  added : ∀ slot held, held ∈ next.reservationsAt slot → held ∈ state.reservationsAt slot ∨
    (held.slot = slot ∧ state.belowSealedBase held = false)
  committed : state.committedIngestBatchKeys ⊆ next.committedIngestBatchKeys
  epoch : state.ingestCatalogEpoch ≤ next.ingestCatalogEpoch
  controls : ∀ scope control, state.viewBootstraps.lookup scope = some control →
    ∃ control', next.viewBootstraps.lookup scope = some control' ∧
      control'.bootstrapCut = control.bootstrapCut

/-- `reserve_authoritative_ingest_range`, which does not check it, is asked only for ranges
above every sealed base. -/
def AboveSeals (state : InMemoryMetaState) : Event → Prop
  | .reserveAuthoritativeIngestRange request _ =>
    (state.reservationsAt request.reservation.slot).any (·.overlaps request.reservation) = false →
      state.belowSealedBase request.reservation = false
  | _ => True

section Sealing
variable {external : External} {state next : InMemoryMetaState} {e : Event} {scope : Scope}
  {cut : IngestSourceCutV1} {log : List Event}

theorem growth_of_same (ht : next.reservationsAt = state.reservationsAt)
    (hcom : state.committedIngestBatchKeys ⊆ next.committedIngestBatchKeys)
    (he : state.ingestCatalogEpoch ≤ next.ingestCatalogEpoch)
    (hc : ∀ scope control, state.viewBootstraps.lookup scope = some control →
      ∃ control', next.viewBootstraps.lookup scope = some control' ∧
        control'.bootstrapCut = control.bootstrapCut) : Growth state next := by
  refine ⟨?_, ?_, hcom, he, hc⟩
  · intro i held hh
    rw [ht]
    exact hh
  · intro i held hh
    rw [ht] at hh
    exact .inl hh

theorem added_of_push {reservation : IngestRangeReservation}
    (hs : state.belowSealedBase reservation = false) (i : String × UInt32)
    (held : IngestRangeReservation)
    (hh : held ∈ (state.pushReservation reservation).reservationsAt i) :
    held ∈ state.reservationsAt i ∨ (held.slot = i ∧ state.belowSealedBase held = false) := by
  rcases mem_reservationsAt_push.mp hh with hold | ⟨rfl, rfl⟩
  · exact .inl hold
  · exact .inr ⟨rfl, hs⟩

theorem subset_commitAll (committed : Finset String) (rs : List IngestRangeReservation) :
    committed ⊆ (commitAll committed rs).1 := by
  induction rs generalizing committed with
  | nil => exact Finset.Subset.refl _
  | cons reservation rs ih => exact (Finset.subset_insert _ _).trans (ih _)

theorem growth_of_effect (h : Effect external state e next) (hs : AboveSeals state e) :
    Growth state next := by
  have hc : ∀ scope control, state.viewBootstraps.lookup scope = some control →
      ∃ control', state.viewBootstraps.lookup scope = some control' ∧
        control'.bootstrapCut = control.bootstrapCut := fun _ control hf =>
    ⟨control, hf, rfl⟩
  have hk {reservation : IngestRangeReservation} (i : String × UInt32)
      (held : IngestRangeReservation) (hh : held ∈ state.reservationsAt i) :
      held ∈ (state.pushReservation reservation).reservationsAt i :=
    mem_reservationsAt_push.mpr (.inl hh)
  cases h with
  | reserved hv hb hfresh he =>
    exact ⟨hk, added_of_push hb, Finset.Subset.refl _, he.le, hc⟩
  | overflowed hv hb hfresh he =>
    exact ⟨hk, added_of_push hb, Finset.Subset.refl _, le_rfl, hc⟩
  | reservedAuthoritative hv hfresh =>
    exact ⟨hk, added_of_push (hs hfresh), Finset.Subset.refl _, le_rfl, hc⟩
  | committed hresv | publishedReservation hresv =>
    exact growth_of_same rfl (Finset.subset_insert _ _) le_rfl hc
  | committedAll hresv ho =>
    exact growth_of_same rfl (subset_commitAll _ _) le_rfl hc
  | began revisions hn hcut =>
    refine growth_of_same rfl (Finset.Subset.refl _) le_rfl ?_
    intro scope control hf
    exact ⟨control, HashMap.lookup_insert_of_some hn hf, rfl⟩
  | activated control' hevent hold hsame =>
    rename_i written control
    refine growth_of_same rfl (Finset.Subset.refl _) le_rfl ?_
    intro scope found hf
    show ∃ control'', (state.viewBootstraps.insert written control').lookup scope = some control''
      ∧ _
    rw [HashMap.lookup_insert_eq]
    split_ifs with hscope
    · rw [hscope, hold] at hf
      cases hf
      exact ⟨control', rfl, hsame⟩
    · exact ⟨found, hf, rfl⟩
  | rehashed hr =>
    refine growth_of_same (reservationsAt_rehashed hr) ?_ ?_ ?_
    · rw [hr.rest]
    · rw [hr.rest]
    · intro scope control hf
      rw [hr.viewBootstraps.lookup_eq] at hf
      exact ⟨control, hf, rfl⟩
  | _ => exact growth_of_same rfl (Finset.Subset.refl _) le_rfl hc

theorem base_le_of_aboveSeals {relationCut : IngestSourceRelationCutV1}
    {r : IngestRangeReservation} (hf : state.viewBootstraps.lookup scope = some control)
    (hrel : relationCut ∈ control.bootstrapCut.relations) (hp : partition ∈ relationCut.partitions)
    (hi : r.relationIdentity = relationCut.relation)
    (hslot : r.slot = (partition.streamId, partition.partitionId))
    (ha : state.belowSealedBase r = false) :
    partition.baseOffsetInclusive ≤ r.startOffsetInclusive := by
  by_contra hb
  have hseals : sealsAbove control r = true := by
    unfold sealsAbove
    rw [any_eq_true]
    refine ⟨relationCut, hrel, ?_⟩
    obtain ⟨hs, hpi⟩ := Prod.mk.inj hslot
    rw [← hi, hs, hpi]
    simp only [relationIdentity, BEq.rfl, Bool.true_and]
    rw [any_eq_true]
    refine ⟨partition, hp, ?_⟩
    simp only [BEq.rfl, Bool.true_and, decide_eq_true_eq]
    exact not_le.mp hb
  have hbase : state.belowSealedBase r = true := by
    unfold belowSealedBase
    rw [any_eq_true]
    exact ⟨control, HashMap.mem_values_iff.mpr ⟨scope, hf⟩, hseals⟩
  rw [ha] at hbase
  cases hbase

theorem CutSealed.step (h : CutSealed scope cut state) (hg : Growth state next) :
    CutSealed scope cut next := by
  obtain ⟨control, hf, rfl⟩ := h.control
  obtain ⟨control', hf', hcut⟩ := hg.controls scope control hf
  refine ⟨⟨control', hf', hcut⟩, h.epoch.trans hg.epoch, h.valid, ?_⟩
  intro relationCut hrel partition hp
  have hs := h.partitions relationCut hrel partition hp
  refine ⟨hs.generations, ⟨?_, ?_⟩, ?_⟩
  · obtain ⟨r, hh, hr⟩ := hs.base.1
    exact ⟨r, hg.kept _ r hh, hr⟩
  · rintro offset ⟨r, hh, hi, rfl⟩
    rcases hg.added _ r hh with hold | ⟨hslot, ha⟩
    · exact hs.base.2 ⟨r, hold, hi, rfl⟩
    · exact base_le_of_aboveSeals hf hrel hp hi hslot ha
  · obtain ⟨rs, ht, hranges⟩ := hs.tiles
    refine ⟨rs, ht, ?_⟩
    intro r hr
    obtain ⟨hh, hi, hcom⟩ := hranges r hr
    exact ⟨hg.kept _ r hh, hi, hg.committed hcom⟩

theorem cutSealed_of_began {rels : List IngestSourceRelationIdentityV1}
    (hfiled : TableFiled state.reservationsAt)
    (hcut : state.buildCut rels = .ok control.bootstrapCut)
    (hsame : next.reservationsAt = state.reservationsAt)
    (he : next.ingestCatalogEpoch = state.ingestCatalogEpoch)
    (hcom : next.committedIngestBatchKeys = state.committedIngestBatchKeys)
    (hf : next.viewBootstraps.lookup scope = some control) :
    CutSealed scope control.bootstrapCut next := by
  have hspec := buildIngestSourceCut_spec hcut
  refine ⟨⟨control, hf, rfl⟩, ?_, ?_, ?_⟩
  · rw [hspec.epoch, he]
  · rw [hspec.relations]
    exact hspec.valid
  · intro relationCut hrel partition hp
    obtain ⟨key, hk, hne, hp⟩ :=
      hspec.sound relationCut hrel partition hp
    have hs := partitionSealed_of_cut hfiled hk hne hp
    refine ⟨hs.generations, ?_, ?_⟩
    · unfold InMemoryMetaState.startsOf
      rw [hsame]
      exact hs.base
    · rw [hsame, hcom]
      exact hs.tiles

/-- Every bootstrap that a run has begun is sealed. -/
structure AllSealed (log : List Event) (state : InMemoryMetaState) : Prop where
  filed : Filed state
  isSealed : ∀ request control, .beginViewBootstrap request (.ok (.created control)) ∈ log →
    CutSealed request.scope control.bootstrapCut state
  relations : ∀ request control, .beginViewBootstrap request (.ok (.created control)) ∈ log →
    control.bootstrapCut.relations.map IngestSourceRelationCutV1.relation = request.relations

theorem AllSealed.step (h : AllSealed log state) (he : Effect external state e next)
    (hs : AboveSeals state e) : AllSealed (log ++ [e]) next := by
  have hb {q : BeginViewBootstrapRequest} {control : ViewBootstrapControlV1}
      (hevent : e = .beginViewBootstrap q (.ok (.created control))) :
      CutSealed q.scope control.bootstrapCut next ∧
        control.bootstrapCut.relations.map IngestSourceRelationCutV1.relation = q.relations := by
    subst hevent
    cases he with
    | refused hr => exact absurd rfl (hr control)
    | owned hevent hscope hm => cases hevent
    | activated control' hevent hold hsame => cases hevent
    | began revisions hfresh hcut =>
      exact ⟨cutSealed_of_began h.filed.legacy hcut rfl rfl rfl (AList.lookup_insert _),
        (buildIngestSourceCut_spec hcut).relations⟩
  refine ⟨h.filed.step he, ?_, ?_⟩
  · intro q control hmem
    rcases mem_append.mp hmem with hold | hn
    · exact (h.isSealed q control hold).step (growth_of_effect he hs)
    · exact (hb (mem_singleton.mp hn).symm).1
  · intro q control hmem
    rcases mem_append.mp hmem with hold | hn
    · exact h.relations q control hold
    · exact (hb (mem_singleton.mp hn).symm).2

theorem allSealed_of_trace
    (h : Trace (fun state e next => Step external state e next ∧ AboveSeals state e)
      {} log state) : AllSealed log state := by
  apply h.invariant (P := AllSealed)
  · exact ⟨filed_empty, fun _ _ hmem => absurd hmem not_mem_nil,
      fun _ _ hmem => absurd hmem not_mem_nil⟩
  · intro log state e next ha hs
    exact ha.step (effect_of_step hs.1) hs.2

end Sealing

/-- Everything that fixing the activation cut asks for, apart from what was ingested. -/
structure ReadyToFix (state : InMemoryMetaState) (now : UInt64) (request : ActivationRequest)
    (control : ViewBootstrapControlV1) : Prop where
  valid : request.validate = .ok ()
  owner : validateCurrentStandingRuntimeOwner (state.standingRuntimeOwners.lookup request.scope)
    request.owner now = .ok ()
  found : state.viewBootstraps.lookup request.scope = some control
  concerns : request.concerns control = true
  unfixed : control.activationCut = none
  bootstrapping : control.lifecycle = .bootstrapping
  checkpoint : ∃ checkpoint,
    state.standingRuntimeCheckpoints.lookup request.scope = some checkpoint ∧
      checkpoint.bootstrapGeneration = control.bootstrapGeneration ∧
      checkpoint.planHash = control.planHash ∧
      checkpointCoversSourceCut checkpoint control.bootstrapCut = true

/-- The cut of a bootstrap is covered by what can be captured now, and its activation cut can
be fixed as soon as the rest is ready. -/
structure StaysCovered (state : InMemoryMetaState) (request : BeginViewBootstrapRequest)
    (control : ViewBootstrapControlV1) : Prop where
  covered : ∃ cut, state.captureIngestSourceCut ⟨request.relations⟩ = .ok cut ∧
    sourceCutCovers cut control.bootstrapCut = true
  fixable : ∀ now activation current, activation.scope = request.scope →
    ReadyToFix state now activation current →
    ∃ fixed, (state.fixViewBootstrapActivationCut (.ok now) activation).2 = .ok (.fixed fixed)

section Activation
variable {external : External} {state : InMemoryMetaState} {log : List Event}

theorem fixed_of_covered {now : UInt64} {q : ActivationRequest} {cut : IngestSourceCutV1}
    (h : ReadyToFix state now q control)
    (hcut : state.buildCut
      (control.bootstrapCut.relations.map IngestSourceRelationCutV1.relation) = .ok cut)
    (hcovers : sourceCutCovers cut control.bootstrapCut = true) :
    (state.fixViewBootstrapActivationCut (.ok now) q).2 =
      .ok (.fixed { control with activationCut := some cut }) := by
  obtain ⟨c, hc, hg, hp, hcov⟩ := h.checkpoint
  simp only [fixViewBootstrapActivationCut, guarded, h.valid, h.owner, h.found,
    h.concerns, h.unfixed, h.bootstrapping, hc, hg, hp, hcov, hcut,
    hcovers]
  rfl

theorem sealed_cut_covered
    (h : Trace (fun state event next => Step external state event next ∧ AboveSeals state event)
      {} log state) {request : BeginViewBootstrapRequest} {control : ViewBootstrapControlV1}
    (hcreated : .beginViewBootstrap request (.ok (.created control)) ∈ log) :
    StaysCovered state request control := by
  have hall := allSealed_of_trace h
  have hsealed := hall.isSealed request control hcreated
  have hrelations := hall.relations request control hcreated
  obtain ⟨cut, hcut, hcovers⟩ := hsealed.covered hall.filed.legacy
  constructor
  · refine ⟨cut, ?_, hcovers⟩
    have hvalid := hsealed.valid
    rw [hrelations] at hcut hvalid
    exact checks_ok.mpr ⟨hvalid, hcut⟩
  · intro now activation current hscope hready
    obtain ⟨found, hfound, hsame⟩ := hsealed.control
    rw [← hscope, hready.found] at hfound
    cases hfound
    rw [← hsame] at hcut hcovers
    exact ⟨_, fixed_of_covered hready hcut hcovers⟩

end Activation

section BelowBase

def upperReserved : Answer ReserveIngestRangeOutcome :=
  reserveIngestRange {} (rangeOf 10 20 "k")

def bootstrapRequest : BeginViewBootstrapRequest where
  tenantId := "t"
  programId := "p"
  viewId := "v"
  planHash := "h"
  viewSpecJson := [0]
  relations := [sourceRelation]
  viewInputs := []
  expectedGraphRevision := 0

def bootstrapBegun : Answer BeginViewBootstrapOutcome :=
  upperReserved.1.beginViewBootstrap bootstrapRequest

def viewAuthorityRequest : AcquireAuthorityRequest := ⟨⟨"n", "v", "s", 0⟩, "w", none, 10⟩

def viewAuthority : Answer AcquireAuthorityOutcome :=
  bootstrapBegun.1.acquirePartitionAuthority viewAuthorityRequest

variable (reservation : IngestRangeReservation)

def authoritativeRequest : ReserveAuthoritativeRequest :=
  ⟨reservation, ⟨⟨"n", "v", "s", 0⟩, "w", 1, 10⟩⟩

/-- A range is reserved under an authority once the bootstrap has begun. -/
def reservedAfterSeal : Answer ReserveIngestRangeOutcome :=
  viewAuthority.1.reserveAuthoritativeIngestRange (authoritativeRequest reservation)

def sealLog : List Event :=
  [.reserveIngestRange (rangeOf 10 20 "k") upperReserved.2,
    .beginViewBootstrap bootstrapRequest bootstrapBegun.2,
    .acquirePartitionAuthority viewAuthorityRequest viewAuthority.2,
    .reserveAuthoritativeIngestRange (authoritativeRequest reservation)
      (reservedAfterSeal reservation).2]

/-- The control that the bootstrap begins with: its cut starts at offset 10. -/
def begunControl : ViewBootstrapControlV1 := bootstrapControl bootstrapRequest (cutUpTo 1 10 10)

theorem begun_mem_sealLog :
    .beginViewBootstrap bootstrapRequest (.ok (.created begunControl)) ∈ sealLog reservation := by
  have hb : bootstrapBegun.2 = .ok (.created begunControl) := by decide +kernel
  rw [← hb]
  exact mem_cons_of_mem _ mem_cons_self

/-- `reserve_authoritative_ingest_range` moves the base of a sealed cut. -/
theorem authoritativePath_breaks_seal :
    Trace (Step plainExternal) {} (sealLog (rangeOf 0 10 "l"))
        (reservedAfterSeal (rangeOf 0 10 "l")).1 ∧
      .beginViewBootstrap bootstrapRequest (.ok (.created begunControl)) ∈
        sealLog (rangeOf 0 10 "l") ∧
      ¬ StaysCovered (reservedAfterSeal (rangeOf 0 10 "l")).1 bootstrapRequest begunControl := by
  refine ⟨?_, begun_mem_sealLog _, ?_⟩
  · exact (((Trace.nil.snoc (.reserveIngestRange (Prod.mk.eta (p := upperReserved)).symm)).snoc
      (.beginViewBootstrap (Prod.mk.eta (p := bootstrapBegun)).symm)).snoc
      (.acquirePartitionAuthority (Prod.mk.eta (p := viewAuthority)).symm)).snoc
      (.reserveAuthoritativeIngestRange (Prod.mk.eta (p := reservedAfterSeal _)).symm)
  · intro h
    obtain ⟨cut, hcut, hcovers⟩ := h.covered
    have hcaptured : (reservedAfterSeal (rangeOf 0 10 "l")).1.captureIngestSourceCut
        ⟨bootstrapRequest.relations⟩ = .ok (cutUpTo 1 0 0) := by decide +kernel
    cases hcaptured.symm.trans hcut
    exact absurd hcovers (by decide +kernel)

theorem sealLog_covered :
    (reservedAfterSeal (rangeOf 20 30 "l")).2 = .ok .reserved ∧
      StaysCovered (reservedAfterSeal (rangeOf 20 30 "l")).1 bootstrapRequest begunControl := by
  refine ⟨by decide +kernel, ?_⟩
  have habove : AboveSeals viewAuthority.1 (.reserveAuthoritativeIngestRange
      (authoritativeRequest (rangeOf 20 30 "l")) (reservedAfterSeal (rangeOf 20 30 "l")).2) := by
    intro _
    decide +kernel
  have htrace : Trace (fun state event next =>
      Step plainExternal state event next ∧ AboveSeals state event) {}
      (sealLog (rangeOf 20 30 "l")) (reservedAfterSeal (rangeOf 20 30 "l")).1 :=
    (((Trace.nil.snoc ⟨.reserveIngestRange (Prod.mk.eta (p := upperReserved)).symm, trivial⟩).snoc
      ⟨.beginViewBootstrap (Prod.mk.eta (p := bootstrapBegun)).symm, trivial⟩).snoc
      ⟨.acquirePartitionAuthority (Prod.mk.eta (p := viewAuthority)).symm, trivial⟩).snoc
      ⟨.reserveAuthoritativeIngestRange (Prod.mk.eta (p := reservedAfterSeal _)).symm, habove⟩
  exact sealed_cut_covered htrace (begun_mem_sealLog _)

end BelowBase

section Promotion

/-- The control became active, with a checkpoint of its own that covers the activation cut. -/
def Promoted (control later : ViewBootstrapControlV1) : Prop :=
  control.lifecycle ≠ .active ∧ ∃ cut ∈ control.activationCut, ∃ checkpoint,
    checkpoint.bootstrapGeneration = control.bootstrapGeneration ∧
    checkpoint.planHash = control.planHash ∧ checkpointCoversSourceCut checkpoint cut = true ∧
    later = { control with
      lifecycle := .active
      activeCheckpoint := some checkpoint }

variable {external : External} {s next : InMemoryMetaState} {e : Event} {log : List Event}
  {scope : Scope} (hc : s.viewBootstraps.lookup scope = some control)
  (hf : control.activationCut.isSome)
include hc hf

theorem promoted_step (hs : Step external s e next) :
    ∃ later ∈ next.viewBootstraps.lookup scope, later = control ∨ Promoted control later := by
  by_cases he : e.concernsActivation = true
  · cases hs <;> cases he <;> rename_i h <;>
      simp only [fixViewBootstrapActivationCut, promoteViewBootstrap,
        promoteViewBootstrapWithActiveViewRecord, guarded] at h <;> (repeat' split at h) <;> cases h
    all_goals try exact ⟨control, hc, .inl rfl⟩
    -- A control is written, of this scope or of another one.
    all_goals
      rw [HashMap.lookup_insert_eq]
      split_ifs with hk
      · subst hk
        simp_all [Promoted, provesBootstrap]
      · exact ⟨control, hc, .inl rfl⟩
  · cases effect_of_step hs with
    | began _ hnew => exact ⟨control, HashMap.lookup_insert_of_some hnew hc, .inl rfl⟩
    | rehashed h => exact ⟨control, h.viewBootstraps.lookup_eq _ ▸ hc, .inl rfl⟩
    | activated _ hact => exact absurd hact he
    | _ => exact ⟨control, hc, .inl rfl⟩

/-- Once its activation cut is fixed, all that happens to a bootstrap is one promotion. -/
theorem promoted_once (ht : Trace (Step external) s log next) :
    ∃ later ∈ next.viewBootstraps.lookup scope, later = control ∨ Promoted control later := by
  induction ht with
  | nil => exact ⟨control, hc, .inl rfl⟩
  | snoc _ hs ih =>
    obtain ⟨later, hl, rfl | hp⟩ := ih
    · exact promoted_step hl hf hs
    · obtain ⟨-, _, -, _, -, -, -, rfl⟩ := id hp
      obtain ⟨_, hlast, rfl | ⟨hagain, -⟩⟩ := promoted_step hl hf hs
      · exact ⟨_, hlast, .inr hp⟩
      · exact absurd rfl hagain

end Promotion

/-- A checkpoint of the bootstrap that covers its cut. -/
def bootstrapCheckpoint : StandingRuntimeCheckpointPointer :=
  { firstPointer with
    bootstrapGeneration := 1
    planHash := "h"
    inputCoverage := some ⟨1, 1, "h", 1, [⟨"r", "1", 1, "f", [⟨"s", 1, 0, 1, 10, 10⟩]⟩]⟩ }

def bootstrapOwned : Answer AcquireStandingRuntimeOwnerOutcome :=
  bootstrapBegun.1.acquireStandingRuntimeOwner (.ok 0) (claimRequest "a")

def bootstrapPublish : PublishStandingRuntimeCheckpointRequest :=
  { firstPublish with candidate := bootstrapCheckpoint }

def bootstrapPublished : Answer PublishStandingRuntimeCheckpointOutcome :=
  bootstrapOwned.1.publishStandingRuntimeCheckpoint plainExternal (.ok 1) bootstrapPublish

def activation : ActivationRequest := ⟨"t", "p", "v", 1, "h", firstPublish.owner⟩

def cutFixed : Answer FixViewBootstrapActivationCutOutcome :=
  bootstrapPublished.1.fixViewBootstrapActivationCut (.ok 2) activation

def promotedFirst : Answer PromoteViewBootstrapOutcome :=
  cutFixed.1.promoteViewBootstrap plainExternal (.ok 3) ⟨activation, bootstrapCheckpoint⟩

def promotedAgain : Answer PromoteViewBootstrapOutcome :=
  promotedFirst.1.promoteViewBootstrap plainExternal (.ok 4) ⟨activation, bootstrapCheckpoint⟩

def fixedControl : ViewBootstrapControlV1 :=
  { begunControl with activationCut := some (cutUpTo 1 10 10) }

def activeControl : ViewBootstrapControlV1 :=
  { fixedControl with lifecycle := .active, activeCheckpoint := some bootstrapCheckpoint }

/-- A bootstrap is begun and published, its cut fixed, and then it is promoted two times. -/
theorem fixedControl_promoted_once : Trace (Step plainExternal) {}
      [.reserveIngestRange (rangeOf 10 20 "k") upperReserved.2,
        .beginViewBootstrap bootstrapRequest bootstrapBegun.2,
        .acquireStandingRuntimeOwner (.ok 0) (claimRequest "a") bootstrapOwned.2,
        .publishStandingRuntimeCheckpoint (.ok 1) bootstrapPublish bootstrapPublished.2,
        .fixViewBootstrapActivationCut (.ok 2) activation cutFixed.2] cutFixed.1 ∧
    cutFixed.2 = .ok (.fixed fixedControl) ∧ promotedFirst.2 = .ok (.promoted activeControl) ∧
    promotedAgain.2 = .ok (.duplicate activeControl) ∧
    ∃ later ∈ promotedAgain.1.viewBootstraps.lookup bootstrapRequest.scope,
      later = fixedControl ∨ Promoted fixedControl later := by
  refine ⟨?_, by decide +kernel, by decide +kernel, by decide +kernel, ?_⟩
  · exact ((((Trace.nil.snoc (.reserveIngestRange (Prod.mk.eta (p := upperReserved)).symm)).snoc
      (.beginViewBootstrap (Prod.mk.eta (p := bootstrapBegun)).symm)).snoc
      (.acquireStandingRuntimeOwner (Prod.mk.eta (p := bootstrapOwned)).symm)).snoc
      (.publishStandingRuntimeCheckpoint (Prod.mk.eta (p := bootstrapPublished)).symm)).snoc
      (.fixViewBootstrapActivationCut (Prod.mk.eta (p := cutFixed)).symm)
  · have hfixed : cutFixed.1.viewBootstraps.lookup bootstrapRequest.scope = some fixedControl := by
      decide +kernel
    exact promoted_once hfixed rfl ((Trace.nil.snoc
      (.promoteViewBootstrap (Prod.mk.eta (p := promotedFirst)).symm)).snoc
      (.promoteViewBootstrap (Prod.mk.eta (p := promotedAgain)).symm))

end Velorix.Meta
