import Velorix.Foundation.Contiguous
import Velorix.Meta.Reservations

/-! Cuts captured from committed batch keys: what they are made of, and when every range that
they count was committed itself. -/
namespace Velorix.Meta

open Contiguous Result IngestRangeReservation List InMemoryMetaState SortedMap

local instance identityLawfulBEq : LawfulBEq IngestSourceRelationIdentityV1 := inferInstance

/-- The relation and the partition under which a reservation is counted. -/
def groupKey (requested : List IngestSourceRelationIdentityV1)
    (reservation : IngestRangeReservation) : Option SourceKey :=
  if reservation.relationIdentity ∈ requested then
    some (sourceKey reservation.relationIdentity reservation)
  else none

/-- The ranges of a relation on a partition lead from one offset to another. -/
abbrev RangesTile : UInt64 → UInt64 → List IngestRangeReservation → Prop :=
  Tiles startOffsetInclusive endOffsetExclusive

section Building
variable {requested : List IngestSourceRelationIdentityV1} {reservation : IngestRangeReservation}
  {rs group ranges : List IngestRangeReservation}
  {grouped : SortedMap SourceKey (List IngestRangeReservation)} {key : SourceKey}
  {committed : Finset String} {q : CaptureIngestSourceCutRequest} {epoch : UInt64}
  {cut : IngestSourceCutV1} {partition : IngestSourcePartitionCutV1}

theorem groupKey_eq_some : groupKey requested reservation = some key ↔
    key.relation ∈ requested ∧ reservation.relationIdentity = key.relation ∧
      reservation.slot = (key.streamId, key.partitionId) := by
  unfold groupKey
  constructor
  · intro h
    split_ifs at h with hm
    cases h
    exact ⟨hm, rfl, rfl⟩
  · intro ⟨hm, hr, hslot⟩
    rw [if_pos (hr ▸ hm), hr]
    obtain ⟨hs, hp⟩ := Prod.mk.inj hslot
    rw [sourceKey, hs, hp]
    rfl

theorem groupReservation_groups (hg : grouped.Groups (groupKey requested) rs)
    {grouped' : SortedMap SourceKey (List IngestRangeReservation)}
    (h : groupReservation requested grouped reservation = .ok grouped') :
    grouped'.Groups (groupKey requested) (rs ++ [reservation]) := by
  unfold groupReservation at h
  obtain ⟨-, h⟩ := checks_ok.mp h
  split_ifs at h with hm
  · cases h
    exact hg.push (if_pos hm)
  · cases h
    exact hg.skip (if_neg hm)

/-- A range counts as done when its batch key was committed. -/
def isCommitted (committed : Finset String) (range : IngestRangeReservation) : Bool :=
  decide (range.batchKey ∈ committed)

abbrev committedReach (committed : Finset String) : UInt64 → List IngestRangeReservation → UInt64 :=
  reach startOffsetInclusive endOffsetExclusive
    (isCommitted committed)

theorem reach_of_committedOffset {a b : UInt64}
    (h : committedOffset committed key a ranges = .ok b) :
    b = committedReach committed a ranges := by
  induction ranges generalizing a with
  | nil =>
    cases h
    rfl
  | cons r ranges ih =>
    unfold committedOffset at h
    unfold committedReach reach
    split_ifs at h with ho hs
    · cases h
      rw [if_neg]
      rintro ⟨hstart, hd⟩
      exact hs.elim (absurd hstart) (absurd (of_decide_eq_true hd))
    · rw [not_or, not_not, not_not] at hs
      rw [if_pos ⟨hs.1, decide_eq_true hs.2⟩]
      exact ih h

abbrev RangesOrdered : List IngestRangeReservation → Prop :=
  Ordered startOffsetInclusive endOffsetExclusive

theorem committedOffset_ok (committed : Finset String) (key : SourceKey) {a : UInt64}
    (ho : RangesOrdered ranges) (hf : ∀ r ∈ ranges, a ≤ r.startOffsetInclusive) :
    ∃ b, committedOffset committed key a ranges = .ok b := by
  induction ranges generalizing a with
  | nil => exact ⟨a, rfl⟩
  | cons r ranges ih =>
    obtain ⟨hl, ho⟩ := pairwise_cons.mp ho
    unfold committedOffset
    rw [if_neg (not_lt.mpr (hf r mem_cons_self))]
    split_ifs
    · exact ⟨a, rfl⟩
    · exact ih ho hl

instance : Std.Total rangeLe := ⟨fun _ _ => le_total _ _⟩

instance : IsTrans IngestRangeReservation rangeLe := ⟨fun _ _ _ => le_trans⟩

theorem start_le_of_rangeLe {a b : IngestRangeReservation} (h : rangeLe a b) :
    a.startOffsetInclusive ≤ b.startOffsetInclusive := by
  rcases Prod.Lex.toLex_le_toLex.mp h with hlt | ⟨heq, -⟩
  · exact hlt.le
  · exact heq.le

theorem ordered_insertionSort (hv : ∀ r ∈ group, r.validate = .ok ())
    (hapart : group.Pairwise fun a b => a.overlaps b = false) :
    RangesOrdered (group.insertionSort rangeLe) := by
  have hp := perm_insertionSort rangeLe group
  apply ordered_of_sorted
  · exact (pairwise_insertionSort rangeLe group).imp start_le_of_rangeLe
  · intro r hm
    exact start_lt_end_of_valid (hv r (hp.mem_iff.mp hm))
  · have hsa : (group.insertionSort rangeLe).Pairwise fun a b => a.overlaps b = false := by
      rw [hp.pairwise_iff]
      · exact hapart
      · intro a b hab
        rw [overlaps_comm]
        exact hab
    exact hsa.imp not_overlaps_iff.mp

theorem baseOffset_isLeast (hne : group ≠ []) :
    IsLeast { offset | ∃ r ∈ group, r.startOffsetInclusive = offset }
      (baseOffset (group.insertionSort rangeLe)) := by
  have hs := pairwise_insertionSort rangeLe group
  have hp := perm_insertionSort rangeLe group
  cases hsort : group.insertionSort rangeLe with
  | nil =>
    rw [hsort] at hp
    exact absurd hp.nil_eq.symm hne
  | cons first rest =>
    rw [hsort] at hs hp
    constructor
    · exact ⟨first, hp.mem_iff.mp mem_cons_self, rfl⟩
    · rintro offset ⟨r, hm, rfl⟩
      rcases mem_cons.mp (hp.mem_iff.mpr hm) with rfl | hr
      · exact le_rfl
      · exact start_le_of_rangeLe ((pairwise_cons.mp hs).1 r hr)

/-- What the cut of a partition says of its group. -/
structure PartitionCutOf (committed : Finset String) (key : SourceKey)
    (group : List IngestRangeReservation) (partition : IngestSourcePartitionCutV1) : Prop where
  streamId : partition.streamId = key.streamId
  streamGeneration : partition.streamGeneration = ingestSourceIdentityGenerationV1
  partitionId : partition.partitionId = key.partitionId
  partitionGeneration : partition.partitionGeneration = ingestSourceIdentityGenerationV1
  base : partition.baseOffsetInclusive = baseOffset (group.insertionSort rangeLe)
  committed : partition.committedOffsetExclusive =
    committedReach committed partition.baseOffsetInclusive (group.insertionSort rangeLe)

theorem partitionCut_spec (h : partitionCut committed key group = .ok partition) :
    PartitionCutOf committed key group partition := by
  unfold partitionCut at h
  obtain ⟨offset, ho, h⟩ := bind_eq_ok.mp h
  cases h
  exact ⟨rfl, rfl, rfl, rfl, rfl, reach_of_committedOffset ho⟩

theorem partitionCut_ok (hv : ∀ r ∈ group, r.validate = .ok ())
    (hapart : group.Pairwise fun a b => a.overlaps b = false) (hne : group ≠ []) :
    ∃ partition, partitionCut committed key group = .ok partition := by
  have hf : ∀ r ∈ group.insertionSort rangeLe,
      baseOffset (group.insertionSort rangeLe) ≤ r.startOffsetInclusive := by
    intro r hm
    exact (baseOffset_isLeast hne).2 ⟨r, (perm_insertionSort _ _).mem_iff.mp hm, rfl⟩
  obtain ⟨offset, ho⟩ := committedOffset_ok committed key
    (ordered_insertionSort hv hapart) hf
  unfold partitionCut
  dsimp only
  rw [ho]
  exact ⟨_, rfl⟩

/-- The ranges of a key among the reservations that a cut is made from. -/
def rangesOf (reservations : List IngestRangeReservation)
    (requested : List IngestSourceRelationIdentityV1) (key : SourceKey) :
    List IngestRangeReservation :=
  SortedMap.groupOf (groupKey requested) reservations key

theorem mem_rangesOf : reservation ∈ rangesOf rs requested key ↔
    reservation ∈ rs ∧ key.relation ∈ requested ∧ reservation.relationIdentity = key.relation ∧
      reservation.slot = (key.streamId, key.partitionId) := by
  rw [rangesOf, mem_groupOf, groupKey_eq_some]

/-- What a cut that could be built consists of. -/
structure CutOf (request : CaptureIngestSourceCutRequest) (epoch : UInt64)
    (reservations : List IngestRangeReservation) (committed : Finset String)
    (cut : IngestSourceCutV1) : Prop where
  valid : request.validate = .ok ()
  epoch : cut.inputCatalogEpoch = epoch
  relations : cut.relations.map IngestSourceRelationCutV1.relation = request.relations
  sound : ∀ relationCut ∈ cut.relations, ∀ partition ∈ relationCut.partitions,
    ∃ key : SourceKey, key.relation = relationCut.relation ∧
      rangesOf reservations request.relations key ≠ [] ∧
      PartitionCutOf committed key (rangesOf reservations request.relations key) partition
  complete : ∀ relationCut ∈ cut.relations, ∀ key : SourceKey,
    key.relation = relationCut.relation → rangesOf reservations request.relations key ≠ [] →
    ∃ partition ∈ relationCut.partitions,
      PartitionCutOf committed key (rangesOf reservations request.relations key) partition

theorem buildIngestSourceCut_spec (h : buildIngestSourceCut q epoch rs committed = .ok cut) :
    CutOf q epoch rs committed cut := by
  unfold buildIngestSourceCut at h
  obtain ⟨hv, h⟩ := checks_ok.mp h
  obtain ⟨grouped, hgrouped, h⟩ := bind_eq_ok.mp h
  obtain ⟨cuts, hc, h⟩ := bind_eq_ok.mp h
  cases h
  have hg : grouped.Groups (groupKey q.relations) rs :=
    foldlM_ok_induct
      (P := fun seen grouped => grouped.Groups (groupKey q.relations) seen) hgrouped
      SortedMap.Groups.nil fun hg hs => groupReservation_groups hg hs
  constructor
  · exact hv
  · rfl
  · simp only [map_map]
    exact map_id _
  · intro relationCut hr partition hp
    obtain ⟨rel, -, rfl⟩ := mem_map.mp hr
    obtain ⟨⟨key, found⟩, hf, rfl⟩ := mem_map.mp hp
    obtain ⟨hm, hk⟩ := mem_filter.mp hf
    obtain ⟨⟨key', group⟩, he, hcut⟩ := exists_of_mem_mapM hc hm
    obtain ⟨partition, hp, hpair⟩ := bind_eq_ok.mp hcut
    cases hpair
    obtain ⟨hne, rfl⟩ := hg.find?_eq_some.mp (mem_entries_iff.mp he)
    exact ⟨key', of_decide_eq_true hk, hne, partitionCut_spec hp⟩
  · intro relationCut hr key hk hne
    obtain ⟨rel, -, rfl⟩ := mem_map.mp hr
    have he := mem_entries_iff.mpr (hg.find?_eq_some.mpr ⟨hne, rfl⟩)
    obtain ⟨⟨key', found⟩, hm, hcut⟩ := exists_mem_of_mapM hc he
    obtain ⟨partition, hp, hpair⟩ := bind_eq_ok.mp hcut
    cases hpair
    refine ⟨found, ?_, partitionCut_spec hp⟩
    exact mem_map.mpr ⟨(key, found), mem_filter.mpr ⟨hm, decide_eq_true hk⟩, rfl⟩

/-- A cut can be built from valid ranges that are apart. -/
theorem buildIngestSourceCut_ok (epoch : UInt64) (committed : Finset String)
    (hr : q.validate = .ok ()) (hv : ∀ reservation ∈ rs, reservation.validate = .ok ())
    (hapart : rs.Pairwise Apart) : ∃ cut, buildIngestSourceCut q epoch rs committed = .ok cut := by
  have hgrouping : ∃ grouped, rs.foldlM (groupReservation q.relations) ∅ = .ok grouped ∧
        grouped.Groups (groupKey q.relations) rs := by
    apply foldlM_total
      (P := fun seen grouped => SortedMap.Groups (groupKey q.relations) seen grouped)
    · exact SortedMap.Groups.nil
    · intro seen grouped reservation rest hsplit hg
      have hm : reservation ∈ rs := by
        rw [hsplit]
        exact mem_append_right _ mem_cons_self
      obtain ⟨grouped', hs⟩ : ∃ grouped',
          groupReservation q.relations grouped reservation = .ok grouped' := by
        rw [groupReservation, hv reservation hm]
        exact ⟨_, rfl⟩
      exact ⟨grouped', hs, groupReservation_groups hg hs⟩
  obtain ⟨grouped, hgrouped, hg⟩ := hgrouping
  have hc : ∃ cuts, grouped.entries.mapM (fun e => do
      return (e.1, ← partitionCut committed e.1 e.2)) = .ok cuts := by
    apply mapM_ok_of_forall
    rintro ⟨key, group⟩ he
    obtain ⟨hne, rfl⟩ := hg.find?_eq_some.mp (mem_entries_iff.mp he)
    have hgv : ∀ r ∈ rangesOf rs q.relations key,
        r.validate = .ok () := fun r hm => hv r (mem_rangesOf.mp hm).1
    have hga : (rangesOf rs q.relations key).Pairwise
        fun a b => a.overlaps b = false := by
      -- all ranges of a key are of one partition
      apply (hapart.sublist filter_sublist).imp_of_mem
      intro a b ha hb hab
      exact hab ((mem_rangesOf.mp ha).2.2.2.trans (mem_rangesOf.mp hb).2.2.2.symm)
    obtain ⟨partition, hp⟩ := partitionCut_ok hgv hga hne
    exact ⟨(key, partition), bind_eq_ok.mpr ⟨partition, hp, rfl⟩⟩
  obtain ⟨cuts, hc⟩ := hc
  unfold buildIngestSourceCut
  rw [hr, hgrouped, ok_bind, ok_bind, hc]
  exact ⟨_, rfl⟩

end Building

section Captured
variable {state : InMemoryMetaState} {q : CaptureIngestSourceCutRequest} {cut : IngestSourceCutV1}

theorem valid_of_mem_flatten (h : TableFiled state.reservationsAt)
    {held : IngestRangeReservation} (hm : held ∈ state.ingestReservations.values.flatten) :
    held.validate = .ok () ∧ held ∈ state.reservationsAt held.slot := by
  obtain ⟨i, hh⟩ := mem_flatten_values.mp hm
  obtain ⟨rfl, hv⟩ := h.valid i held hh
  exact ⟨hv, hh⟩

theorem buildCut_ok (h : TableFiled state.reservationsAt)
    {rels : List IngestSourceRelationIdentityV1}
    (hr : CaptureIngestSourceCutRequest.validate ⟨rels⟩ = .ok ()) :
    ∃ cut, state.buildCut rels = .ok cut := by
  apply buildIngestSourceCut_ok _ _ hr
  · intro held hm
    exact (valid_of_mem_flatten h hm).1
  · exact apart_flatten_values h

theorem captureIngestSourceCut_spec (h : state.captureIngestSourceCut q = .ok cut) :
    CutOf q state.ingestCatalogEpoch state.ingestReservations.values.flatten
      state.committedIngestBatchKeys cut :=
  buildIngestSourceCut_spec (checks_ok.mp h).2

end Captured

/-- The ranges that an event was answered to have committed. -/
def Event.committedRanges : Event → List IngestRangeReservation
  | .commitIngestRange reservation (.ok .committed) => [reservation]
  | .commitIngestRanges reservations (.ok outcomes) =>
    ((reservations.zip outcomes).filter fun entry => entry.2 = .committed).map Prod.fst
  | .publishIngestReservation request (.ok .committed) => [request.reservation]
  | _ => []

def committedRanges (log : List Event) : List IngestRangeReservation :=
  log.flatMap Event.committedRanges

/-- The entry of a partition is tiled by accepted ranges of the relation, each of which was
committed itself. -/
def SoundPartition (log : List Event) (relation : IngestSourceRelationIdentityV1)
    (partition : IngestSourcePartitionCutV1) : Prop :=
  ∃ ranges, RangesTile partition.baseOffsetInclusive partition.committedOffsetExclusive ranges ∧
    ∀ range ∈ ranges, range ∈ accepted log ∧ range ∈ committedRanges log ∧
      range.relationIdentity = relation ∧
      range.slot = (partition.streamId, partition.partitionId)

def SoundCut (log : List Event) (cut : IngestSourceCutV1) : Prop :=
  ∀ relationCut ∈ cut.relations, ∀ partition ∈ relationCut.partitions,
    SoundPartition log relationCut.relation partition

/-- The older paths are asked only for batch keys that no other range of theirs has, and
before the catalog epoch runs out. -/
structure KeysUnused (state : InMemoryMetaState) (event : Event) : Prop where
  batchKey : ∀ reservation ∈ event.asked,
    (state.reservationsAt reservation.slot).any (·.overlaps reservation) = false →
      (state.legacyBatchKeys.lookup reservation.batchKey).any (· != reservation) = false
  epoch : ∀ reservation result, event = .reserveIngestRange reservation result →
    (state.ingestCatalogEpoch.checkedAdd 1).isSome

/-- What is known of committed batch keys after a run. -/
structure CommitLedger (log : List Event) (state : InMemoryMetaState) : Prop where
  filed : Filed state
  accepted : ∀ slot, ∀ held ∈ state.reservationsAt slot, held ∈ accepted log
  indexed : ∀ slot, ∀ held ∈ state.reservationsAt slot,
    state.legacyBatchKeys.lookup held.batchKey = some held
  committed : ∀ key ∈ state.committedIngestBatchKeys, ∃ range ∈ committedRanges log,
    range.batchKey = key ∧ range ∈ state.reservationsAt range.slot

section Ledger
variable {external : External} {state next : InMemoryMetaState} {event : Event}
  {reservation : IngestRangeReservation} {log : List Event}

@[simp]
theorem committedRanges_snoc (log : List Event) (event : Event) :
    committedRanges (log ++ [event]) = committedRanges log ++ event.committedRanges := by
  unfold committedRanges
  rw [flatMap_append, flatMap_singleton]

theorem commitAll_committed (committed : Finset String)
    (rs : List IngestRangeReservation) {key : String}
    (hk : key ∈ (commitAll committed rs).1) :
    key ∈ committed ∨ ∃ r, (r, .committed) ∈ rs.zip (commitAll committed rs).2 ∧
        r.batchKey = key := by
  induction rs generalizing committed with
  | nil => exact .inl hk
  | cons reservation rs ih =>
    unfold commitAll at hk ⊢
    dsimp only at hk ⊢
    rw [zip_cons_cons]
    rcases ih _ hk with hm | ⟨r, hr, hrk⟩
    · rcases Finset.mem_insert.mp hm with rfl | hm
      · by_cases hold : reservation.batchKey ∈ committed
        · exact .inl hold
        · rw [if_neg hold]
          exact .inr ⟨reservation, mem_cons_self, rfl⟩
      · exact .inl hm
    · exact .inr ⟨r, mem_cons_of_mem _ hr, hrk⟩

theorem CommitLedger.keep (h : CommitLedger log state) (hf : Filed next)
    (ht : next.reservationsAt = state.reservationsAt)
    (hi : next.legacyBatchKeys = state.legacyBatchKeys)
    (hc : ∀ key ∈ next.committedIngestBatchKeys,
      key ∈ state.committedIngestBatchKeys ∨ ∃ r ∈ event.committedRanges,
        r.batchKey = key ∧ r ∈ state.reservationsAt r.slot) :
    CommitLedger (log ++ [event]) next := by
  refine ⟨hf, ?_, ?_, ?_⟩
  · intro i held hh
    rw [ht] at hh
    rw [accepted_snoc]
    exact mem_append_left _ (h.accepted i held hh)
  · rw [ht, hi]
    exact h.indexed
  · intro key hk
    rw [ht, committedRanges_snoc]
    rcases hc key hk with hold | ⟨r, hm, hr⟩
    · obtain ⟨r, hm, hr⟩ := h.committed key hold
      exact ⟨r, mem_append_left _ hm, hr⟩
    · exact ⟨r, mem_append_right _ hm, hr⟩

theorem CommitLedger.push (h : CommitLedger log state) (hf : Filed next)
    (ha : event.accepted = some reservation)
    (hu : state.legacyBatchKeys.lookup reservation.batchKey = none)
    (ht : next.reservationsAt = (state.pushReservation reservation).reservationsAt)
    (hi : next.legacyBatchKeys = state.legacyBatchKeys.insert reservation.batchKey reservation)
    (hc : next.committedIngestBatchKeys = state.committedIngestBatchKeys) :
    CommitLedger (log ++ [event]) next := by
  refine ⟨hf, ?_, ?_, ?_⟩
  · intro i held hh
    rw [accepted_snoc, ha]
    rcases mem_reservationsAt_push.mp (ht ▸ hh) with hold | ⟨rfl, -⟩
    · exact mem_append_left _ (h.accepted i held hold)
    · exact mem_append_right _ (mem_singleton.mpr rfl)
  · intro i held hh
    rw [hi]
    rcases mem_reservationsAt_push.mp (ht ▸ hh) with hold | ⟨rfl, -⟩
    · exact HashMap.lookup_insert_of_some hu (h.indexed i held hold)
    · exact AList.lookup_insert _
  · intro key hk
    rw [hc] at hk
    rw [committedRanges_snoc, ht]
    obtain ⟨r, hm, hr, hh⟩ := h.committed key hk
    exact ⟨r, mem_append_left _ hm, hr, mem_reservationsAt_push.mpr (.inl hh)⟩

theorem CommitLedger.step (h : CommitLedger log state)
    (he : Effect external state event next) (hu : KeysUnused state event) :
    CommitLedger (log ++ [event]) next := by
  have hf := h.filed.step he
  have hold : ∀ key ∈ state.committedIngestBatchKeys, key ∈ state.committedIngestBatchKeys ∨
      ∃ r ∈ event.committedRanges, r.batchKey = key ∧
        r ∈ state.reservationsAt r.slot := fun key hk => .inl hk
  cases he with
  | reserved hv hseal hfresh hepoch | reservedAuthoritative hv hfresh =>
    exact h.push hf rfl
      (legacyBatchKey_unused h.filed hv hfresh (hu.batchKey _ rfl hfresh)) rfl rfl rfl
  | overflowed hv hseal hfresh hepoch =>
    have hs := hu.epoch _ _ rfl
    rw [hepoch] at hs
    cases hs
  | committed hresv | publishedReservation hresv =>
    refine h.keep hf rfl rfl ?_
    intro key hk
    rcases Finset.mem_insert.mp hk with rfl | hk
    · exact .inr ⟨_, mem_singleton.mpr rfl, rfl, hresv⟩
    · exact .inl hk
  | committedAll hresv ho =>
    rename_i rs outcomes
    refine h.keep hf rfl rfl ?_
    intro key hk
    rcases commitAll_committed _ _ hk with hk | ⟨r, hr, hrk⟩
    · exact .inl hk
    · refine .inr ⟨r, ?_, hrk, hresv r (of_mem_zip hr).1⟩
      rw [← ho] at hr
      exact mem_map.mpr ⟨(r, .committed), mem_filter.mpr ⟨hr, decide_eq_true rfl⟩, rfl⟩
  | rehashed hrehash =>
    refine h.keep hf (reservationsAt_rehashed hrehash) ?_ ?_
    · rw [hrehash.rest]
    · rw [hrehash.rest]
      exact hold
  | _ => exact h.keep hf rfl rfl hold

theorem CommitLedger.committed_self (h : CommitLedger log state) {i : String × UInt32}
    {held : IngestRangeReservation} (hh : held ∈ state.reservationsAt i)
    (hk : held.batchKey ∈ state.committedIngestBatchKeys) : held ∈ committedRanges log := by
  obtain ⟨r, hm, hs, hr⟩ := h.committed held.batchKey hk
  have hl := h.indexed _ r hr
  rw [hs, h.indexed i held hh] at hl
  cases hl
  exact hm

theorem captured_cut_sound
    (h : Trace (fun state event next => Step external state event next ∧ KeysUnused state event)
      {} log state) {request : CaptureIngestSourceCutRequest} {cut : IngestSourceCutV1}
    (hcut : state.captureIngestSourceCut request = .ok cut) : SoundCut log cut := by
  have hledger : CommitLedger log state := by
    apply h.invariant (P := CommitLedger)
    · exact ⟨filed_empty, fun _ _ hmem => absurd hmem not_mem_nil,
        fun _ _ hmem => absurd hmem not_mem_nil,
        fun _ hmem => absurd hmem (Finset.notMem_empty _)⟩
    · intro log state event next hledger hstep
      exact hledger.step (effect_of_step hstep.1) hstep.2
  intro relationCut hrelation partition hpartition
  obtain ⟨key, hkey, -, hpartition⟩ :=
    (captureIngestSourceCut_spec hcut).sound relationCut hrelation partition hpartition
  obtain ⟨ranges, htiles, hranges⟩ := tiles_of_reach
    startOffsetInclusive endOffsetExclusive
    (isCommitted state.committedIngestBatchKeys) partition.baseOffsetInclusive
    ((rangesOf state.ingestReservations.values.flatten request.relations key).insertionSort rangeLe)
  refine ⟨ranges, ?_, ?_⟩
  · rw [hpartition.committed]
    exact htiles
  · intro range hrange
    obtain ⟨hmem, hdone⟩ := hranges range hrange
    obtain ⟨hflat, -, hidentity, hslot⟩ :=
      mem_rangesOf.mp ((perm_insertionSort _ _).mem_iff.mp hmem)
    have hheld := (valid_of_mem_flatten hledger.filed.legacy hflat).2
    refine ⟨hledger.accepted _ range hheld,
      hledger.committed_self hheld (of_decide_eq_true hdone), hidentity.trans hkey, ?_⟩
    rw [hslot, hpartition.streamId, hpartition.partitionId]

end Ledger

section BatchKeys

def sourceRelation : IngestSourceRelationIdentityV1 := ⟨"r", "1", 1, "f"⟩

def firstReserved : Answer ReserveIngestRangeOutcome :=
  reserveIngestRange {} (rangeOf 0 10 "k")

def firstCommitted : Answer CommitIngestRangeOutcome :=
  firstReserved.1.commitIngestRange (rangeOf 0 10 "k")

variable (reservation : IngestRangeReservation)

/-- A range is reserved after the first one was committed. -/
def thenReserved : Answer ReserveIngestRangeOutcome :=
  firstCommitted.1.reserveIngestRange reservation

def commitLog : List Event :=
  [.reserveIngestRange (rangeOf 0 10 "k") firstReserved.2,
    .commitIngestRange (rangeOf 0 10 "k") firstCommitted.2,
    .reserveIngestRange reservation (thenReserved reservation).2]

def capturedAfter : Except MetaStoreError IngestSourceCutV1 :=
  (thenReserved reservation).1.captureIngestSourceCut ⟨[sourceRelation]⟩

/-- The cut of one partition of the relation. -/
def cutUpTo (epoch base offset : UInt64) : IngestSourceCutV1 :=
  ⟨1, epoch, [⟨sourceRelation, [⟨"s", 1, 0, 1, base, offset⟩]⟩]⟩

/-- A second range under a committed batch key counts as committed at once. -/
theorem reusedBatchKey_counted :
    Trace (Step plainExternal) {} (commitLog (rangeOf 10 20 "k"))
        (thenReserved (rangeOf 10 20 "k")).1 ∧
      capturedAfter (rangeOf 10 20 "k") = .ok (cutUpTo 2 0 20) ∧
      ¬ SoundCut (commitLog (rangeOf 10 20 "k")) (cutUpTo 2 0 20) := by
  refine ⟨?_, by decide +kernel, ?_⟩
  · exact ((Trace.nil.snoc (.reserveIngestRange (Prod.mk.eta (p := firstReserved)).symm)).snoc
      (.commitIngestRange (Prod.mk.eta (p := firstCommitted)).symm)).snoc
      (.reserveIngestRange (Prod.mk.eta (p := thenReserved _)).symm)
  · intro hsound
    obtain ⟨ranges, htiles, hranges⟩ :=
      hsound _ mem_cons_self _ mem_cons_self
    have hcommitted : committedRanges (commitLog (rangeOf 10 20 "k")) = [rangeOf 0 10 "k"] := by
      decide +kernel
    have hfirst : ∀ range ∈ ranges, range = rangeOf 0 10 "k" := by
      intro range hmem
      have hrange := (hranges range hmem).2.1
      rw [hcommitted] at hrange
      exact mem_singleton.mp hrange
    -- the first range alone does not reach the end of the entry
    cases ranges with
    | nil => exact absurd (show (0 : UInt64) = 20 from htiles) (by decide)
    | cons range rest =>
      cases hfirst range mem_cons_self
      cases rest with
      | nil => exact absurd (show (10 : UInt64) = 20 from htiles.2) (by decide)
      | cons range rest =>
        cases hfirst range (mem_cons_of_mem _ mem_cons_self)
        exact absurd htiles.2.1 (by decide)

theorem freshBatchKey_sound :
    capturedAfter (rangeOf 10 20 "l") = .ok (cutUpTo 2 0 10) ∧
      SoundCut (commitLog (rangeOf 10 20 "l")) (cutUpTo 2 0 10) := by
  have hcut : capturedAfter (rangeOf 10 20 "l") = .ok (cutUpTo 2 0 10) := by decide +kernel
  refine ⟨hcut, ?_⟩
  have hreserve {state : InMemoryMetaState} {reservation : IngestRangeReservation}
      {result : Except MetaStoreError ReserveIngestRangeOutcome}
      (hkey : (state.legacyBatchKeys.lookup reservation.batchKey).any (· != reservation) = false)
      (hepoch : (state.ingestCatalogEpoch.checkedAdd 1).isSome = true) :
      KeysUnused state (.reserveIngestRange reservation result) := by
    refine ⟨fun _ hasked _ => ?_, fun _ _ _ => hepoch⟩
    cases hasked
    exact hkey
  have hcommit : KeysUnused firstReserved.1
      (.commitIngestRange (rangeOf 0 10 "k") firstCommitted.2) := by
    constructor
    · intro reservation hasked
      cases hasked
    · intro _ _ hevent
      cases hevent
  have htrace : Trace (fun state event next =>
      Step plainExternal state event next ∧ KeysUnused state event) {}
      (commitLog (rangeOf 10 20 "l")) (thenReserved (rangeOf 10 20 "l")).1 :=
    ((Trace.nil.snoc ⟨.reserveIngestRange (Prod.mk.eta (p := firstReserved)).symm,
      hreserve (by decide +kernel) (by decide +kernel)⟩).snoc
      ⟨.commitIngestRange (Prod.mk.eta (p := firstCommitted)).symm, hcommit⟩).snoc
      ⟨.reserveIngestRange (Prod.mk.eta (p := thenReserved _)).symm,
        hreserve (by decide +kernel) (by decide +kernel)⟩
  exact captured_cut_sound htrace hcut

end BatchKeys

end Velorix.Meta
