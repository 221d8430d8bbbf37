import Velorix.Foundation.Contiguous
import Velorix.Meta.Reservations

/-! Cuts captured from relation publications: why building one may fail when the reservations
and the publications agree. -/
namespace Velorix.Meta

open Contiguous Result List SortedMap IngestRangeReservation Option

variable {seen : List AuthorizedReservation} {entry : AuthorizedReservation}
  {index : SortedMap SourceEntryKey IngestPublication}

/-- The errors that are left: a hole, a range without a publication, and a schema fingerprint
that is not the requested one. -/
def MetaStoreError.IsIncomplete : MetaStoreError → Prop
  | .incompleteRelationSourceCut _ _ _ reason =>
    reason = "reservation hole" ∨ reason = "missing authoritative publication"
  | .serialization detail =>
    detail = "relation source-cut reservation fingerprint mismatch" ∨
      detail = "relation source-cut publication fingerprint mismatch"
  | _ => False

/-- Valid ranges, apart from one another and under authorities over their relation; every
publication is of one of them, and no two are of the same. -/
structure Consistent (reservations : List AuthorizedReservation)
    (publications : List IngestPublication) : Prop where
  valid : ∀ entry ∈ reservations, entry.2.validate = .ok ()
  inScope : ∀ entry ∈ reservations, entry.1.overRelation entry.2 = true
  apart : reservations.Pairwise fun a b => Apart a.2 b.2
  reserved : ∀ publication ∈ publications,
    (publication.authorityKey, publication.reservation) ∈ reservations
  once : publications.Pairwise fun a b => a.reservation ≠ b.reservation

section Keys

variable {a b : AuthorizedReservation}

theorem relationSourceEntryKey_inj (ha : a.1.overRelation a.2 = true)
    (hb : b.1.overRelation b.2 = true)
    (h : relationSourceEntryKey a.1 a.2 = relationSourceEntryKey b.1 b.2) : a = b := by
  obtain ⟨⟨namespaceName, subject, sid, p⟩, r⟩ := a
  obtain ⟨⟨namespaceName', subject', sid', p'⟩, r'⟩ := b
  obtain ⟨stream, partition, first, last, batchKey, digest, rid, version, fingerprint,
    writerEpoch⟩ := r
  obtain ⟨stream', partition', first', last', batchKey', digest', rid', version',
    fingerprint', writerEpoch'⟩ := r'
  simp only [AuthorityKey.overRelation, AuthorityKey.overSlot, Bool.and_eq_true, beq_iff_eq]
    at ha hb
  obtain ⟨⟨rfl, rfl⟩, rfl⟩ := ha
  obtain ⟨⟨rfl, rfl⟩, rfl⟩ := hb
  simp only [relationSourceEntryKey, toLex_inj, Prod.mk.injEq] at h
  obtain ⟨rfl, rfl, rfl, rfl, rfl, rfl, rfl, rfl, rfl, rfl, rfl⟩ := h
  rfl

end Keys

section Grouping
variable {publication : IngestPublication}

variable {q : CaptureRelationIngestSourceCutsRequest} {error : MetaStoreError}
  {rs : List AuthorizedReservation} {ps : List IngestPublication}

/-- The relation and the partition that a range is counted under. -/
def relationGroupKey (request : CaptureRelationIngestSourceCutsRequest)
    (entry : AuthorizedReservation) : Option SourceKey :=
  if entry.1.namespaceName ≠ request.namespaceName then none
  else (request.relationOf entry.2).map fun relation => sourceKey relation entry.2

theorem groupRelationReservation_groups
    {grouped grouped' : SortedMap SourceKey (List AuthorizedReservation)}
    (hg : grouped.Groups (relationGroupKey q) seen)
    (h : groupRelationReservation q grouped entry = .ok grouped') :
    grouped'.Groups (relationGroupKey q) (seen ++ [entry]) := by
  unfold groupRelationReservation at h
  obtain ⟨-, h⟩ := checks_ok.mp h
  split_ifs at h with hn
  · cases h
    exact hg.skip (if_pos hn)
  · split at h
    · rename_i hr
      cases h
      apply hg.skip
      rw [relationGroupKey, if_neg hn, hr, map_none]
    · rename_i rel hr
      obtain ⟨-, h⟩ := checks_ok.mp h
      obtain ⟨-, h⟩ := checks_ok.mp h
      cases h
      apply hg.push
      rw [relationGroupKey, if_neg hn, hr, map_some]

theorem require_error {condition : Bool} {expected : MetaStoreError}
    (h : require condition expected = .error error) : condition = false ∧ error = expected := by
  unfold require at h
  split_ifs at h with hc
  cases h
  exact ⟨Bool.eq_false_iff.mpr hc, rfl⟩

theorem groupRelationReservation_error {grouped : SortedMap SourceKey (List AuthorizedReservation)}
    (hv : entry.2.validate = .ok ()) (hs : entry.1.overRelation entry.2 = true)
    (h : groupRelationReservation q grouped entry = .error error) : error.IsIncomplete := by
  unfold groupRelationReservation at h
  dsimp only at h
  rw [hv, ok_bind, hs] at h
  split_ifs at h
  · cases h
  split at h
  · cases h
  · rcases bind_eq_error.mp h with hscope | ⟨⟨⟩, -, h⟩
    · cases hscope
    rcases bind_eq_error.mp h with hf | ⟨⟨⟩, -, h⟩
    · rw [(require_error hf).2]
      exact .inl rfl
    · cases h

/-- Whose entries an index of publications has. -/
def Indexed (request : CaptureRelationIngestSourceCutsRequest) (seen : List IngestPublication)
    (index : SortedMap SourceEntryKey IngestPublication) : Prop :=
  ∀ key publication, index.find? key = some publication →
    publication ∈ seen ∧
      key = relationSourceEntryKey publication.authorityKey publication.reservation ∧
      publication.authorityKey.namespaceName = request.namespaceName ∧
      ∃ relation, request.relationOf publication.reservation = some relation

theorem Indexed.mono {seen : List IngestPublication} (h : Indexed q seen index) :
    Indexed q (seen ++ [publication]) index := by
  intro key found hf
  obtain ⟨hmem, hr⟩ := h key found hf
  exact ⟨mem_append_left _ hmem, hr⟩

theorem indexPublication_indexed {seen : List IngestPublication}
    {index' : SortedMap SourceEntryKey IngestPublication} (hi : Indexed q seen index)
    (h : indexPublication q index publication = .ok index') :
    Indexed q (seen ++ [publication]) index' := by
  unfold indexPublication at h
  split_ifs at h with hn
  · cases h
    exact hi.mono
  · split at h
    · cases h
      exact hi.mono
    · rename_i rel hr
      obtain ⟨-, h⟩ := checks_ok.mp h
      obtain ⟨-, h⟩ := checks_ok.mp h
      cases h
      intro key found hf
      rw [find?_insert] at hf
      split_ifs at hf with hk
      · cases hf
        exact ⟨mem_append_right _ (mem_singleton.mpr rfl), hk.symm,
          not_not.mp hn, rel, hr⟩
      · exact hi.mono key found hf

theorem indexPublication_error (hc : Consistent rs ps)
    {seen rest : List IngestPublication} (hsplit : ps = seen ++ publication :: rest)
    (hi : Indexed q seen index)
    (h : indexPublication q index publication = .error error) : error.IsIncomplete := by
  unfold indexPublication at h
  split_ifs at h
  · cases h
  split at h
  · cases h
  · rcases bind_eq_error.mp h with hf | ⟨⟨⟩, -, h⟩
    · rw [(require_error hf).2]
      exact .inr rfl
    rcases bind_eq_error.mp h with hd | ⟨⟨⟩, -, h⟩
    · -- an entry under the same key would be of the same range
      have hnone := (require_error hd).1
      rw [isNone_eq_false_iff] at hnone
      obtain ⟨other, hother⟩ := isSome_iff_exists.mp hnone
      obtain ⟨hs, hk, -⟩ := hi _ other hother
      have hmem : publication ∈ ps := by
        rw [hsplit]
        exact mem_append_right _ mem_cons_self
      have hmo : other ∈ ps := by
        rw [hsplit]
        exact mem_append_left _ hs
      have hsame := relationSourceEntryKey_inj
        (hc.inScope _ (hc.reserved _ hmem))
        (hc.inScope _ (hc.reserved _ hmo)) hk
      have ho := hc.once
      rw [hsplit, pairwise_append] at ho
      exact absurd (congrArg Prod.snd hsame).symm
        (ho.2.2 other hs publication mem_cons_self)
    · cases h

end Grouping

section Walking
variable {error : MetaStoreError} {key : SourceKey}

/-- The publications of the ranges were taken out, and none was put in. -/
structure Taken (entries : List AuthorizedReservation)
    (before after : SortedMap SourceEntryKey IngestPublication) : Prop where
  left : ∀ key publication, after.find? key = some publication →
    before.find? key = some publication
  taken : ∀ entry ∈ entries, after.find? (relationSourceEntryKey entry.1 entry.2) = none

theorem Taken.nil (before : SortedMap SourceEntryKey IngestPublication) : Taken [] before before :=
  ⟨fun _ _ h => h, fun _ hmem => absurd hmem not_mem_nil⟩

theorem Taken.trans {es es' : List AuthorizedReservation}
    {before middle after : SortedMap SourceEntryKey IngestPublication}
    (h : Taken es before middle) (h' : Taken es' middle after) :
    Taken (es ++ es') before after := by
  constructor
  · intro key publication hf
    exact h.left _ _ (h'.left _ _ hf)
  · intro entry hmem
    rcases mem_append.mp hmem with hmem | hmem
    · rw [eq_none_iff_forall_ne_some]
      intro publication hf
      have hm := h'.left _ _ hf
      rw [h.taken entry hmem] at hm
      cases hm
    · exact h'.taken entry hmem

/-- How far a walk has come after the ranges it has seen. -/
structure WalkedOver (base : UInt64) (unmatched : SortedMap SourceEntryKey IngestPublication)
    (seen : List AuthorizedReservation) (walk : RelationWalk) : Prop where
  taken : Taken seen unmatched walk.unmatched
  frontier : walk.committedOffsetExclusive =
    (seen.getLast?.map fun entry => entry.2.endOffsetExclusive).getD base

theorem walkRange_walked {base : UInt64} {unmatched : SortedMap SourceEntryKey IngestPublication}
    {walk walk' : RelationWalk} (hw : WalkedOver base unmatched seen walk)
    (h : walkRange key walk entry = .ok walk') :
    WalkedOver base unmatched (seen ++ [entry]) walk' := by
  unfold walkRange at h
  obtain ⟨-, h⟩ := checks_ok.mp h
  obtain ⟨-, h⟩ := checks_ok.mp h
  dsimp only at h
  split at h
  · cases h
  · cases h
    constructor
    · apply hw.taken.trans
      constructor
      · intro key publication hf
        rw [find?_erase] at hf
        split_ifs at hf
        exact hf
      · intro other hmem
        rw [mem_singleton.mp hmem]
        exact find?_erase_self _ _
    · rw [getLast?_concat]
      rfl

theorem walkRange_error {walk : RelationWalk}
    (hf : walk.committedOffsetExclusive ≤ entry.2.startOffsetInclusive)
    (h : walkRange key walk entry = .error error) : error.IsIncomplete := by
  unfold walkRange at h
  dsimp only at h
  rcases bind_eq_error.mp h with ho | ⟨⟨⟩, -, h⟩
  · have hlt := (require_error ho).1
    rw [Bool.not_eq_eq_eq_not, Bool.not_false, decide_eq_true_eq] at hlt
    exact absurd hlt (not_lt.mpr hf)
  rcases bind_eq_error.mp h with hh | ⟨⟨⟩, -, h⟩
  · rw [(require_error hh).2]
    exact .inl rfl
  split at h
  · cases h
    exact .inr rfl
  · cases h

instance : Std.Total authorizedLe := ⟨fun _ _ => le_total _ _⟩

instance : IsTrans AuthorizedReservation authorizedLe := ⟨fun _ _ _ => le_trans⟩

theorem start_le_of_authorizedLe {a b : AuthorizedReservation} (h : authorizedLe a b) :
    a.2.startOffsetInclusive ≤ b.2.startOffsetInclusive := by
  rcases Prod.Lex.toLex_le_toLex.mp h with hlt | ⟨heq, -⟩
  · exact hlt.le
  · exact heq.le

abbrev EntriesOrdered : List AuthorizedReservation → Prop :=
  Ordered (fun entry => entry.2.startOffsetInclusive) fun entry => entry.2.endOffsetExclusive

theorem ordered_insertionSort_authorized {group : List AuthorizedReservation}
    (hv : ∀ entry ∈ group, entry.2.validate = .ok ())
    (ha : group.Pairwise fun a b => a.2.overlaps b.2 = false) :
    EntriesOrdered (group.insertionSort authorizedLe) := by
  have hp := perm_insertionSort authorizedLe group
  apply ordered_of_sorted
  · exact (pairwise_insertionSort authorizedLe group).imp start_le_of_authorizedLe
  · intro entry hmem
    exact start_lt_end_of_valid (hv entry (hp.mem_iff.mp hmem))
  · have hsa : (group.insertionSort authorizedLe).Pairwise
        fun a b => a.2.overlaps b.2 = false := by
      rw [hp.pairwise_iff]
      · exact ha
      · intro a b hab
        rw [overlaps_comm]
        exact hab
    exact hsa.imp not_overlaps_iff.mp

theorem frontier_le {rest : List AuthorizedReservation}
    (ho : EntriesOrdered (seen ++ entry :: rest)) :
    (seen.getLast?.map fun entry => entry.2.endOffsetExclusive).getD
        (baseOffset ((seen ++ entry :: rest).map Prod.snd)) ≤ entry.2.startOffsetInclusive := by
  cases hl : seen.getLast? with
  | none =>
    rw [getLast?_eq_none_iff.mp hl]
    exact le_rfl
  | some last =>
    have hmem : last ∈ seen := mem_of_getLast? hl
    exact (pairwise_append.mp ho).2.2 last hmem entry mem_cons_self

variable {unmatched : SortedMap SourceEntryKey IngestPublication}
  {group : List AuthorizedReservation}

theorem relationPartitionCut_taken
    {result : SortedMap SourceEntryKey IngestPublication × RelationIngestPartitionCutV1}
    (h : relationPartitionCut unmatched key group = .ok result) :
    Taken group unmatched result.1 := by
  unfold relationPartitionCut at h
  dsimp only at h
  obtain ⟨walk, hwalk, h⟩ := bind_eq_ok.mp h
  cases h
  have hw : WalkedOver _ unmatched (group.insertionSort authorizedLe) walk :=
    foldlM_ok_induct hwalk ⟨Taken.nil unmatched, rfl⟩
      fun hw hs => walkRange_walked hw hs
  refine ⟨hw.taken.left, ?_⟩
  intro entry hmem
  exact hw.taken.taken entry ((perm_insertionSort _ _).mem_iff.mpr hmem)

theorem relationPartitionCut_error (hv : ∀ entry ∈ group, entry.2.validate = .ok ())
    (ha : group.Pairwise fun a b => a.2.overlaps b.2 = false)
    (h : relationPartitionCut unmatched key group = .error error) : error.IsIncomplete := by
  unfold relationPartitionCut at h
  dsimp only at h
  rcases bind_eq_error.mp h with hwalk | ⟨_, -, h⟩
  · obtain ⟨seen, entry, rest, walk, hsplit, hw, hfail⟩ :=
      foldlM_eq_error (P := WalkedOver _ unmatched) hwalk ⟨Taken.nil unmatched, rfl⟩
        fun hw hs => walkRange_walked hw hs
    have ho := ordered_insertionSort_authorized hv ha
    rw [hsplit] at ho
    apply walkRange_error _ hfail
    rw [hw.frontier, hsplit]
    exact frontier_le ho
  · cases h

end Walking

section Relations
variable {groups : List (SourceKey × List AuthorizedReservation)}
  {rels : List IngestSourceRelationIdentityV1}
  {result : SortedMap SourceEntryKey IngestPublication × List RelationIngestSourceIdentityCutV1}

variable {q : CaptureRelationIngestSourceCutsRequest} {error : MetaStoreError}
  {rs : List AuthorizedReservation} {ps : List IngestPublication}
  {grouped : SortedMap SourceKey (List AuthorizedReservation)}

def groupsOf (grouped : SortedMap SourceKey (List AuthorizedReservation))
    (relation : IngestSourceRelationIdentityV1) :
    List (SourceKey × List AuthorizedReservation) :=
  grouped.entries.filter fun entry => entry.1.relation = relation

theorem relationPartitionCuts_taken {unmatched : SortedMap SourceEntryKey IngestPublication}
    {result : SortedMap SourceEntryKey IngestPublication × List RelationIngestPartitionCutV1}
    (h : relationPartitionCuts groups unmatched = .ok result) :
    Taken (groups.flatMap Prod.snd) unmatched result.1 := by
  unfold relationPartitionCuts at h
  apply foldlM_ok_induct
    (P := fun seen acc => Taken (List.flatMap Prod.snd seen) unmatched (Prod.fst acc)) h
    (Taken.nil unmatched)
  intro seen acc group acc' ht hs
  obtain ⟨cut, hc, hs⟩ := bind_eq_ok.mp hs
  cases hs
  rw [flatMap_append, flatMap_singleton]
  exact ht.trans (relationPartitionCut_taken hc)

theorem relationPartitionCuts_error {unmatched : SortedMap SourceEntryKey IngestPublication}
    (hv : ∀ group ∈ groups, ∀ entry ∈ group.2, entry.2.validate = .ok ())
    (ha : ∀ group ∈ groups, group.2.Pairwise fun a b => a.2.overlaps b.2 = false)
    (h : relationPartitionCuts groups unmatched = .error error) : error.IsIncomplete := by
  unfold relationPartitionCuts at h
  obtain ⟨seen, group, rest, acc, hsplit, -, hfail⟩ :=
    foldlM_eq_error (P := fun _ _ => True) h trivial fun _ _ => trivial
  have hmem : group ∈ groups := by
    rw [hsplit]
    exact mem_append_right _ mem_cons_self
  rcases bind_eq_error.mp hfail with hc | ⟨_, -, hfail⟩
  · exact relationPartitionCut_error (hv group hmem) (ha group hmem) hc
  · cases hfail

theorem relationCuts_taken (h : rels.foldlM (relationCut q grouped) (index, []) = .ok result) :
    Taken (rels.flatMap fun rel => (groupsOf grouped rel).flatMap Prod.snd) index result.1 := by
  apply foldlM_ok_induct
    (P := fun seen acc => Taken (List.flatMap
      (fun rel => (groupsOf grouped rel).flatMap Prod.snd) seen) index (Prod.fst acc)) h
    (Taken.nil index)
  intro seen acc rel acc' ht hs
  unfold relationCut at hs
  obtain ⟨partitions, hp, hs⟩ := bind_eq_ok.mp hs
  cases hs
  rw [flatMap_append, flatMap_singleton]
  exact ht.trans (relationPartitionCuts_taken hp)

section
variable (hc : Consistent rs ps) (hg : grouped.Groups (relationGroupKey q) rs)
include hc hg

theorem group_of_consistent
    {group : SourceKey × List AuthorizedReservation} (hmem : group ∈ grouped.entries) :
    (∀ entry ∈ group.2, entry.2.validate = .ok ()) ∧
      group.2.Pairwise fun a b => a.2.overlaps b.2 = false := by
  obtain ⟨key, es⟩ := group
  obtain ⟨-, rfl⟩ := hg.find?_eq_some.mp (mem_entries_iff.mp hmem)
  have hs (entry : AuthorizedReservation)
      (he : entry ∈ SortedMap.groupOf (relationGroupKey q) rs key) :
      entry.2.slot = (key.streamId, key.partitionId) := by
    have hk := (mem_groupOf.mp he).2
    unfold relationGroupKey at hk
    split_ifs at hk
    obtain ⟨rel, -, rfl⟩ := map_eq_some_iff.mp hk
    rfl
  constructor
  · intro entry he
    exact hc.valid entry (mem_groupOf.mp he).1
  · apply (hc.apart.sublist filter_sublist).imp_of_mem
    intro a b ha hb hab
    exact hab ((hs a ha).trans (hs b hb).symm)

theorem relationCuts_error
    (h : rels.foldlM (relationCut q grouped) (index, []) = .error error) : error.IsIncomplete := by
  obtain ⟨seen, rel, rest, acc, -, -, hfail⟩ :=
    foldlM_eq_error (P := fun _ _ => True) h trivial fun _ _ => trivial
  unfold relationCut at hfail
  rcases bind_eq_error.mp hfail with hcuts | ⟨_, -, hfail⟩
  · refine relationPartitionCuts_error ?_ ?_ hcuts
    · intro group hmem
      exact (group_of_consistent hc hg (mem_filter.mp hmem).1).1
    · intro group hmem
      exact (group_of_consistent hc hg (mem_filter.mp hmem).1).2
  · cases hfail

theorem nothing_unmatched (hi : Indexed q ps index)
    (h : q.relations.foldlM (relationCut q grouped) (index, []) = .ok result) :
    result.1.values = [] := by
  rw [eq_nil_iff_forall_not_mem]
  intro publication hmem
  obtain ⟨key, hf⟩ := mem_values_iff.mp hmem
  have ht := relationCuts_taken h
  obtain ⟨hp, hk, hn, rel, hr⟩ :=
    hi key publication (ht.left key publication hf)
  have hgroup : relationGroupKey q (publication.authorityKey, publication.reservation) =
      some (sourceKey rel publication.reservation) := by
    rw [relationGroupKey, if_neg (not_not.mpr hn), hr, map_some]
  have he : (publication.authorityKey, publication.reservation) ∈
      SortedMap.groupOf (relationGroupKey q) rs
        (sourceKey rel publication.reservation) :=
    mem_groupOf.mpr ⟨hc.reserved publication hp, hgroup⟩
  have hin := mem_entries_iff.mpr
    (hg.find?_eq_some.mpr ⟨ne_nil_of_mem he, rfl⟩)
  have hnone := ht.taken (publication.authorityKey, publication.reservation)
    (mem_flatMap.mpr ⟨rel, mem_of_find?_eq_some hr,
      mem_flatMap.mpr ⟨_, mem_filter.mpr ⟨hin, decide_eq_true rfl⟩, he⟩⟩)
  rw [← hk, hf] at hnone
  cases hnone

end

/-- Building relation cuts from what agrees fails only where the cut is incomplete. -/
theorem buildRelationIngestSourceCuts_error (hc : Consistent rs ps) (hr : q.validate = .ok ())
    (h : buildRelationIngestSourceCuts q rs ps = .error error) : error.IsIncomplete := by
  unfold buildRelationIngestSourceCuts at h
  rw [hr, ok_bind] at h
  rcases bind_eq_error.mp h with hgrouping | ⟨grouped, hgrouped, h⟩
  · obtain ⟨seen, entry, rest, grouped, hsplit, -, hfail⟩ :=
      foldlM_eq_error (P := fun _ _ => True) hgrouping trivial fun _ _ => trivial
    have hmem : entry ∈ rs := by
      rw [hsplit]
      exact mem_append_right _ mem_cons_self
    exact groupRelationReservation_error (hc.valid entry hmem)
      (hc.inScope entry hmem) hfail
  have hg : grouped.Groups (relationGroupKey q) rs :=
    foldlM_ok_induct
      (P := fun seen grouped => SortedMap.Groups (relationGroupKey q) seen grouped) hgrouped
      SortedMap.Groups.nil fun hg hs => groupRelationReservation_groups hg hs
  rcases bind_eq_error.mp h with hindexing | ⟨index, hindex, h⟩
  · obtain ⟨seen, publication, rest, index, hsplit, hi, hfail⟩ :=
      foldlM_eq_error (P := Indexed q) hindexing
        (fun _ _ hf => by cases hf)
        fun hi hs => indexPublication_indexed hi hs
    exact indexPublication_error hc hsplit hi hfail
  have hi : Indexed q ps index :=
    foldlM_ok_induct (P := Indexed q) hindex (fun _ _ hf => by cases hf)
      fun hi hs => indexPublication_indexed hi hs
  rcases bind_eq_error.mp h with hcutting | ⟨cuts, hcuts, h⟩
  · exact relationCuts_error hc hg hcutting
  rw [nothing_unmatched hc hg hi hcuts] at h
  cases h

end Relations

end Velorix.Meta
