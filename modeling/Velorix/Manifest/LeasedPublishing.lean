import Velorix.Manifest.Listing

/-! A publication under a lease is fenced: what was published before it was looked at when it was
already complete. -/
namespace Velorix.Manifest

open Storage FallibleProgram Result List CheckpointManifest Setting

variable {d : CheckpointManifest → String} {fenced : Prop} {w : World}
  {m : CheckpointManifest} {c : PartitionOwnerClaim} {α : Type}

theorem only_storeReply (reply : Except ObjectStoreError α) : Only Op.Free (storeReply reply) :=
  only_fromExcept _

theorem only_listPublishedManifests : Only Op.Free listPublishedManifests := by
  refine only_call trivial fun reply => (only_storeReply reply).bind fun versions => ?_
  refine (only_forEach (fun _ => only_call trivial fun _ => only_pure _) versions).bind fun _ => ?_
  exact (only_fromExcept _).bind fun _ => (only_fromExcept _).bind fun _ => only_pure _

theorem only_validateOwnerClaimCurrent (partitions : List UInt32) (c : PartitionOwnerClaim) :
    Only Op.Free (validateOwnerClaimCurrent partitions c) :=
  only_listPublishedManifests.bind fun _ => only_fromExcept _

theorem only_validateMatching (i : String × UInt32) (c : PartitionOwnerClaim) :
    Only Op.Free (validateMatchingOwnershipEpochRecordVisible i c) := by
  refine (only_fromExcept _).bind fun _ => only_call trivial fun reply => ?_
  rcases reply with (_ | _ | _) | r
  all_goals first | exact only_throw _ | exact only_fromExcept _

theorem only_validateNoNewer (i : String × UInt32) (c : PartitionOwnerClaim) :
    Only Op.Free (validateNoNewerVisibleOwnershipEpochRecord i c) := by
  refine (only_fromExcept _).bind fun _ => only_call trivial fun reply => ?_
  refine (only_storeReply reply).bind fun epochs => ?_
  refine (only_forEach (fun _ => only_call trivial fun _ => only_storeReply _) epochs).bind ?_
  exact fun _ => only_fromExcept _

theorem only_validateProductionOwnerClaimCurrent (i : String × UInt32) (c : PartitionOwnerClaim) :
    Only Op.Free (validateProductionOwnerClaimCurrent i c) :=
  (only_validateMatching i c).bind fun _ =>
    (only_validateOwnerClaimCurrent _ c).bind fun _ => only_validateNoNewer i c

theorem only_createObject (taken : ObjectKey → CheckpointPublishError) (key : ObjectKey)
    (bytes : Bytes) : Only Op.Free (createObject taken key bytes) := by
  refine only_call trivial fun reply => ?_
  rcases reply with (_ | _ | _) | _
  all_goals first | exact only_throw _ | exact only_pure _

theorem only_writeStateObject (s : StateObjectWrite) : Only Op.Free (writeStateObject s) :=
  (only_createObject _ _ _).bind fun _ => only_pure _

theorem only_writeOutputObject (o : OutputObjectWrite) : Only Op.Free (writeOutputObject o) :=
  (only_createObject _ _ _).bind fun _ => only_pure _

theorem only_writeStateObjectFenced (c : PartitionOwnerClaim) (s : StateObjectWrite) :
    Only Op.Free (writeStateObjectFenced c s) :=
  (only_fromExcept _).bind fun _ => (only_validateOwnerClaimCurrent _ c).bind fun _ =>
    only_writeStateObject s

theorem only_writeStateObjectFencedProduction (sid : String) (c : PartitionOwnerClaim)
    (s : StateObjectWrite) : Only Op.Free (writeStateObjectFencedProduction sid c s) :=
  (only_fromExcept _).bind fun _ => (only_validateProductionOwnerClaimCurrent _ c).bind fun _ =>
    only_writeStateObject s

theorem only_writeOutputObjectFenced (c : PartitionOwnerClaim) (o : OutputObjectWrite) :
    Only Op.Free (writeOutputObjectFenced c o) :=
  (only_fromExcept _).bind fun _ => (only_validateOwnerClaimCurrent _ c).bind fun _ =>
    only_writeOutputObject o

theorem only_writeOutputObjectFencedProduction (c : PartitionOwnerClaim)
    (o : OutputObjectWrite) : Only Op.Free (writeOutputObjectFencedProduction c o) :=
  (only_fromExcept _).bind fun _ => (only_validateProductionOwnerClaimCurrent _ c).bind fun _ =>
    only_writeOutputObject o

theorem only_validateSlotsCurrent (c : PartitionOwnerClaim)
    (slots checked : List (String × UInt32)) :
    Only Op.Free (validateSlotsCurrent c slots checked) := by
  induction slots generalizing checked with
  | nil => exact only_pure _
  | cons i rest ih =>
    rw [validateSlotsCurrent]
    split_ifs
    · exact ih checked
    · exact (only_validateMatching i c).bind fun _ =>
        (only_validateNoNewer i c).bind fun _ => ih _

theorem returns_of_free {p : Publishing α} (h : Only Op.Free p) :
    Returns d fenced (fun _ _ => True) p w :=
  returns_of_only h keeps_free

theorem notNewer_of_check {current : PartitionOwnerClaim}
    (h : isCurrentClaimNewerOrConflicting current c = false) : NotNewer current c := by
  simp only [isCurrentClaimNewerOrConflicting, Bool.or_eq_false_iff, decide_eq_false_iff_not,
    not_lt, Bool.and_eq_false_iff, beq_eq_false_iff_ne, bne_eq_false_iff_eq] at h
  exact ⟨h.1, fun heq => h.2.resolve_left fun hne => hne heq⟩

theorem notNewer_of_validate {partitions : List UInt32} {p : UInt32} {c' : PartitionOwnerClaim}
    (h : validateManifestCurrent partitions c m = .ok ()) (hp : p ∈ partitions) (ha : About m p)
    (hclaimed : ClaimedBy m c') : NotNewer c' c := by
  obtain ⟨s, hs, rfl⟩ := ha
  obtain ⟨_, hstates, -⟩ := bind_eq_ok.mp h
  have hc := of_forM_ok hstates hs
  simp only [validateRefCurrent, hp, not_true_eq_false, if_false, hclaimed.states s hs] at hc
  split_ifs at hc with hn
  exact notNewer_of_check (Bool.not_eq_true _ ▸ hn)

theorem returns_validateOwnerClaimCurrent (hi : Inv d fenced w)
    (partitions : List UInt32) (c : PartitionOwnerClaim) :
    Returns d fenced (fun _ _ => ∀ v m, w.manifests.lookup v = some m →
      validateManifestCurrent partitions c m = .ok ())
      (validateOwnerClaimCurrent partitions c) w := by
  refine Setting.Returns.bind hi (achieves_listPublishedManifests.returns.weaken ?_)
  rintro ms world₁ - - ⟨-, ha⟩
  refine returns_fromExcept fun _ hc _ _ _ => ?_
  intro v m hl
  exact of_forM_ok hc (ha v m hl)

/-- A manifest that passes the checks of a fenced publication is published under one claim. -/
theorem claimedBy_of_validate (h : validateFencedManifest m c = .ok ()) : ClaimedBy m c := by
  obtain ⟨_, -, h⟩ := bind_eq_ok.mp h
  obtain ⟨_, hclaims, hprogress⟩ := bind_eq_ok.mp h
  obtain ⟨_, hstates, ho⟩ := bind_eq_ok.mp (of_mapError_ok hclaims)
  obtain ⟨_, hi, ho'⟩ := bind_eq_ok.mp hprogress
  have hclaimed {kind : String} {p : UInt32}
      (h : validateProgressClaimed (claimedPartitions m c) c kind p = .ok ()) : About m p := by
    rw [validateProgressClaimed] at h
    split_ifs at h with hm
    obtain ⟨s, hs, hp⟩ := mem_map.mp hm
    exact ⟨s, (mem_filter.mp hs).1, hp⟩
  refine ⟨?_, ?_, ?_, ?_⟩
  · intro s hs
    have hc := of_forM_ok hstates hs
    rw [validateStateClaim] at hc
    split at hc
    · rename_i actual ha
      split_ifs at hc with heq
      rw [ha, heq]
    · cases hc
  · intro o hout
    have hc := of_forM_ok ho hout
    rw [validateOutputClaim] at hc
    split at hc
    · rename_i actual ha
      split_ifs at hc with heq
      rw [ha, heq]
    · cases hc
  · exact fun r hr => hclaimed (of_forM_ok hi hr :)
  · exact fun o hout => hclaimed (of_forM_ok ho' hout :)

theorem published_of_parentVisible (hi : Inv d fenced w)
    (hv : m.validate = .ok ()) (hp : ParentVisible m w) : CompleteBelow m.checkpointVersion w := by
  intro v hlt
  rcases parent_of_validate hv with ⟨hz, -⟩ | ⟨hn, hs⟩
  · rw [hz, UInt64.lt_iff_toNat_lt] at hlt
    simp at hlt
  · obtain ⟨parent, hvisible, -⟩ := hp _ hs
    have hone : (1 : UInt64) ≤ m.checkpointVersion := by
      rw [UInt64.le_iff_toNat_le]
      have hpos : m.checkpointVersion.toNat ≠ 0 := fun h =>
        hn (UInt64.toNat_inj.mp h)
      have : (1 : UInt64).toNat = 1 := rfl
      omega
    have hle : v ≤ m.checkpointVersion - 1 := by
      rw [UInt64.le_iff_toNat_le, UInt64.toNat_sub_of_le _ _ hone]
      rw [UInt64.lt_iff_toNat_lt] at hlt
      have : (1 : UInt64).toNat = 1 := rfl
      omega
    obtain ⟨earlier, he, -⟩ := hi.1.ancestor hvisible hle
    exact ⟨earlier, he⟩

theorem fence_of_current {partitions : List UInt32} {later : World} (hclaimed : ClaimedBy m c)
    (hparts : ∀ p, About m p → p ∈ partitions) (hp : CompleteBelow m.checkpointVersion w)
    (hc : ∀ v earlier, w.manifests.lookup v = some earlier →
      validateManifestCurrent partitions c earlier = .ok ())
    (hg : w.Extends later) : Fence m c later := by
  refine Fence.grow ⟨hclaimed, hp, ?_⟩ hg
  intro v earlier p c' _ hl ha ha' hclaimed'
  exact notNewer_of_validate (hc v earlier hl)
    (hparts p ha') ha hclaimed'

theorem returns_publishManifestFenced (hi : Inv d fenced w)
    (hp : CompleteBelow m.checkpointVersion w) :
    Returns d fenced (fun _ _ => True) (publishManifestFenced d m c) w := by
  refine Setting.Returns.bind hi (returns_fromExcept fun _ hv world₁ hg₁ hi₁ => ?_)
  refine Setting.Returns.bind hi₁ ((returns_validateOwnerClaimCurrent hi₁ _ c).weaken ?_)
  intro _ world₂ hg₂ hi₂ hc
  refine returns_publishManifest hi₂ fun _ => ⟨c, fence_of_current
    (claimedBy_of_validate hv) ?_ (hp.grow hg₁) hc hg₂⟩
  rintro p ⟨s, hs, rfl⟩
  exact mem_map.mpr ⟨s, hs, rfl⟩

theorem yields_validateSlotsCurrent (c : PartitionOwnerClaim)
    (slots checked : List (String × UInt32)) :
    Yields (fun partitions => ∀ i ∈ checked ++ slots, i.2 ∈ partitions)
      (validateSlotsCurrent c slots checked) := by
  induction slots generalizing checked with
  | nil =>
    refine yields_fromExcept (?_ : ∀ partitions, Except.ok (checked.map (·.2)) =
      Except.ok partitions → _)
    rintro _ ⟨⟩ i hs
    exact mem_map_of_mem (by simpa using hs)
  | cons i rest ih =>
    rw [validateSlotsCurrent]
    split_ifs with hc
    · refine (ih checked).mono fun partitions hparts i' hs' => hparts i' ?_
      rcases mem_append.mp hs' with hm | hm
      · exact mem_append_left _ hm
      · rcases mem_cons.mp hm with rfl | hm
        · exact mem_append_left _ (contains_iff_mem.mp hc)
        · exact mem_append_right _ hm
    · refine (yields_true _).bind fun _ _ => (yields_true _).bind fun _ _ => ?_
      refine (ih _).mono fun partitions hparts i' hs' => hparts i' ?_
      simpa using hs'

theorem returns_publishManifestFencedProduction (hi : Inv d fenced w)
    (hp : CompleteBelow m.checkpointVersion w)
    (hs : ∀ p, About m p → ∃ r ∈ m.inputRanges, r.partitionId = p) :
    Returns d fenced (fun _ _ => True) (publishManifestFencedProduction d m c) w := by
  refine Setting.Returns.bind hi (returns_fromExcept fun _ hv world₁ hg₁ hi₁ => ?_)
  refine Setting.Returns.bind hi₁ (Setting.Returns.bind hi₁ ((Setting.Returns.of_yields
    (returns_of_free (only_validateSlotsCurrent c _ [])) (yields_validateSlotsCurrent c _ [])
    ).weaken ?_))
  rintro partitions world₂ hg₂ hi₂ ⟨-, hparts⟩
  refine (returns_validateOwnerClaimCurrent hi₂ partitions c).weaken ?_
  intro _ world₃ hg₃ hi₃ hc
  refine returns_publishManifest hi₃ fun _ => ⟨c, fence_of_current
    (claimedBy_of_validate hv) ?_ (hp.grow (hg₁.trans hg₂)) hc hg₃⟩
  intro p ha
  obtain ⟨r, hr, rfl⟩ := hs p ha
  refine hparts r.slot ?_
  rw [nil_append]
  exact mem_append_left _ (mem_map_of_mem hr)

theorem returns_publisherStep {post : α → World → Prop} {p : Publishing α}
    (hi : Inv d fenced w) (h : Returns d fenced post p w)
    (hs : ∀ {a later later'}, post a later → later.Extends later' → post a later') :
    Returns d fenced post (publisherStep p) w := by
  refine Setting.Safe.bind hi (Setting.Safe.weaken h ?_)
  rintro (error | a) later - - hr later' hg - b hb
  · cases hb
  · cases hb
    exact hs (hr a rfl) hg

theorem returns_freeStep {p : Publishing α} (hi : Inv d fenced w) (h : Only Op.Free p) :
    Returns d fenced (fun _ _ => True) (publisherStep p) w :=
  returns_publisherStep hi (returns_of_free h) fun _ _ => trivial

/-- A request that passes its checks is about the partition of its grant only. -/
structure RequestValid (request : LeasedRequest) : Prop where
  valid : request.manifest.validate = .ok ()
  partition : ∀ partitionId, About request.manifest partitionId →
    ∃ range ∈ request.manifest.inputRanges, range.partitionId = partitionId
  states : request.manifest.stateObjects = request.stateObjects.map (·.objectRef)

theorem mem_manifestPartitions {p : UInt32} :
    p ∈ manifestPartitions m ↔ (∃ r ∈ m.inputRanges, r.partitionId = p) ∨ About m p ∨
      ∃ o ∈ m.outputObjects, o.partitionId = p := by
  rw [manifestPartitions, mem_dedup, (perm_insertionSort _ _).mem_iff]
  simp only [mem_append, mem_map, About, or_assoc]

theorem requestValid_of_validate {q : LeasedRequest} (h : q.validate = .ok ()) :
    RequestValid q := by
  obtain ⟨_, -, h⟩ := bind_eq_ok.mp h
  obtain ⟨_, hv, h⟩ := bind_eq_ok.mp h
  obtain ⟨_, hs, h⟩ := bind_eq_ok.mp h
  obtain ⟨_, -, h⟩ := bind_eq_ok.mp h
  obtain ⟨_, -, h⟩ := bind_eq_ok.mp h
  obtain ⟨_, -, hrefs⟩ := bind_eq_ok.mp h
  have hv := of_mapError_ok hv
  refine ⟨hv, ?_, ?_⟩
  · intro p ha
    obtain ⟨r, hr⟩ :=
      exists_mem_of_ne_nil _ (inputRanges_ne_nil hv)
    have hm : p ∈ manifestPartitions q.manifest :=
      mem_manifestPartitions.mpr (.inr (.inl ha))
    have hm' : r.partitionId ∈ manifestPartitions q.manifest :=
      mem_manifestPartitions.mpr (.inl ⟨r, hr, rfl⟩)
    refine ⟨r, hr, ?_⟩
    rw [validateSingleGrantPartition] at hs
    split at hs
    · rename_i hn
      simp [hn] at hm
    · rename_i actual hone
      rw [hone] at hm hm'
      rw [mem_singleton.mp hm, mem_singleton.mp hm']
    · cases hs
  · simp only [validateManifestRefsMatchWrites] at hrefs
    split_ifs at hrefs with hstates ho
    exact not_ne_iff.mp hstates

theorem returns_preflight (hi : Inv d fenced w) {q : LeasedRequest} {rest : Leasing Unit}
    (h : ∀ later, RequestValid q → Inv d fenced later →
      CompleteBelow q.manifest.checkpointVersion later →
      Returns d fenced (fun _ _ => True) rest later) :
    Returns d fenced (fun _ _ => True) (fromExcept q.validate >>= fun _ =>
      publisherStep (preflightManifestPublication q.manifest) >>= fun _ => rest) w := by
  refine Setting.Returns.bind hi (returns_fromExcept fun _ hv world₁ _ hi₁ => ?_)
  refine Setting.Returns.bind hi₁ ((returns_publisherStep hi₁
    (returns_preflightManifestPublication hi₁ q.manifest) ?_).weaken ?_)
  · exact fun h hg => ⟨h.1, h.2.grow hg⟩
  rintro - world₂ hg₂ hi₂ ⟨hm, hp⟩
  exact h world₂ (requestValid_of_validate hv) hi₂
    (published_of_parentVisible hi₂ hm hp)

theorem returns_publish (hi : Inv d fenced w) (q : LeasedRequest) :
    Returns d fenced (fun _ _ => True) (publish d q) w := by
  refine returns_preflight hi fun world₂ _ hi₂ hp => ?_
  refine Setting.Returns.bind hi₂ ((returns_freeStep hi₂
    (only_forEach (only_writeStateObjectFenced _) _)).weaken ?_)
  rintro - world₃ hg₃ hi₃ -
  refine Setting.Returns.bind hi₃ ((returns_freeStep hi₃
    (only_forEach (only_writeOutputObjectFenced _) _)).weaken ?_)
  rintro - world₄ hg₄ hi₄ -
  exact returns_publisherStep hi₄ (returns_publishManifestFenced hi₄
    (hp.grow (hg₃.trans hg₄))) fun _ _ => trivial

theorem yields_writeStateObjectFencedProduction (sid : String) (c : PartitionOwnerClaim)
    (s : StateObjectWrite) :
    Yields (· = s.objectRef) (writeStateObjectFencedProduction sid c s) := by
  refine (yields_true _).bind fun _ _ => (yields_true _).bind fun _ _ => ?_
  refine (yields_true _).bind fun _ _ => ?_
  exact yields_fromExcept fun _ hr => (Except.ok.inj hr).symm

theorem returns_writeStates (hi : Inv d fenced w) (sid : String)
    (c : PartitionOwnerClaim) (states : List StateObjectWrite) :
    Returns d fenced (fun refs _ => refs = states.map (·.objectRef))
      (forEach (writeStateObjectFencedProduction sid c) states) w := by
  refine (returns_forEach
    (P := fun (s : StateObjectWrite) ref _ => ref = s.objectRef) hi (fun h _ => h)
    ?_).weaken ?_
  · intro s _ world₁ _ _
    refine (Setting.Returns.of_yields (returns_of_free (only_writeStateObjectFencedProduction
      sid c s)) (yields_writeStateObjectFencedProduction sid c s)).weaken ?_
    exact fun _ _ _ _ h => h.2
  · intro refs _ _ _ hrefs
    induction hrefs with
    | nil => rfl
    | cons hh _ ih => rw [hh, ih, map_cons]

theorem returns_publishProduction (hi : Inv d fenced w)
    (productionAuthorityValidated : Bool) (q : LeasedRequest) :
    Returns d fenced (fun _ _ => True) (publishProduction d productionAuthorityValidated q) w := by
  rw [publishProduction]
  split_ifs
  · exact returns_throw
  refine returns_preflight hi fun world₂ hr hi₂ hp => ?_
  refine Setting.Returns.bind hi₂ ((returns_publisherStep hi₂
    (returns_writeStates hi₂ _ _ _) fun h _ => h).weaken ?_)
  intro stateRefs world₃ hg₃ hi₃ hrefs
  refine Setting.Returns.bind hi₃ ((returns_freeStep hi₃
    (only_forEach (only_writeOutputObjectFencedProduction _) _)).weaken ?_)
  rintro - world₄ hg₄ hi₄ -
  -- what was produced is what the manifest refers to
  rw [← hr.states] at hrefs
  subst hrefs
  exact returns_publisherStep hi₄ (returns_publishManifestFencedProduction hi₄
    (hp.grow (hg₃.trans hg₄)) hr.partition) fun _ _ => trivial

end Velorix.Manifest
