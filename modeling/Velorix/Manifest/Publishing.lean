import Velorix.Manifest.Fence

/-! What the publisher does in its setting: a publication continues the chain. -/
namespace Velorix.Manifest

open Storage FallibleProgram Setting

variable {d : CheckpointManifest → String} {fenced : Prop} {w : World}
  {m : CheckpointManifest} {ε α : Type}

/-- What the program returns satisfies `post`. -/
abbrev Returns (manifestDigest : CheckpointManifest → String) (fenced : Prop)
    (post : α → World → Prop) (p : FallibleProgram Op Reply ε α) (world : World) : Prop :=
  (publisherSetting manifestDigest fenced).Returns post p world

/-- The program does not fail, and what it returns satisfies `post`. -/
abbrev Achieves (manifestDigest : CheckpointManifest → String) (fenced : Prop)
    (post : α → World → Prop) (p : FallibleProgram Op Reply ε α) (world : World) : Prop :=
  (publisherSetting manifestDigest fenced).Achieves post p world

abbrev Inv (manifestDigest : CheckpointManifest → String) (fenced : Prop) (world : World) : Prop :=
  (publisherSetting manifestDigest fenced).Inv world

variable {post : α → World → Prop}

theorem returns_free (op : Op) (hop : op.Free)
    {f : Reply op → FallibleProgram Op Reply ε α}
    (h : ∀ world₁, w.Extends world₁ → Inv d fenced (world₁.answer op).2 →
      world₁.Extends (world₁.answer op).2 →
      Returns d fenced post (f (world₁.answer op).1) (world₁.answer op).2) :
    Returns d fenced post (ask op >>= f) w := by
  refine returns_call ?_
  rintro world₁ hg hi reply world₂ hc
  obtain ⟨hi', hg'⟩ := keeps_free hop hi hc
  obtain ⟨rfl, rfl⟩ := hc
  exact ⟨hi', hg', h world₁ hg hi' hg'⟩

theorem achieves_free (op : Op) (hop : op.Free)
    {f : Reply op → FallibleProgram Op Reply ε α}
    (h : ∀ world₁, w.Extends world₁ → Inv d fenced (world₁.answer op).2 →
      world₁.Extends (world₁.answer op).2 →
      Achieves d fenced post (f (world₁.answer op).1) (world₁.answer op).2) :
    Achieves d fenced post (ask op >>= f) w := by
  refine achieves_call ?_
  rintro world₁ hg hi reply world₂ hc
  obtain ⟨hi', hg'⟩ := keeps_free hop hi hc
  obtain ⟨rfl, rfl⟩ := hc
  exact ⟨hi', hg', h world₁ hg hi' hg'⟩

variable {v : UInt64}

theorem checkManifestAt_ok {result : CheckpointManifest}
    (h : checkManifestAt v m = .ok result) : result = m := by
  obtain ⟨-, -, h⟩ := Result.bind_eq_ok.mp h
  split_ifs at h
  exact (Except.ok.inj h).symm

theorem checkManifestAt_of_lookup (hi : Inv d fenced w)
    (h : w.manifests.lookup v = some m) : checkManifestAt v m = .ok m := by
  rw [checkManifestAt, (hi.1.publishable h).valid]
  have hk : checkpointManifestKey v = m.objectKey := by
    rw [CheckpointManifest.objectKey, KeyedMap.key_of_lookup h]
  simp [orManifestError, Except.mapError, hk]

theorem returns_readParentManifest (v parentCheckpoint : UInt64) :
    Returns d fenced (fun parent later => later.manifests.lookup parentCheckpoint = some parent)
      (readParentManifest v parentCheckpoint) w := by
  refine returns_free (.getManifest _) trivial fun world₁ _ _ _ => ?_
  cases hl : world₁.manifests.lookup parentCheckpoint with
  | none =>
    simp only [World.answer, hl, found]
    exact returns_throw
  | some parent =>
    simp only [World.answer, hl, found]
    refine returns_fromExcept ?_
    intro result hr later hg _
    rw [checkManifestAt_ok hr]
    exact hg.manifests hl

theorem returns_validateParentManifestVisible (hi : Inv d fenced w) (m : CheckpointManifest) :
    Returns d fenced (fun _ later => ParentVisible m later)
      (validateParentManifestVisible m) w := by
  rw [validateParentManifestVisible]
  split
  · rename_i hn
    refine returns_pure fun later _ _ parentCheckpoint hp => ?_
    rw [hn] at hp
    cases hp
  · rename_i parentCheckpoint hs
    refine Setting.Returns.bind hi ((returns_readParentManifest _ _).weaken ?_)
    intro parent world₁ _ _ hp
    refine returns_fromExcept fun _ hprogress later hg _ => ?_
    intro parentCheckpoint' hp'
    cases hs.symm.trans hp'
    exact ⟨parent, hg.manifests hp, hprogress⟩

theorem returns_preflightManifestPublication (hi : Inv d fenced w) (m : CheckpointManifest) :
    Returns d fenced (fun _ later => m.validate = .ok () ∧ ParentVisible m later)
      (preflightManifestPublication m) w := by
  refine Setting.Returns.bind hi (returns_fromExcept fun _ hv world₁ _ hi₁ => ?_)
  refine (returns_validateParentManifestVisible hi₁ m).weaken ?_
  intro _ later _ _ hp
  refine ⟨?_, hp⟩
  cases hr : m.validate with
  | error error =>
    rw [hr] at hv
    cases hv
  | ok _ => rfl

variable {missing : ObjectKey → CheckpointPublishError} {key : ObjectKey}

theorem objectExists_ok
    (h : objectExists missing key (w.answer (.head key)).1 = .ok ()) : ObjectExists key w := by
  cases hl : w.objects.lookup key with
  | none =>
    simp [World.answer, hl, found, objectExists, Except.map] at h
  | some bytes => exact ⟨bytes, hl⟩

theorem objectExists_of_exists
    (h : ObjectExists key w) : objectExists missing key (w.answer (.head key)).1 = .ok () := by
  obtain ⟨bytes, hl⟩ := h
  simp [World.answer, hl, found, objectExists, Except.map]

theorem returns_validateStateObjectsExist (hi : Inv d fenced w) (m : CheckpointManifest) :
    Returns d fenced (fun _ later => ∀ s ∈ m.stateObjects, ObjectExists s.objectKey later)
      (validateStateObjectsExist m) w := by
  refine Setting.Returns.bind hi ((returns_forEach
    (P := fun (s : StateObjectRef) (_ : Unit) later => ObjectExists s.objectKey later)
    hi (fun h hg => h.grow hg) ?_).weaken ?_)
  · intro s _ world₁ _ _
    refine returns_free (.head _) trivial fun world₂ _ _ _ => ?_
    exact returns_fromExcept fun _ hr later hg _ =>
      (objectExists_ok hr).grow hg
  · intro results later _ _ hresults
    refine returns_pure fun later' hg _ s hs => ?_
    obtain ⟨_, _, he⟩ := hresults.exists_of_mem_left hs
    exact he.grow hg

theorem returns_validateOutputObjectsExist (hi : Inv d fenced w) (m : CheckpointManifest) :
    Returns d fenced (fun _ later => ∀ o ∈ m.outputObjects, ObjectExists o.objectKey later)
      (validateOutputObjectsExist m) w := by
  refine Setting.Returns.bind hi ((returns_forEach
    (P := fun (o : OutputObjectRef) (result : Except CheckpointPublishError Unit) later =>
      result = .ok () → ObjectExists o.objectKey later)
    hi (fun h hg hr => (h hr).grow hg) ?_).weaken ?_)
  · intro o _ world₁ _ _
    refine returns_free (.head _) trivial fun world₂ _ _ _ => ?_
    exact returns_pure fun later hg _ hr => (objectExists_ok hr).grow hg
  · intro results later _ _ hresults
    refine returns_fromExcept fun _ ha later' hg _ o ho => ?_
    obtain ⟨result, hm, he⟩ := hresults.exists_of_mem_left ho
    exact (he (Result.of_forM_ok ha hm)).grow hg

theorem returns_bestEffortPublishLatestCandidateMarker (m : CheckpointManifest)
    (hpub : w.manifests.lookup m.checkpointVersion = some m) :
    Returns d fenced (fun _ _ => True) (bestEffortPublishLatestCandidateMarker d m) w := by
  have hp {w : World}
      (hpub : w.manifests.lookup m.checkpointVersion = some m) :
      Returns d fenced (fun _ _ => True) (do
        let _ ← (Op.putMarker (.forManifest d m)).ask) w := by
    refine returns_call fun world₁ hg hi reply world₂ hc => ?_
    obtain ⟨-, rfl⟩ := hc
    refine ⟨⟨hi.1.setMarker (hg.manifests hpub), fun h => (hi.2 h).keep rfl⟩,
      ⟨id, id⟩, returns_pure fun _ _ _ => trivial⟩
  refine returns_free .getMarker trivial fun world₁ hg _ _ => ?_
  split
  · split_ifs
    · exact returns_pure fun _ _ _ => trivial
    · exact hp (hg.manifests hpub)
  · exact hp (hg.manifests hpub)

/-- A publication continues the chain, and where claims are fenced, it needs a fence. -/
theorem returns_publishManifest (hi : Inv d fenced w) (hfence : fenced → ∃ c, Fence m c w) :
    Returns d fenced (fun _ _ => True) (publishManifest d m) w := by
  refine Setting.Returns.bind hi ((returns_preflightManifestPublication hi m).weaken ?_)
  rintro - world₁ hg₁ hi₁ ⟨hv, hp⟩
  refine Setting.Returns.bind hi₁ ((returns_validateStateObjectsExist hi₁ m).weaken ?_)
  rintro - world₂ hg₂ hi₂ hstates
  refine Setting.Returns.bind hi₂ ((returns_validateOutputObjectsExist hi₂ m).weaken ?_)
  rintro - world₃ hg₃ hi₃ houts
  refine returns_call fun world₄ hg₄ hi₄ reply world₅ hc => ?_
  have hpublishable : Publishable m world₄ :=
    ⟨hv, hp.grow (hg₂.trans (hg₃.trans hg₄)), fun s hs => (hstates s hs).grow (hg₃.trans hg₄),
      fun o ho => (houts o ho).grow hg₄⟩
  have hg := hc.extends
  obtain ⟨rfl, rfl⟩ := hc
  have hi₅ : Inv d fenced (world₄.answer (.putManifest m)).2 := by
    refine createOnly_keeps hi₄ fun hf => ⟨hi₄.1.create hpublishable hf, fun h => ?_⟩
    obtain ⟨c, hclaim⟩ := hfence h
    exact (hi₄.2 h).create hi₄.1
      (hclaim.grow (hg₁.trans (hg₂.trans (hg₃.trans hg₄)))) hf
  refine ⟨hi₅, hg, ?_⟩
  cases hl : world₄.manifests.lookup m.checkpointVersion with
  | some existing =>
    simp only [World.answer, hl, createOnly]
    exact returns_throw
  | none =>
    rw [World.answer, hl, createOnly] at hi₅ ⊢
    have hpub : (world₄.manifests.insert m).lookup m.checkpointVersion =
        some m := by rw [KeyedMap.lookup_insert, if_pos rfl]
    refine Setting.Returns.bind hi₅ (returns_free (.putLifecycle _) trivial fun world₆ hg₆ _
      hg₇ => returns_pure fun world₇ hg₈ _ => ?_)
    exact returns_bestEffortPublishLatestCandidateMarker m
      ((hg₆.trans (hg₇.trans hg₈)).manifests hpub)

end Velorix.Manifest
