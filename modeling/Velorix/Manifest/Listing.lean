import Velorix.Manifest.Publishing

/-! A chain of manifests can always be listed, and its latest manifest can always be found. -/
namespace Velorix.Manifest

open Storage FallibleProgram Result Setting LatestCandidateMarker List

variable {ms : List CheckpointManifest}

variable {d : CheckpointManifest → String} {fenced : Prop} {w : World}
  {manifest : CheckpointManifest}

theorem validateManifestLineage_ok (hi : Inv d fenced w)
    (hr : ∀ manifest ∈ ms, w.manifests.lookup manifest.checkpointVersion = some manifest)
    (hc : ∀ manifest ∈ ms, ∀ parentCheckpoint, manifest.parentCheckpoint = some parentCheckpoint →
      ∃ parent ∈ ms, parent.checkpointVersion = parentCheckpoint) :
    validateManifestLineage ms = .ok () := by
  refine forM_ok fun manifest hm => ?_
  split
  · rfl
  · rename_i parentCheckpoint hp
    obtain ⟨parent, hmem, hver⟩ := hc manifest hm parentCheckpoint hp
    obtain ⟨visible, hv, hprogress⟩ :=
      (hi.1.publishable (hr manifest hm)).parent parentCheckpoint hp
    cases hat : manifestAt ms parentCheckpoint with
    | none =>
      have hn := find?_eq_none.mp hat parent (mem_reverse.mpr hmem)
      simp [hver] at hn
    | some found =>
      have hf : found.checkpointVersion = parentCheckpoint := by
        simpa using find?_some hat
      have hl := hr found (mem_reverse.mp (mem_of_find?_eq_some hat))
      rw [hf, hv] at hl
      cases hl
      exact hprogress

theorem mem_sortByVersion : manifest ∈ sortByVersion ms ↔ manifest ∈ ms :=
  (perm_insertionSort _ ms).mem_iff

theorem exists_manifests {versions : List UInt64}
    {results : List (Except CheckpointPublishError CheckpointManifest)}
    (h : List.Forall₂ (fun v result => ∃ manifest,
      w.manifests.lookup v = some manifest ∧ result = .ok manifest)
      versions results) :
    ∃ ms : List CheckpointManifest, results = ms.map .ok ∧ List.Forall₂ (fun v manifest =>
        w.manifests.lookup v = some manifest) versions ms := by
  induction h with
  | nil => exact ⟨[], rfl, .nil⟩
  | cons hh _ ih =>
    obtain ⟨manifest, hl, rfl⟩ := hh
    obtain ⟨ms, rfl, hmanifests⟩ := ih
    exact ⟨manifest :: ms, rfl, .cons hl hmanifests⟩

/-- The manifests are listed without fail, all of them that were there. -/
theorem achieves_listPublishedManifests :
    Achieves d fenced (fun ms later =>
      (∀ manifest ∈ ms, later.manifests.lookup manifest.checkpointVersion = some manifest) ∧
      ∀ v manifest, w.manifests.lookup v = some manifest →
        manifest ∈ ms) listPublishedManifests w := by
  refine achieves_free .listManifests trivial fun world₁ hg₁ hi₁ _ => ?_
  refine Setting.Achieves.bind hi₁ (achieves_fromExcept rfl fun world₂ hg₂ hi₂ => ?_)
  refine Setting.Achieves.bind hi₂ ((achieves_forEach
    (P := fun v result (later : World) => ∃ manifest,
      later.manifests.lookup v = some manifest ∧ result = .ok manifest)
    hi₂ ?_ ?_).weaken ?_)
  · rintro v result _ _ ⟨manifest, hl, hres⟩ hg
    exact ⟨manifest, hg.manifests hl, hres⟩
  · intro v hlisted world₃ hg₃ _
    obtain ⟨manifest, hl⟩ := KeyedMap.mem_keys.mp hlisted
    refine achieves_free (.getManifest v) trivial fun world₄ hg₄ hi₄ _ => ?_
    have hl₄ := (hg₂.trans (hg₃.trans hg₄)).manifests hl
    refine achieves_pure fun later hg _ =>
      ⟨manifest, hg.manifests hl₄, ?_⟩
    simp only [World.answer, hl₄, found]
    exact checkManifestAt_of_lookup hi₄ hl₄
  · intro results world₃ hg₃ hi₃ hresults
    obtain ⟨ms, rfl, hmanifests⟩ := exists_manifests hresults
    -- every manifest that was listed is still there, and was read
    have hr : ∀ manifest ∈ sortByVersion ms,
        world₃.manifests.lookup manifest.checkpointVersion = some manifest := by
      intro manifest hm
      obtain ⟨v, -, hl⟩ :=
        hmanifests.exists_of_mem_right (mem_sortByVersion.mp hm)
      rwa [KeyedMap.key_of_lookup hl]
    have ha (v : UInt64) (manifest : CheckpointManifest)
        (hl : world₁.manifests.lookup v = some manifest) :
        manifest ∈ sortByVersion ms := by
      obtain ⟨read, hmem, hr⟩ := hmanifests.exists_of_mem_left
        (KeyedMap.mem_keys.mpr ⟨manifest, hl⟩)
      rw [(hg₂.trans hg₃).manifests hl] at hr
      cases hr
      exact mem_sortByVersion.mpr hmem
    have hlineage : validateManifestLineage (sortByVersion ms) = .ok () := by
      refine validateManifestLineage_ok hi₃ hr fun manifest hm parentCheckpoint hp => ?_
      obtain ⟨v, hlisted, hl⟩ :=
        hmanifests.exists_of_mem_right (mem_sortByVersion.mp hm)
      obtain ⟨listed, hlisted⟩ := KeyedMap.mem_keys.mp hlisted
      rw [(hg₂.trans hg₃).manifests hlisted] at hl
      cases hl
      obtain ⟨parent, hv, -⟩ := (hi₁.1.publishable hlisted).parent _ hp
      exact ⟨parent, ha _ parent hv, KeyedMap.key_of_lookup hv⟩
    refine Setting.Achieves.bind hi₃ (achieves_fromExcept
      (mapM_id_eq_ok.mpr rfl) fun world₄ hg₄ hi₄ => ?_)
    refine Setting.Achieves.bind hi₄ (achieves_fromExcept hlineage
      fun world₅ hg₅ _ => achieves_pure fun world₆ hg₆ _ => ⟨?_, ?_⟩)
    · exact fun manifest hm =>
        (hg₄.trans (hg₅.trans hg₆)).manifests (hr manifest hm)
    · exact fun v manifest hl =>
        ha v manifest (hg₁.manifests hl)

theorem achieves_validateParentManifestVisible (hi : Inv d fenced w)
    (h : ParentVisible manifest w) :
    Achieves d fenced (fun _ _ => True) (validateParentManifestVisible manifest) w := by
  rw [validateParentManifestVisible]
  split
  · exact achieves_pure fun _ _ _ => trivial
  · rename_i parentCheckpoint hp
    obtain ⟨parent, hv, hprogress⟩ := h parentCheckpoint hp
    refine Setting.Achieves.bind hi (achieves_free (.getManifest _) trivial
      fun world₁ hg₁ hi₁ _ => ?_)
    have hv₁ := hg₁.manifests hv
    simp only [World.answer, hv₁, found]
    exact achieves_fromExcept (checkManifestAt_of_lookup hi₁ hv₁)
      fun _ _ _ => achieves_fromExcept hprogress fun _ _ _ => trivial

theorem achieves_validateStateObjectsExist (hi : Inv d fenced w)
    (h : ∀ s ∈ manifest.stateObjects, ObjectExists s.objectKey w) :
    Achieves d fenced (fun _ _ => True) (validateStateObjectsExist manifest) w := by
  refine Setting.Achieves.bind hi ((achieves_forEach
    (P := fun (_ : StateObjectRef) (_ : Unit) _ => True) hi (fun _ _ => trivial) ?_).weaken
    fun _ _ _ _ _ => achieves_pure fun _ _ _ => trivial)
  intro s hs world₁ hg₁ _
  refine achieves_free (.head _) trivial fun world₂ hg₂ _ _ => ?_
  exact achieves_fromExcept
    (objectExists_of_exists ((h s hs).grow (hg₁.trans hg₂))) fun _ _ _ => trivial

theorem achieves_validateOutputObjectsExist (hi : Inv d fenced w)
    (h : ∀ o ∈ manifest.outputObjects, ObjectExists o.objectKey w) :
    Achieves d fenced (fun _ _ => True) (validateOutputObjectsExist manifest) w := by
  refine Setting.Achieves.bind hi ((achieves_forEach
    (P := fun (_ : OutputObjectRef) (result : Except CheckpointPublishError Unit) _ =>
      result = .ok ()) hi (fun h _ => h) ?_).weaken ?_)
  · intro o ho world₁ hg₁ _
    refine achieves_free (.head _) trivial fun world₂ hg₂ _ _ => ?_
    exact achieves_pure fun _ _ _ =>
      objectExists_of_exists ((h o ho).grow (hg₁.trans hg₂))
  · intro results world₁ _ _ hresults
    refine achieves_fromExcept (forM_ok fun result hres => ?_)
      fun _ _ _ => trivial
    obtain ⟨_, -, hok⟩ := hresults.exists_of_mem_right hres
    exact hok

/-- The manifest is published by now, and nothing newer was published before. -/
structure Latest (before : World) (latest : CheckpointManifest) (later : World) : Prop where
  published : later.manifests.lookup latest.checkpointVersion = some latest
  highest : ∀ {checkpointVersion manifest},
    before.manifests.lookup checkpointVersion = some manifest →
    checkpointVersion ≤ latest.checkpointVersion

theorem Latest.grow {before later later' : World} (h : Latest before manifest later)
    (hg : later.Extends later') : Latest before manifest later' :=
  ⟨hg.manifests h.published, h.highest⟩

theorem achieves_tryLatestManifestFromCandidateMarker :
    Achieves d fenced (fun found later => ∀ latest, found = some latest → Latest w latest later)
      (tryLatestManifestFromCandidateMarker d) w := by
  refine achieves_free .getMarker trivial fun world₁ hg₁ hi₁ _ => ?_
  cases hm : world₁.marker with
  | none =>
    simp only [World.answer, hm, found]
    refine achieves_pure fun _ _ _ latest h => ?_
    cases h
  | some marker =>
    simp only [World.answer, hm, found]
    -- the marker was made of a manifest that is published
    obtain ⟨manifest, hpub, rfl⟩ := hi₁.1.marker hm
    have hp := hi₁.1.publishable hpub
    rw [if_neg (by simp [forManifest]),
      if_neg (by simp [forManifest, CheckpointManifest.objectKey])]
    refine achieves_free (.getManifest _) trivial fun world₂ hg₂ hi₂ _ => ?_
    have hpub₂ : world₂.manifests.lookup (forManifest d
        manifest).checkpointVersion = some manifest := hg₂.manifests hpub
    simp only [World.answer, hpub₂, found]
    refine Setting.Achieves.bind hi₂ (achieves_fromExcept rfl fun world₃ hg₃ hi₃ => ?_)
    rw [if_neg (by simp [forManifest])]
    refine Setting.Achieves.bind hi₃ (achieves_fromExcept
      (by rw [hp.valid]; rfl) fun world₄ hg₄ hi₄ => ?_)
    rw [if_neg (by simp [forManifest]),
      if_neg (by simp [forManifest])]
    have hp₄ := hp.grow (hg₂.trans (hg₃.trans hg₄))
    refine Setting.Achieves.bind hi₄ ((achieves_validateParentManifestVisible hi₄
      hp₄.parent).weaken ?_)
    intro _ world₅ hg₅ hi₅ _
    refine Setting.Achieves.bind hi₅ ((achieves_validateStateObjectsExist hi₅
      (hp₄.grow hg₅).states).weaken ?_)
    intro _ world₆ hg₆ hi₆ _
    refine Setting.Achieves.bind hi₆ ((achieves_validateOutputObjectsExist hi₆
      (hp₄.grow (hg₅.trans hg₆)).outputs).weaken ?_)
    intro _ world₇ hg₇ _ _
    refine achieves_free (.listManifestsAfter _) trivial fun world₈ hg₈ hi₈ _ => ?_
    refine Setting.Achieves.bind hi₈ (achieves_fromExcept rfl fun world₉ hg₉ _ => ?_)
    have hs : world₁.Extends world₈ := hg₂.trans (hg₃.trans (hg₄.trans
      (hg₅.trans (hg₆.trans (hg₇.trans hg₈)))))
    split_ifs with hf
    · refine achieves_pure fun later hg _ latest hlatest => ?_
      cases hlatest
      refine ⟨(hs.trans (hg₉.trans hg)).manifests hpub, ?_⟩
      intro v earlier hl
      have hk : v ∈ world₈.manifests.keys :=
        KeyedMap.mem_keys.mpr ⟨earlier, (hg₁.trans hs).manifests hl⟩
      have hn := filter_eq_nil_iff.mp (List.isEmpty_iff.mp hf) v hk
      exact not_lt.mp fun hlt => hn (decide_eq_true hlt)
    · refine achieves_pure fun _ _ _ latest h => ?_
      cases h

theorem latestOf_snoc (ms : List CheckpointManifest) (last : CheckpointManifest) :
    latestOf (ms ++ [last]) = match latestOf ms with
      | none => some last
      | some best =>
        if best.checkpointVersion ≤ last.checkpointVersion then some last else some best := by
  rw [latestOf, foldl_append]
  rfl

theorem eq_nil_of_latestOf (h : latestOf ms = none) : ms = [] := by
  induction ms using List.reverseRecOn with
  | nil => rfl
  | append_singleton ms last _ =>
    rw [latestOf_snoc] at h
    split at h
    · cases h
    · split_ifs at h

theorem mem_of_latestOf (h : latestOf ms = some manifest) : manifest ∈ ms ∧
      ∀ other ∈ ms, other.checkpointVersion ≤ manifest.checkpointVersion := by
  induction ms using List.reverseRecOn generalizing manifest with
  | nil => simp [latestOf] at h
  | append_singleton ms last ih =>
    rw [latestOf_snoc] at h
    cases hb : latestOf ms with
    | none =>
      rw [hb] at h
      cases h
      rw [eq_nil_of_latestOf hb]
      simp
    | some best =>
      rw [hb] at h
      obtain ⟨hmem, hmax⟩ := ih hb
      simp only at h
      split_ifs at h with hle
      · cases h
        refine ⟨by simp, ?_⟩
        intro other ho
        rcases mem_append.mp ho with ho | ho
        · exact (hmax other ho).trans hle
        · rw [mem_singleton.mp ho]
      · cases h
        refine ⟨mem_append_left _ hmem, ?_⟩
        intro other ho
        rcases mem_append.mp ho with ho | ho
        · exact hmax other ho
        · rw [mem_singleton.mp ho]
          exact (not_le.mp hle).le

/-- The latest manifest is found without fail, and there is none only if there was none. -/
theorem achieves_latestManifest (hi : Inv d fenced w) :
    Achieves d fenced (fun found later =>
      (found = none → ∀ v, w.manifests.lookup v = none) ∧
      ∀ latest, found = some latest → Latest w latest later) (latestManifest d) w := by
  have ht : (publisherSetting d fenced).Safe
      (fun result later => ∃ found, result = .ok found ∧
        ∀ latest, found = some latest → Latest w latest later)
      (ExceptT.run (tryLatestManifestFromCandidateMarker d)) w :=
    achieves_tryLatestManifestFromCandidateMarker
  have hm : Achieves d fenced
      (fun found later => ∀ latest, found = some latest → Latest w latest later)
      (latestManifestFromCandidateMarker d) w := by
    refine Setting.Achieves.bind hi ((achieves_attempt hi ht ?_).weaken ?_)
    · rintro _ later later' ⟨found, hf, hlatest⟩ hg
      exact ⟨found, hf, fun latest hs => (hlatest latest hs).grow hg⟩
    · rintro _ later - - ⟨found, rfl, hlatest⟩
      exact achieves_pure fun _ hg _ latest hs =>
        (hlatest latest hs).grow hg
  refine Setting.Achieves.bind hi (hm.weaken ?_)
  rintro (_ | manifest) world₁ hg₁ hi₁ hf
  · refine Setting.Achieves.bind hi₁ (achieves_listPublishedManifests.weaken ?_)
    rintro ms world₂ - hi₂ ⟨hr, ha⟩
    cases hlatest : latestOf ms with
    | none =>
      refine achieves_pure fun _ _ _ => ⟨fun _ v => ?_, nofun⟩
      cases hl : w.manifests.lookup v with
      | none => rfl
      | some earlier =>
        have hmem := ha _ earlier (hg₁.manifests hl)
        rw [eq_nil_of_latestOf hlatest] at hmem
        cases hmem
    | some manifest =>
      obtain ⟨hmem, hmax⟩ := mem_of_latestOf hlatest
      have hpub := hr manifest hmem
      have hp := hi₂.1.publishable hpub
      refine Setting.Achieves.bind hi₂ ((achieves_validateStateObjectsExist hi₂
        hp.states).weaken ?_)
      rintro - world₃ hg₃ hi₃ -
      refine Setting.Achieves.bind hi₃ ((achieves_validateOutputObjectsExist hi₃
        (hp.grow hg₃).outputs).weaken ?_)
      rintro - world₄ hg₄ - -
      refine achieves_pure fun later hg _ => ⟨nofun, ?_⟩
      rintro _ ⟨⟩
      refine ⟨(hg₃.trans (hg₄.trans hg)).manifests hpub, ?_⟩
      intro v earlier hl
      have hle := hmax earlier (ha _ earlier (hg₁.manifests hl))
      rwa [KeyedMap.key_of_lookup hl] at hle
  · exact achieves_pure fun _ hg _ =>
      ⟨nofun, fun latest hs => (hf latest hs).grow hg⟩

end Velorix.Manifest
