import Velorix.Manifest.World

/-! The chain of published manifests: every manifest has its parent before it, continues its input,
and refers to objects that exist. -/
namespace Velorix.Manifest

open Storage UInt64

variable {d : CheckpointManifest → String} {w later : World} {manifest : CheckpointManifest}

/-- The parent of the manifest is published, and the manifest continues its input. -/
def ParentVisible (manifest : CheckpointManifest) (world : World) : Prop :=
  ∀ parentCheckpoint, manifest.parentCheckpoint = some parentCheckpoint → ∃ parent,
    world.manifests.lookup parentCheckpoint = some parent ∧
    validateChildInputProgress manifest parent = .ok ()

def ObjectExists (key : ObjectKey) (world : World) : Prop :=
  ∃ bytes, world.objects.lookup key = some bytes

structure Publishable (manifest : CheckpointManifest) (world : World) : Prop where
  valid : manifest.validate = .ok ()
  parent : ParentVisible manifest world
  states : ∀ state ∈ manifest.stateObjects, ObjectExists state.objectKey world
  outputs : ∀ output ∈ manifest.outputObjects, ObjectExists output.objectKey world

theorem ParentVisible.grow (h : ParentVisible manifest w) (hg : w.Extends later) :
    ParentVisible manifest later := by
  intro parentCheckpoint hp
  obtain ⟨parent, hl, hprogress⟩ := h parentCheckpoint hp
  exact ⟨parent, hg.manifests hl, hprogress⟩

theorem ObjectExists.grow {key : ObjectKey} (h : ObjectExists key w)
    (hg : w.Extends later) : ObjectExists key later := by
  obtain ⟨bytes, hb⟩ := h
  exact ⟨bytes, hg.objects hb⟩

theorem Publishable.grow (h : Publishable manifest w) (hg : w.Extends later) :
    Publishable manifest later :=
  ⟨h.valid, h.parent.grow hg, fun s hs => (h.states s hs).grow hg,
    fun o ho => (h.outputs o ho).grow hg⟩

/-- Every published manifest could be published, and the marker states one of them. -/
structure ChainInv (manifestDigest : CheckpointManifest → String) (world : World) : Prop where
  publishable : ∀ {checkpointVersion manifest},
    world.manifests.lookup checkpointVersion = some manifest → Publishable manifest world
  marker : ∀ {marker}, world.marker = some marker → ∃ manifest,
    world.manifests.lookup manifest.checkpointVersion = some manifest ∧
    marker = .forManifest manifestDigest manifest

theorem ChainInv.keep (h : ChainInv d w) (hg : w.Extends later)
    (hmanifests : later.manifests = w.manifests) (hm : later.marker = w.marker) :
    ChainInv d later := by
  refine ⟨?_, ?_⟩
  · intro v manifest hl
    rw [hmanifests] at hl
    exact (h.publishable hl).grow hg
  · intro marker hm'
    rw [hm] at hm'
    rw [hmanifests]
    exact h.marker hm'

theorem ChainInv.create (h : ChainInv d w) (hn : Publishable manifest w)
    (hf : w.manifests.lookup manifest.checkpointVersion = none) :
    ChainInv d { w with manifests := w.manifests.insert manifest } := by
  have hg := extends_createManifest hf
  refine ⟨?_, ?_⟩
  · intro v manifest' hl
    rw [KeyedMap.lookup_insert] at hl
    split_ifs at hl
    · cases hl
      exact hn.grow hg
    · exact (h.publishable hl).grow hg
  · intro marker hm
    obtain ⟨manifest', hl, hm⟩ := h.marker hm
    exact ⟨manifest', hg.manifests hl, hm⟩

theorem ChainInv.setMarker (h : ChainInv d w)
    (hp : w.manifests.lookup manifest.checkpointVersion = some manifest) :
    ChainInv d { w with marker := some (.forManifest d manifest) } := by
  refine ⟨fun hl => (h.publishable hl).grow ⟨id, id⟩, ?_⟩
  rintro marker ⟨⟩
  exact ⟨manifest, hp, rfl⟩

/-- Every range of the ancestor is still there, and not smaller. -/
def Continues (child ancestor : CheckpointManifest) : Prop :=
  ∀ range ∈ ancestor.inputRanges, ∃ range' ∈ child.inputRanges, range'.slot = range.slot ∧
    range'.startOffsetInclusive ≤ range.startOffsetInclusive ∧
    range.endOffsetExclusive ≤ range'.endOffsetExclusive

theorem Continues.refl (manifest : CheckpointManifest) : Continues manifest manifest :=
  fun r hr => ⟨r, hr, rfl, le_rfl, le_rfl⟩

theorem Continues.trans {a b c : CheckpointManifest} (h : Continues a b) (h' : Continues b c) :
    Continues a c := by
  intro r hr
  obtain ⟨middle, hm, hslot, hs, he⟩ := h' r hr
  obtain ⟨last, hl, hslot', hs', he'⟩ := h middle hm
  exact ⟨last, hl, hslot'.trans hslot, hs'.trans hs, he.trans he'⟩

theorem continues_of_validate {child parent : CheckpointManifest}
    (h : validateChildInputProgress child parent = .ok ()) : Continues child parent := by
  intro r hr
  have hc := Result.of_forM_ok h hr
  split at hc
  · cases hc
  · rename_i r' hat
    split_ifs at hc with hregressed
    push Not at hregressed
    refine ⟨r', List.mem_reverse.mp (List.mem_of_find?_eq_some hat), ?_, hregressed⟩
    simpa using List.find?_some hat

theorem ChainInv.predecessor (h : ChainInv d w) {v : UInt64}
    (hl : w.manifests.lookup v = some manifest)
    (hn : v ≠ 0) : ∃ parent, w.manifests.lookup (v - 1) = some parent ∧
      Continues manifest parent := by
  have hv := KeyedMap.key_of_lookup hl
  have hpublishable := h.publishable hl
  rcases CheckpointManifest.parent_of_validate hpublishable.valid with ⟨hz, -⟩ | ⟨-, hp⟩
  · exact absurd (hv.symm.trans hz) hn
  · obtain ⟨parent, hp', hprogress⟩ := hpublishable.parent _ hp
    rw [hv] at hp'
    exact ⟨parent, hp', continues_of_validate hprogress⟩

/-- Every version before a published one is published, and is continued. -/
theorem ChainInv.ancestor (h : ChainInv d w) {v earlier : UInt64}
    (hl : w.manifests.lookup v = some manifest)
    (he : earlier ≤ v) : ∃ ancestor,
      w.manifests.lookup earlier = some ancestor ∧ Continues manifest ancestor := by
  induction hn : v.toNat generalizing v manifest with
  | zero =>
    have hs : earlier = v := by
      rw [le_iff_toNat_le] at he
      exact UInt64.toNat_inj.mp (by omega)
    subst hs
    exact ⟨manifest, hl, .refl manifest⟩
  | succ n ih =>
    by_cases hs : earlier = v
    · subst hs
      exact ⟨manifest, hl, .refl manifest⟩
    · have hne : earlier.toNat ≠ v.toNat := fun heq => hs (UInt64.toNat_inj.mp heq)
      have ho : (1 : UInt64) ≤ v := by
        rw [le_iff_toNat_le, hn]
        simp
      have hpred : (v - 1).toNat = n := by
        rw [UInt64.toNat_sub_of_le _ _ ho, hn]
        simp
      obtain ⟨parent, hp, hc⟩ := h.predecessor hl (by
        rintro rfl
        simp at hn)
      rw [le_iff_toNat_le] at he
      obtain ⟨ancestor, ha, hc'⟩ := ih hp (by
        rw [le_iff_toNat_le]
        omega) hpred
      exact ⟨ancestor, ha, hc.trans hc'⟩

theorem ChainInv.exists_length (h : ChainInv d w) : ∃ length : ℕ, ∀ v : UInt64,
      (∃ manifest, w.manifests.lookup v = some manifest) ↔ v.toNat < length := by
  classical
  by_cases hall : ∀ v : UInt64, ∃ manifest, w.manifests.lookup v = some manifest
  · exact ⟨2 ^ 64, fun v => iff_of_true (hall _) v.toNat_lt⟩
  · push Not at hall
    have hf : ∃ n, ∃ v : UInt64, v.toNat = n ∧
        ∀ manifest, w.manifests.lookup v ≠ some manifest := by
      obtain ⟨v, hn⟩ := hall
      exact ⟨_, v, rfl, hn⟩
    obtain ⟨first, hfirst, hn⟩ := Nat.find_spec hf
    refine ⟨Nat.find hf, fun v => ⟨?_, ?_⟩⟩
    · rintro ⟨manifest, hl⟩
      by_contra hlt
      obtain ⟨ancestor, ha, -⟩ := h.ancestor hl (show first ≤ v by
        rw [le_iff_toNat_le]
        omega)
      exact hn ancestor ha
    · intro hlt
      have hnot := Nat.find_min hf hlt
      push Not at hnot
      exact hnot v rfl

end Velorix.Manifest
