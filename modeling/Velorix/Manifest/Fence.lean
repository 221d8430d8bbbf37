import Velorix.Foundation.Achieves
import Velorix.Manifest.Chain

/-! Owners along the chain: the claims under which manifests are published, and the setting in which
publishers work. -/
namespace Velorix.Manifest

open Storage

variable {d : CheckpointManifest → String} {world later : World}
  {manifest : CheckpointManifest} {claim : PartitionOwnerClaim}

/-- The earlier claim is of an older epoch, or of the same owner. -/
def NotNewer (earlier claim : PartitionOwnerClaim) : Prop :=
  earlier.ownerEpoch ≤ claim.ownerEpoch ∧
    (earlier.ownerEpoch = claim.ownerEpoch → earlier.ownerId = claim.ownerId)

/-- The manifest carries state of the partition. -/
def About (manifest : CheckpointManifest) (partitionId : UInt32) : Prop :=
  ∃ state ∈ manifest.stateObjects, state.partitionId = partitionId

/-- All of the manifest is published under one claim, and its progress concerns partitions whose
state it carries. -/
structure ClaimedBy (manifest : CheckpointManifest) (claim : PartitionOwnerClaim) : Prop where
  states : ∀ state ∈ manifest.stateObjects, state.ownerClaim = some claim
  outputs : ∀ output ∈ manifest.outputObjects, output.ownerClaim = some claim
  inputProgress : ∀ range ∈ manifest.inputRanges, About manifest range.partitionId
  outputProgress : ∀ output ∈ manifest.outputObjects, About manifest output.partitionId

/-- Claims never become older along the chain. -/
structure FencedInv (world : World) : Prop where
  claimed : ∀ {checkpointVersion manifest},
    world.manifests.lookup checkpointVersion = some manifest → ∃ claim, ClaimedBy manifest claim
  ordered : ∀ {a b earlier manifest partitionId claim claim'},
    world.manifests.lookup a = some earlier → world.manifests.lookup b = some manifest → a < b →
    About earlier partitionId → About manifest partitionId →
    ClaimedBy earlier claim → ClaimedBy manifest claim' → NotNewer claim claim'

/-- The manifest is not older than anything before it, and all of that is published. -/
structure Fence (manifest : CheckpointManifest) (claim : PartitionOwnerClaim) (world : World) :
    Prop where
  claimed : ClaimedBy manifest claim
  published : ∀ checkpointVersion < manifest.checkpointVersion, ∃ earlier,
    world.manifests.lookup checkpointVersion = some earlier
  ordered : ∀ {checkpointVersion earlier partitionId claim'},
    checkpointVersion < manifest.checkpointVersion →
    world.manifests.lookup checkpointVersion = some earlier → About earlier partitionId →
    About manifest partitionId → ClaimedBy earlier claim' → NotNewer claim' claim

/-- Everything before the version is published. -/
def CompleteBelow (checkpointVersion : UInt64) (world : World) : Prop :=
  ∀ version < checkpointVersion, ∃ earlier, world.manifests.lookup version = some earlier

theorem CompleteBelow.grow {v : UInt64} (h : CompleteBelow v world)
    (hg : world.Extends later) : CompleteBelow v later := by
  intro version hlt
  obtain ⟨earlier, he⟩ := h version hlt
  exact ⟨earlier, hg.manifests he⟩

theorem claim_unique {claim' : PartitionOwnerClaim} {p : UInt32}
    (hp : About manifest p) (h : ClaimedBy manifest claim)
    (h' : ClaimedBy manifest claim') : claim = claim' := by
  obtain ⟨s, hs, -⟩ := hp
  exact Option.some.inj ((h.states s hs).symm.trans (h'.states s hs))

theorem lookup_of_published {v : UInt64} (hp : ∃ earlier, world.manifests.lookup v = some earlier)
    (hg : world.Extends later) (h : later.manifests.lookup v = some manifest) :
    world.manifests.lookup v = some manifest := by
  obtain ⟨earlier, he⟩ := hp
  rw [hg.manifests he] at h
  rwa [← h]

theorem Fence.grow (h : Fence manifest claim world) (hg : world.Extends later) :
    Fence manifest claim later := by
  refine ⟨h.claimed, CompleteBelow.grow h.published hg, ?_⟩
  · intro v earlier p claim' hlt hl
    exact h.ordered hlt (lookup_of_published (h.published v hlt) hg hl)

theorem FencedInv.create (h : FencedInv world) (hchain : ChainInv d world)
    (hf : Fence manifest claim world)
    (hfree : world.manifests.lookup manifest.checkpointVersion = none) :
    FencedInv { world with manifests := world.manifests.insert manifest } := by
  refine ⟨?_, ?_⟩
  · intro v manifest' hl
    rw [KeyedMap.lookup_insert] at hl
    split_ifs at hl
    · cases hl
      exact ⟨claim, hf.claimed⟩
    · exact h.claimed hl
  · intro a b earlier manifest' p claim' claim'' ha hb hlt habout habout' hc hc'
    rw [KeyedMap.lookup_insert] at ha hb
    split_ifs at ha hb with hn hn' hn'
    · rw [hn, hn'] at hlt
      exact absurd hlt (lt_irrefl _)
    · -- nothing is published after a version that is free
      obtain ⟨ancestor, hancestor, -⟩ := hchain.ancestor hb hlt.le
      rw [hn, hfree] at hancestor
      cases hancestor
    · cases hb
      rw [hn'] at hlt
      rw [claim_unique habout' hc' hf.claimed]
      exact hf.ordered hlt ha habout habout' hc
    · exact h.ordered ha hb hlt habout habout' hc hc'

/-- The calls that touch neither manifests nor the marker. -/
def Op.Free : Op → Prop
  | .putManifest _ => False
  | .putMarker _ => False
  | _ => True

/-- Publishers keep the chain, and where all of them are fenced, the order of claims. -/
def publisherSetting (manifestDigest : CheckpointManifest → String) (fenced : Prop) :
    Setting Op Reply World where
  calls := Calls
  Inv world := ChainInv manifestDigest world ∧ (fenced → FencedInv world)
  Grows := World.Extends
  refl := .refl
  trans := .trans

variable {fenced : Prop}

def World.SameIndex (world later : World) : Prop :=
  later.manifests = world.manifests ∧ later.marker = world.marker

theorem answer_free (world : World) {op : Op} (h : op.Free) :
    world.SameIndex (world.answer op).2 := by
  cases op with
  | putManifest manifest => exact h.elim
  | putMarker marker => exact h.elim
  | putObject key bytes | putLifecycle r =>
    exact createOnly_keeps ⟨rfl, rfl⟩ fun _ => ⟨rfl, rfl⟩
  | _ => exact ⟨rfl, rfl⟩

theorem FencedInv.keep (h : FencedInv world) (hm : later.manifests = world.manifests) :
    FencedInv later := by
  refine ⟨?_, ?_⟩
  · intro v manifest hl
    rw [hm] at hl
    exact h.claimed hl
  · intro a b earlier manifest p claim claim' ha hb
    rw [hm] at ha hb
    exact h.ordered ha hb

theorem keeps_free {op : Op} {reply : Reply op} (hop : op.Free)
    (hi : (publisherSetting d fenced).Inv world) (hc : Calls world op reply later) :
    (publisherSetting d fenced).Inv later ∧ world.Extends later := by
  obtain ⟨hm, hmarker⟩ := answer_free world hop
  rw [← hc.later] at hm hmarker
  exact ⟨⟨hi.1.keep hc.extends hm hmarker, fun h => (hi.2 h).keep hm⟩, hc.extends⟩

end Velorix.Manifest
