import Velorix.Manifest.ChainRuns

/-! Publishers under leases that run side by side: no old owner publishes after a newer one. -/
namespace Velorix.Manifest

open Storage Worker

variable {manifestDigest : CheckpointManifest → String} {w : World}
  {manifest : CheckpointManifest} {start : World}

/-- A reference of the manifest to an object of the partition carries the claim. -/
def CarriesClaim (manifest : CheckpointManifest) (partitionId : UInt32)
    (claim : PartitionOwnerClaim) : Prop :=
  (∃ state ∈ manifest.stateObjects, state.partitionId = partitionId ∧
    state.ownerClaim = some claim) ∨
  ∃ output ∈ manifest.outputObjects, output.partitionId = partitionId ∧
    output.ownerClaim = some claim

/-- Along the chain, the claims of a partition never become older, and every manifest is published
under one claim. -/
structure FencedChain (world : World) : Prop where
  claimed : ∀ {checkpointVersion manifest},
    world.manifests.lookup checkpointVersion = some manifest → ∃ claim, ClaimedBy manifest claim
  ordered : ∀ {a b earlier manifest partitionId claim claim'}, a ≤ b →
    world.manifests.lookup a = some earlier → world.manifests.lookup b = some manifest →
    CarriesClaim earlier partitionId claim → CarriesClaim manifest partitionId claim' →
    NotNewer claim claim'

theorem ClaimedBy.carries {c c' : PartitionOwnerClaim} {p : UInt32}
    (h : ClaimedBy manifest c) (hc : CarriesClaim manifest p c') : c' = c ∧ About manifest p := by
  rcases hc with ⟨s, hs, hp, hclaim⟩ | ⟨o, ho, hp, hclaim⟩
  · rw [h.states s hs] at hclaim
    exact ⟨(Option.some.inj hclaim).symm, s, hs, hp⟩
  · rw [h.outputs o ho] at hclaim
    exact ⟨(Option.some.inj hclaim).symm, hp ▸ h.outputProgress o ho⟩

theorem FencedInv.fencedChain (h : FencedInv w) : FencedChain w := by
  refine ⟨h.claimed, ?_⟩
  intro a b earlier manifest p c c' hle ha hb hc hc'
  obtain ⟨owner, ho⟩ := h.claimed ha
  obtain ⟨owner', ho'⟩ := h.claimed hb
  obtain ⟨rfl, habout⟩ := ho.carries hc
  obtain ⟨rfl, habout'⟩ := ho'.carries hc'
  rcases eq_or_lt_of_le hle with rfl | hlt
  · rw [ha] at hb
    cases hb
    rw [claim_unique habout ho ho']
    exact ⟨le_rfl, fun _ => rfl⟩
  · exact h.ordered ha hb hlt habout habout' ho ho'

/-- Manifests are published through leased publishers only. -/
def Invocation.Leased : Invocation → Prop
  | .publishManifest _ => False
  | _ => True

instance : DecidablePred Invocation.Leased := fun call => by
  cases call <;> (unfold Invocation.Leased; infer_instance)

theorem lt_of_created {id : ℕ} {pool next} {v : UInt64}
    {earlier : CheckpointManifest} {permitted : Invocation → Prop}
    (hc : ChainInv manifestDigest pool.shared)
    (hs : Pool.Step (publisherSystem manifestDigest permitted) pool
      (.called id (.putManifest manifest) (.ok ())) next)
    (hg : pool.shared.manifests.lookup v = some earlier) :
    v < manifest.checkpointVersion ∧
      next.shared.manifests.lookup manifest.checkpointVersion = some manifest := by
  cases hs with
  | called _ hcall =>
    obtain ⟨hr, hl⟩ := hcall
    cases hf : pool.shared.manifests.lookup manifest.checkpointVersion with
    | some existing =>
      rw [World.answer, hf, createOnly] at hr
      cases hr
    | none =>
      rw [World.answer, hf, createOnly] at hl
      refine ⟨?_, ?_⟩
      · by_contra hn
        obtain ⟨ancestor, ha, -⟩ := hc.ancestor hg (not_lt.mp hn)
        rw [hf] at ha
        cases ha
      · rw [Pool.shared_setTask, hl, KeyedMap.lookup_insert, if_pos rfl]

/-- However leased publishers run side by side and wherever they crash, claims never become older
along the chain: once a newer owner has published for a partition, an older one cannot. -/
theorem leased_manifests_fenced (hstart : start.Unpublished) {log pool}
    (htrace : Trace (Pool.Step (publisherSystem manifestDigest Invocation.Leased))
      (Pool.idle start) log pool) :
    FencedChain pool.shared ∧
    ∀ id manifest next, Pool.Step (publisherSystem manifestDigest Invocation.Leased) pool
      (.called id (.putManifest manifest) (.ok ())) next →
      ∀ checkpointVersion earlier partitionId claim claim',
        pool.shared.manifests.lookup checkpointVersion = some earlier →
        CarriesClaim earlier partitionId claim → CarriesClaim manifest partitionId claim' →
        NotNewer claim claim' := by
  have hsound {log pool} (htrace : Trace (Pool.Step (publisherSystem manifestDigest
      Invocation.Leased)) (Pool.idle start) log pool) :
      Pool.Sound (publisherSetting manifestDigest True) Promised pool :=
    sound_of_trace hstart (fun _ _ h => h) htrace
  refine ⟨((hsound htrace).inv.2 trivial).fencedChain, ?_⟩
  intro id manifest next hstep checkpointVersion earlier partitionId claim claim' hlookup
    hcarries hcarries'
  obtain ⟨hlt, hcreated⟩ := lt_of_created (hsound htrace).inv.1 hstep hlookup
  have hnext := ((hsound (htrace.snoc hstep)).inv.2 trivial).fencedChain
  have hgrows := ((hsound htrace).step (publisher_respects (fun _ _ h => h)) hstep).2
  exact hnext.ordered hlt.le (hgrows.manifests hlookup) hcreated hcarries hcarries'

def plainRequest (claim : PartitionOwnerClaim) (state : StateObjectWrite)
    (endOffsetExclusive : UInt64) : LeasedRequest where
  grant := ⟨⟨"n", "v", "orders", 0⟩, claim.ownerId, claim.ownerEpoch, 1000⟩
  nowUnixMs := 0
  stateObjects := [state]
  outputObjects := []
  manifest := plainManifest state endOffsetExclusive

def newOwnerState : StateObjectWrite :=
  plainState ⟨"b", 2⟩ 1 ⟨"v1/state/b/p=0000000000/chk=00000000000000000001/rows.state"⟩
    (by decide +kernel)

/-- The old owner has passed all checks when the new one publishes. -/
def overtaken : List (Pool.Command Invocation OwnershipEpochRecord) :=
  [.start 0 (.publish (plainRequest ⟨"a", 1⟩ firstState 4)), .advance 0 20, .finish 0,
   .start 1 (.publish (plainRequest ⟨"a", 1⟩ secondState 6)), .advance 1 8,
   .start 2 (.publish (plainRequest ⟨"b", 2⟩ newOwnerState 5)), .advance 2 20, .finish 2,
   .advance 1 20]

theorem overtaken_runs :
    ((publisherDriver plainDigest Invocation.Leased).follow overtaken (Pool.idle {})).any
      (fun result => result.2.shared.manifests.lookup 1 = some (plainManifest newOwnerState 5)) =
        true := by
  decide +kernel

theorem overtaken_fenced : ∃ log pool,
    Trace (Pool.Step (publisherSystem plainDigest Invocation.Leased)) (Pool.idle {}) log pool ∧
    pool.shared.manifests.lookup 1 = some (plainManifest newOwnerState 5) ∧
    FencedChain pool.shared := by
  obtain ⟨⟨outs, pool⟩, hfollow, hresult⟩ := (Option.any_eq_true _ _).mp overtaken_runs
  obtain ⟨log, -, htrace⟩ := Pool.Driver.trace_of_follow hfollow
  exact ⟨log, pool, htrace, of_decide_eq_true hresult,
    (leased_manifests_fenced ⟨rfl, rfl⟩ htrace).1⟩

end Velorix.Manifest
