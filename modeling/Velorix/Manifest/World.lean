import Velorix.Foundation.History
import Velorix.Manifest.Leased

/-! The object store that publishers share, and the system of their calls. Every call is answered
in one step, and nothing is deleted. -/
namespace Velorix.Manifest

open Storage

structure World where
  manifests : KeyedMap CheckpointManifest.checkpointVersion := .empty
  marker : Option LatestCandidateMarker := none
  lifecycle : HashMap UInt64 CheckpointLifecycleRecord := ∅
  objects : HashMap ObjectKey Bytes := ∅
  epochs : EpochRecords := .empty

def World.answer (world : World) : (op : Op) → Reply op × World
  | .getManifest checkpointVersion => (found (world.manifests.lookup checkpointVersion), world)
  | .putManifest manifest =>
    createOnly (world.manifests.lookup manifest.checkpointVersion) world
      { world with manifests := world.manifests.insert manifest }
  | .listManifests => (.ok world.manifests.keys, world)
  | .listManifestsAfter checkpointVersion =>
    (.ok (world.manifests.keys.filter (checkpointVersion < ·)), world)
  | .getMarker => (found world.marker, world)
  | .putMarker marker => (.ok (), { world with marker := some marker })
  | .putLifecycle record => createOnly (world.lifecycle.lookup record.checkpointVersion) world
      { world with lifecycle := world.lifecycle.insert record.checkpointVersion record }
  | .head key => ((found (world.objects.lookup key)).map fun _ => (), world)
  | .putObject key bytes => createOnly (world.objects.lookup key) world
      { world with objects := world.objects.insert key bytes }
  | .getRecord key => (found (world.epochs.lookup key), world)
  | .listRecords streamId partitionId =>
    (.ok (listedEpochs world.epochs streamId partitionId), world)

structure Calls (world : World) (op : Op) (reply : Reply op) (later : World) : Prop where
  reply : reply = (world.answer op).1
  later : later = (world.answer op).2

inductive Invocation
  | publishManifest (manifest : CheckpointManifest)
  | listPublishedManifests
  | latestManifest
  | writeStateObject (state : StateObjectWrite)
  | writeOutputObject (output : OutputObjectWrite)
  | publish (request : LeasedRequest)
  | publishProduction (productionAuthorityValidated : Bool) (request : LeasedRequest)

inductive Outcome
  | published (result : Except CheckpointPublishError Unit)
  | listed (result : Except CheckpointPublishError (List CheckpointManifest))
  | latest (result : Except CheckpointPublishError (Option CheckpointManifest))
  | wroteState (result : Except CheckpointPublishError StateObjectRef)
  | wroteOutput (result : Except CheckpointPublishError OutputObjectRef)
  | leased (result : Except LeasedCheckpointError Unit)
  deriving DecidableEq

variable (manifestDigest : CheckpointManifest → String)

def Invocation.body :
    Invocation → Program Op Reply Outcome
  | .publishManifest manifest => do
    return .published (← (Manifest.publishManifest manifestDigest manifest).run)
  | .listPublishedManifests => do return .listed (← Manifest.listPublishedManifests.run)
  | .latestManifest => do return .latest (← (Manifest.latestManifest manifestDigest).run)
  | .writeStateObject state => do return .wroteState (← (Manifest.writeStateObject state).run)
  | .writeOutputObject output => do return .wroteOutput (← (Manifest.writeOutputObject output).run)
  | .publish request => do return .leased (← (Manifest.publish manifestDigest request).run)
  | .publishProduction productionAuthorityValidated request => do
    return .leased (← (Manifest.publishProduction manifestDigest productionAuthorityValidated
      request).run)

/-- Publishers may be asked at any time, as far as it is permitted. Epoch records may be created
meanwhile. -/
def publisherSystem (permitted : Invocation → Prop) :
    System Invocation Op Reply Outcome OwnershipEpochRecord World where
  body := Invocation.body manifestDigest
  accepts _ := permitted
  calls := Calls
  moves world record later := world.epochs.lookup record.objectKey = none ∧
    later = { world with epochs := world.epochs.insert record }

def publisherDriver (permitted : Invocation → Prop)
    [DecidablePred permitted] : Pool.Driver (publisherSystem manifestDigest permitted) where
  answer := World.answer
  admits _ call := permitted call
  perform world record :=
    if world.epochs.lookup record.objectKey = none then
      some { world with epochs := world.epochs.insert record }
    else none
  calls _ _ := ⟨rfl, rfl⟩
  accepts {_ call} h := of_decide_eq_true (p := permitted call) h
  moves {world record later} h := by
    split_ifs at h with hfree
    exact ⟨hfree, (Option.some.inj h).symm⟩

/-- Manifests and objects stay as they are. -/
structure World.Extends (world later : World) : Prop where
  manifests : ∀ {checkpointVersion manifest},
    world.manifests.lookup checkpointVersion = some manifest →
    later.manifests.lookup checkpointVersion = some manifest
  objects : ∀ {key bytes}, world.objects.lookup key = some bytes →
    later.objects.lookup key = some bytes

theorem World.Extends.refl (w : World) : w.Extends w := ⟨id, id⟩

theorem World.Extends.trans {a b c : World} (h : a.Extends b) (h' : b.Extends c) : a.Extends c :=
  ⟨h'.manifests ∘ h.manifests, h'.objects ∘ h.objects⟩

variable {w later : World} {op : Op} {reply : Reply op}

theorem extends_createManifest {m : CheckpointManifest}
    (hf : w.manifests.lookup m.checkpointVersion = none) :
    w.Extends { w with manifests := w.manifests.insert m } :=
  ⟨KeyedMap.lookup_insert_of_some hf, id⟩

theorem extends_createObject {key : ObjectKey} {bytes : Bytes} (hf : w.objects.lookup key = none) :
    w.Extends { w with objects := w.objects.insert key bytes } :=
  ⟨id, HashMap.lookup_insert_of_some hf⟩

theorem Calls.extends (h : Calls w op reply later) : w.Extends later := by
  obtain ⟨-, rfl⟩ := h
  cases op with
  | putManifest m => exact createOnly_keeps (.refl _) extends_createManifest
  | putObject key bytes => exact createOnly_keeps (.refl _) extends_createObject
  | putLifecycle r => exact createOnly_keeps (.refl _) fun _ => ⟨id, id⟩
  | putMarker marker => exact ⟨id, id⟩
  | _ => exact .refl _

end Velorix.Manifest
