import Velorix.Foundation.Fallible
import Velorix.Manifest.Types
import Velorix.Storage.ObjectStore
import Velorix.Storage.Ownership

/-! The publisher of checkpoint manifests over an object store: publication, listing, the marker of
the latest candidate, and the checks that fence off old owners. -/
namespace Velorix.Manifest

open Storage FallibleProgram

inductive CheckpointPublishError
  | objectKey (source : ObjectKeyError)
  | manifest (source : ManifestError)
  | ownershipEpochRecord (source : OwnershipEpochRecordError)
  | stateObjectAlreadyExists (key : ObjectKey)
  | outputObjectAlreadyExists (key : ObjectKey)
  | manifestAlreadyExists (key : ObjectKey)
  | missingOwnershipEpochRecord (key : EpochRecordKey)
  | manifestKeyMismatch (objectKey bodyKey : ObjectKey)
  | missingParentManifest (checkpointVersion parentCheckpoint : UInt64)
  | droppedParentInputProgress (checkpointVersion parentCheckpoint : UInt64)
      (slot : String × UInt32)
  | regressedParentInputBoundary (checkpointVersion parentCheckpoint : UInt64)
      (parent child : InputRange)
  | missingStateObject (key : ObjectKey)
  | missingOutputObject (key : ObjectKey)
  | stateOwnerClaimMismatch (key : ObjectKey) (expected : PartitionOwnerClaim)
      (actual : Option PartitionOwnerClaim)
  | outputOwnerClaimMismatch (key : ObjectKey) (expected : PartitionOwnerClaim)
      (actual : Option PartitionOwnerClaim)
  | staleOwnerClaim (partitionId : UInt32) (current attempted : PartitionOwnerClaim)
  | fencedManifestPartitionNotClaimed (progressKind : String) (partitionId : UInt32)
      (ownerClaim : PartitionOwnerClaim)
  | objectStore (source : ObjectStoreError)
  deriving DecidableEq

/-- Where the latest manifest is to be expected. The time of its update is not read. -/
structure LatestCandidateMarker where
  schemaVersion : UInt16
  checkpointVersion : UInt64
  manifestKey : ObjectKey
  manifestDigest : String
  validatedParentCheckpoint : Option UInt64
  deriving DecidableEq

structure CheckpointLifecycleRecord where
  checkpointVersion : UInt64
  manifestKey : ObjectKey
  manifestDigest : String
  deriving DecidableEq

/-- The requests to the store. Manifests lie at the keys of their versions, in the order of these.
-/
inductive Op
  | getManifest (checkpointVersion : UInt64)
  | putManifest (manifest : CheckpointManifest)
  | listManifests
  | listManifestsAfter (checkpointVersion : UInt64)
  | getMarker
  | putMarker (marker : LatestCandidateMarker)
  | putLifecycle (record : CheckpointLifecycleRecord)
  | head (key : ObjectKey)
  | putObject (key : ObjectKey) (bytes : Bytes)
  | getRecord (key : EpochRecordKey)
  | listRecords (streamId : String) (partitionId : UInt32)

abbrev Reply : Op → Type
  | .getManifest _ => Except ObjectStoreError CheckpointManifest
  | .putManifest _ => Except ObjectStoreError Unit
  | .listManifests => Except ObjectStoreError (List UInt64)
  | .listManifestsAfter _ => Except ObjectStoreError (List UInt64)
  | .getMarker => Except ObjectStoreError LatestCandidateMarker
  | .putMarker _ => Except ObjectStoreError Unit
  | .putLifecycle _ => Except ObjectStoreError Unit
  | .head _ => Except ObjectStoreError Unit
  | .putObject _ _ => Except ObjectStoreError Unit
  | .getRecord _ => Except ObjectStoreError OwnershipEpochRecord
  | .listRecords _ _ => Except ObjectStoreError (List UInt64)

abbrev Publishing (α : Type) := FallibleProgram Op Reply CheckpointPublishError α

abbrev Op.ask (op : Op) : Publishing (Reply op) := FallibleProgram.ask op

def storeReply {α : Type} (reply : Except ObjectStoreError α) : Publishing α :=
  fromExcept (reply.mapError .objectStore)

def orManifestError {α : Type} (result : Except ManifestError α) :
    Except CheckpointPublishError α :=
  result.mapError .manifest

def rangeAt (ranges : List InputRange) (slot : String × UInt32) : Option InputRange :=
  ranges.reverse.find? (·.slot = slot)

def validateChildInputProgress (child parent : CheckpointManifest) :
    Except CheckpointPublishError Unit :=
  parent.inputRanges.forM fun parentRange =>
    match rangeAt child.inputRanges parentRange.slot with
    | none => .error (.droppedParentInputProgress child.checkpointVersion parent.checkpointVersion
        parentRange.slot)
    | some childRange =>
      if parentRange.startOffsetInclusive < childRange.startOffsetInclusive ∨
          childRange.endOffsetExclusive < parentRange.endOffsetExclusive then
        .error (.regressedParentInputBoundary child.checkpointVersion parent.checkpointVersion
          parentRange childRange)
      else .ok ()

variable (manifests : List CheckpointManifest)

def manifestAt (checkpointVersion : UInt64) : Option CheckpointManifest :=
  manifests.reverse.find? (·.checkpointVersion = checkpointVersion)

def validateManifestLineage : Except CheckpointPublishError Unit :=
  manifests.forM fun manifest =>
    match manifest.parentCheckpoint with
    | none => .ok ()
    | some parentCheckpoint =>
      match manifestAt manifests parentCheckpoint with
      | none => .error (.missingParentManifest manifest.checkpointVersion parentCheckpoint)
      | some parent => validateChildInputProgress manifest parent

/-- What stands at the key of a version must be the manifest of that version. -/
def checkManifestAt (checkpointVersion : UInt64) (manifest : CheckpointManifest) :
    Except CheckpointPublishError CheckpointManifest := do
  orManifestError manifest.validate
  if checkpointManifestKey checkpointVersion ≠ manifest.objectKey then
    .error (.manifestKeyMismatch (checkpointManifestKey checkpointVersion) manifest.objectKey)
  else return manifest

def readParentManifest (checkpointVersion parentCheckpoint : UInt64) :
    Publishing CheckpointManifest := do
  match ← (Op.getManifest parentCheckpoint).ask with
  | .ok manifest => fromExcept (checkManifestAt parentCheckpoint manifest)
  | .error .notFound => throw (.missingParentManifest checkpointVersion parentCheckpoint)
  | .error source => throw (.objectStore source)

variable (manifest : CheckpointManifest)

def validateParentManifestVisible : Publishing Unit := do
  match manifest.parentCheckpoint with
  | none => return ()
  | some parentCheckpoint =>
    let parent ← readParentManifest manifest.checkpointVersion parentCheckpoint
    fromExcept (validateChildInputProgress manifest parent)

def objectExists (missing : ObjectKey → CheckpointPublishError) (key : ObjectKey) :
    Except ObjectStoreError Unit → Except CheckpointPublishError Unit
  | .ok () => .ok ()
  | .error .notFound => .error (missing key)
  | .error source => .error (.objectStore source)

def validateStateObjectsExist : Publishing Unit := do
  let _ ← forEach (fun (state : StateObjectRef) => do
    fromExcept (objectExists .missingStateObject state.objectKey (← (Op.head state.objectKey).ask)))
    manifest.stateObjects

/-- The outputs are all looked up before the first that is missing is reported. -/
def validateOutputObjectsExist : Publishing Unit := do
  let results ← forEach (fun (output : OutputObjectRef) => do
    return objectExists .missingOutputObject output.objectKey (← (Op.head output.objectKey).ask))
    manifest.outputObjects
  fromExcept (results.forM id)

def preflightManifestPublication : Publishing Unit := do
  fromExcept (orManifestError manifest.validate)
  validateParentManifestVisible manifest

def latestCandidateSchemaVersion : UInt16 := 1

section Digests
variable (manifestDigest : CheckpointManifest → String)

def LatestCandidateMarker.forManifest (manifest : CheckpointManifest) : LatestCandidateMarker where
  schemaVersion := latestCandidateSchemaVersion
  checkpointVersion := manifest.checkpointVersion
  manifestKey := manifest.objectKey
  manifestDigest := manifestDigest manifest
  validatedParentCheckpoint := manifest.parentCheckpoint

def bestEffortPublishLifecycleRecord (manifest : CheckpointManifest) : Publishing Unit := do
  let _ ← (Op.putLifecycle
    ⟨manifest.checkpointVersion, manifest.objectKey, manifestDigest manifest⟩).ask

def bestEffortPublishLatestCandidateMarker (manifest : CheckpointManifest) : Publishing Unit := do
  let marker := LatestCandidateMarker.forManifest manifestDigest manifest
  let put : Publishing Unit := do
    let _ ← (Op.putMarker marker).ask
  match ← Op.getMarker.ask with
  | .ok existing => if marker.checkpointVersion ≤ existing.checkpointVersion then return () else put
  | .error _ => put

def publishManifest (manifest : CheckpointManifest) : Publishing Unit := do
  preflightManifestPublication manifest
  validateStateObjectsExist manifest
  validateOutputObjectsExist manifest
  match ← (Op.putManifest manifest).ask with
  | .ok () =>
    bestEffortPublishLifecycleRecord manifestDigest manifest
    bestEffortPublishLatestCandidateMarker manifestDigest manifest
  | .error .alreadyExists => throw (.manifestAlreadyExists manifest.objectKey)
  | .error source => throw (.objectStore source)

end Digests

def sortByVersion : List CheckpointManifest :=
  manifests.insertionSort fun a b => a.checkpointVersion ≤ b.checkpointVersion

/-- The manifests are all read before the first that is not in order is reported. -/
def listPublishedManifests : Publishing (List CheckpointManifest) := do
  let versions ← storeReply (← Op.listManifests.ask)
  let results ← forEach (fun checkpointVersion => do
    let reply ← (Op.getManifest checkpointVersion).ask
    return reply.mapError CheckpointPublishError.objectStore >>= checkManifestAt checkpointVersion)
    versions
  let manifests ← fromExcept (results.mapM id)
  let manifests := sortByVersion manifests
  fromExcept (validateManifestLineage manifests)
  return manifests

/-- The last of the manifests with the highest version. -/
def latestOf : Option CheckpointManifest :=
  manifests.foldl (fun latest manifest => match latest with
    | none => some manifest
    | some best =>
      if best.checkpointVersion ≤ manifest.checkpointVersion then some manifest else some best) none

section Latest
variable (manifestDigest : CheckpointManifest → String)

def tryLatestManifestFromCandidateMarker : Publishing (Option CheckpointManifest) := do
  match ← Op.getMarker.ask with
  | .error .notFound => return none
  | .error source => throw (.objectStore source)
  | .ok marker =>
    if marker.schemaVersion ≠ latestCandidateSchemaVersion then return none
    else if marker.manifestKey ≠ checkpointManifestKey marker.checkpointVersion then return none
    else
      let manifest ← storeReply (← (Op.getManifest marker.checkpointVersion).ask)
      if marker.manifestDigest ≠ manifestDigest manifest then return none
      else
        fromExcept (orManifestError manifest.validate)
        if marker.manifestKey ≠ manifest.objectKey then return none
        else if marker.validatedParentCheckpoint ≠ manifest.parentCheckpoint then return none
        else
          validateParentManifestVisible manifest
          validateStateObjectsExist manifest
          validateOutputObjectsExist manifest
          let future ← storeReply (← (Op.listManifestsAfter marker.checkpointVersion).ask)
          if future.isEmpty then return some manifest else return none

/-- A marker that cannot be followed is ignored, unless the store or an object fails. -/
def latestManifestFromCandidateMarker : Publishing (Option CheckpointManifest) := do
  match ← attempt (tryLatestManifestFromCandidateMarker manifestDigest) with
  | .ok manifest => return manifest
  | .error (.objectStore source) => throw (.objectStore source)
  | .error (.missingStateObject key) => throw (.missingStateObject key)
  | .error (.missingOutputObject key) => throw (.missingOutputObject key)
  | .error _ => return none

def latestManifest : Publishing (Option CheckpointManifest) := do
  match ← latestManifestFromCandidateMarker manifestDigest with
  | some manifest => return some manifest
  | none =>
    match latestOf (← listPublishedManifests) with
    | none => return none
    | some manifest =>
      validateStateObjectsExist manifest
      validateOutputObjectsExist manifest
      return some manifest

end Latest

end Velorix.Manifest
