import Velorix.Manifest.Publisher
import Velorix.Worker.Lease

/-! Publication under a lease: the objects and the manifest of an owner, with the checks that its
claim is current. -/
namespace Velorix.Manifest

open Storage FallibleProgram Worker

/-- A state object to be written, at the key of its parts. -/
structure StateObjectWrite where
  owner : String
  partitionId : UInt32
  checkpointVersion : UInt64
  objectId : String
  bytes : Bytes
  ownerClaim : Option PartitionOwnerClaim
  objectKey : ObjectKey
  keyed : stateObjectKey owner partitionId checkpointVersion objectId = .ok objectKey

def StateObjectWrite.objectRef (state : StateObjectWrite) : StateObjectRef where
  objectId := state.objectId
  objectKey := state.objectKey
  owner := state.owner
  partitionId := state.partitionId
  checkpointVersion := state.checkpointVersion
  ownerClaim := state.ownerClaim

/-- An output object to be written, at the key of its parts. -/
structure OutputObjectWrite where
  streamId : String
  partitionId : UInt32
  checkpointVersion : UInt64
  startOffsetInclusive : UInt64
  endOffsetExclusive : UInt64
  objectId : String
  bytes : Bytes
  ownerClaim : Option PartitionOwnerClaim
  objectKey : ObjectKey
  keyed : outputObjectKey streamId partitionId checkpointVersion startOffsetInclusive
    endOffsetExclusive objectId = .ok objectKey

def OutputObjectWrite.objectRef (output : OutputObjectWrite) : OutputObjectRef where
  objectId := output.objectId
  objectKey := output.objectKey
  streamId := output.streamId
  partitionId := output.partitionId
  checkpointVersion := output.checkpointVersion
  startOffsetInclusive := output.startOffsetInclusive
  endOffsetExclusive := output.endOffsetExclusive
  ownerClaim := output.ownerClaim

def createObject (taken : ObjectKey → CheckpointPublishError) (key : ObjectKey) (bytes : Bytes) :
    Publishing Unit := do
  match ← (Op.putObject key bytes).ask with
  | .ok () => return ()
  | .error .alreadyExists => throw (taken key)
  | .error source => throw (.objectStore source)

def writeStateObject (state : StateObjectWrite) : Publishing StateObjectRef := do
  createObject .stateObjectAlreadyExists state.objectKey state.bytes
  return state.objectRef

def writeOutputObject (output : OutputObjectWrite) : Publishing OutputObjectRef := do
  createObject .outputObjectAlreadyExists output.objectKey output.bytes
  return output.objectRef

def isCurrentClaimNewerOrConflicting (current attempted : PartitionOwnerClaim) : Bool :=
  attempted.ownerEpoch < current.ownerEpoch ||
    (current.ownerEpoch == attempted.ownerEpoch && current.ownerId != attempted.ownerId)

def validateRefCurrent (partitions : List UInt32) (ownerClaim : PartitionOwnerClaim)
    (partitionId : UInt32) (claim : Option PartitionOwnerClaim) :
    Except CheckpointPublishError Unit :=
  if partitionId ∉ partitions then .ok ()
  else match claim with
  | none => .ok ()
  | some current =>
    if isCurrentClaimNewerOrConflicting current ownerClaim then
      .error (.staleOwnerClaim partitionId current ownerClaim)
    else .ok ()

def validateManifestCurrent (partitions : List UInt32) (ownerClaim : PartitionOwnerClaim)
    (manifest : CheckpointManifest) : Except CheckpointPublishError Unit := do
  manifest.stateObjects.forM fun state =>
    validateRefCurrent partitions ownerClaim state.partitionId state.ownerClaim
  manifest.outputObjects.forM fun output =>
    validateRefCurrent partitions ownerClaim output.partitionId output.ownerClaim

def validateOwnerClaimCurrent (partitions : List UInt32) (ownerClaim : PartitionOwnerClaim) :
    Publishing Unit := do
  let manifests ← listPublishedManifests
  fromExcept (manifests.forM (validateManifestCurrent partitions ownerClaim))

def validateEpochStream (streamId : String) : Except CheckpointPublishError Unit :=
  (validateSegment "stream_id" streamId).mapError .objectKey

def validateMatchingOwnershipEpochRecordVisible (slot : String × UInt32)
    (ownerClaim : PartitionOwnerClaim) : Publishing Unit := do
  fromExcept (validateEpochStream slot.1)
  let key : EpochRecordKey := ⟨slot.1, slot.2, ownerClaim.ownerEpoch⟩
  match ← (Op.getRecord key).ask with
  | .ok record =>
    fromExcept ((record.validateOwnerClaim ownerClaim.ownerId ownerClaim.ownerEpoch).mapError
      .ownershipEpochRecord)
  | .error .notFound => throw (.missingOwnershipEpochRecord key)
  | .error source => throw (.objectStore source)

def validateRecordNotNewer (partitionId : UInt32) (ownerClaim : PartitionOwnerClaim)
    (record : OwnershipEpochRecord) : Except CheckpointPublishError Unit :=
  let current : PartitionOwnerClaim := ⟨record.ownerId, record.ownerEpoch⟩
  if isCurrentClaimNewerOrConflicting current ownerClaim then
    .error (.staleOwnerClaim partitionId current ownerClaim)
  else .ok ()

def validateNoNewerVisibleOwnershipEpochRecord (slot : String × UInt32)
    (ownerClaim : PartitionOwnerClaim) : Publishing Unit := do
  fromExcept (validateEpochStream slot.1)
  let epochs ← storeReply (← (Op.listRecords slot.1 slot.2).ask)
  let records ← forEach (fun epoch => do
    storeReply (← (Op.getRecord ⟨slot.1, slot.2, epoch⟩).ask)) epochs
  fromExcept (records.forM (validateRecordNotNewer slot.2 ownerClaim))

def validateProductionOwnerClaimCurrent (slot : String × UInt32)
    (ownerClaim : PartitionOwnerClaim) : Publishing Unit := do
  validateMatchingOwnershipEpochRecordVisible slot ownerClaim
  validateOwnerClaimCurrent [slot.2] ownerClaim
  validateNoNewerVisibleOwnershipEpochRecord slot ownerClaim

/-- Every stream and partition is checked once. The partitions that were checked are returned. -/
def validateSlotsCurrent (ownerClaim : PartitionOwnerClaim) :
    List (String × UInt32) → List (String × UInt32) → Publishing (List UInt32)
  | [], checked => return checked.map (·.2)
  | slot :: rest, checked =>
    if checked.contains slot then validateSlotsCurrent ownerClaim rest checked
    else do
      validateMatchingOwnershipEpochRecordVisible slot ownerClaim
      validateNoNewerVisibleOwnershipEpochRecord slot ownerClaim
      validateSlotsCurrent ownerClaim rest (checked ++ [slot])

variable (manifest : CheckpointManifest)

def validateManifestProductionOwnerClaimsCurrent
    (ownerClaim : PartitionOwnerClaim) : Publishing Unit := do
  let partitions ← validateSlotsCurrent ownerClaim (manifest.inputRanges.map (·.slot) ++
    manifest.outputObjects.map fun output => (output.streamId, output.partitionId)) []
  validateOwnerClaimCurrent partitions ownerClaim

def claimedPartitions (ownerClaim : PartitionOwnerClaim) : List UInt32 :=
  (manifest.stateObjects.filter fun state => state.ownerClaim = some ownerClaim).map (·.partitionId)

def validateProgressClaimed (claimed : List UInt32) (ownerClaim : PartitionOwnerClaim)
    (progressKind : String) (partitionId : UInt32) : Except CheckpointPublishError Unit :=
  if partitionId ∈ claimed then .ok ()
  else .error (.fencedManifestPartitionNotClaimed progressKind partitionId ownerClaim)

def validateFencedManifestProgressClaimed
    (ownerClaim : PartitionOwnerClaim) : Except CheckpointPublishError Unit := do
  let claimed := claimedPartitions manifest ownerClaim
  manifest.inputRanges.forM fun range =>
    validateProgressClaimed claimed ownerClaim "input" range.partitionId
  manifest.outputObjects.forM fun output =>
    validateProgressClaimed claimed ownerClaim "output" output.partitionId

def validateStateWriteOwnerClaim (state : StateObjectWrite) (ownerClaim : PartitionOwnerClaim) :
    Except CheckpointPublishError Unit :=
  if state.ownerClaim = some ownerClaim then .ok ()
  else .error (.stateOwnerClaimMismatch state.objectKey ownerClaim state.ownerClaim)

def validateOutputWriteOwnerClaim (output : OutputObjectWrite)
    (ownerClaim : PartitionOwnerClaim) : Except CheckpointPublishError Unit :=
  if output.ownerClaim = some ownerClaim then .ok ()
  else .error (.outputOwnerClaimMismatch output.objectKey ownerClaim output.ownerClaim)

variable (ownerClaim : PartitionOwnerClaim)

def writeStateObjectFenced (state : StateObjectWrite) :
    Publishing StateObjectRef := do
  fromExcept (validateStateWriteOwnerClaim state ownerClaim)
  validateOwnerClaimCurrent [state.partitionId] ownerClaim
  writeStateObject state

def writeStateObjectFencedProduction (streamId : String) (ownerClaim : PartitionOwnerClaim)
    (state : StateObjectWrite) : Publishing StateObjectRef := do
  fromExcept (validateStateWriteOwnerClaim state ownerClaim)
  validateProductionOwnerClaimCurrent (streamId, state.partitionId) ownerClaim
  writeStateObject state

def writeOutputObjectFenced (output : OutputObjectWrite) :
    Publishing OutputObjectRef := do
  fromExcept (validateOutputWriteOwnerClaim output ownerClaim)
  validateOwnerClaimCurrent [output.partitionId] ownerClaim
  writeOutputObject output

def writeOutputObjectFencedProduction
    (output : OutputObjectWrite) : Publishing OutputObjectRef := do
  fromExcept (validateOutputWriteOwnerClaim output ownerClaim)
  validateProductionOwnerClaimCurrent (output.streamId, output.partitionId) ownerClaim
  writeOutputObject output

section Digests
variable (manifestDigest : CheckpointManifest → String)

/-- What a manifest must satisfy before its claim is compared with the published ones. -/
def validateFencedManifest (manifest : CheckpointManifest) (ownerClaim : PartitionOwnerClaim) :
    Except CheckpointPublishError Unit := do
  orManifestError manifest.validate
  orManifestError (manifest.validateOwnerClaim ownerClaim)
  validateFencedManifestProgressClaimed manifest ownerClaim

def publishManifestFenced (manifest : CheckpointManifest) (ownerClaim : PartitionOwnerClaim) :
    Publishing Unit := do
  fromExcept (validateFencedManifest manifest ownerClaim)
  validateOwnerClaimCurrent (manifest.stateObjects.map (·.partitionId)) ownerClaim
  publishManifest manifestDigest manifest

def publishManifestFencedProduction (manifest : CheckpointManifest)
    (ownerClaim : PartitionOwnerClaim) : Publishing Unit := do
  fromExcept (validateFencedManifest manifest ownerClaim)
  validateManifestProductionOwnerClaimsCurrent manifest ownerClaim
  publishManifest manifestDigest manifest

end Digests

inductive LeasedCheckpointError
  | expiredGrant (expiresAtUnixMs nowUnixMs : UInt64)
  | manifest (source : ManifestError)
  | multiPartitionManifest (partitions : List UInt32)
  | partitionMismatch (kind objectId : String) (expected actual : UInt32)
  | inputStreamMismatch (expected actual : String)
  | stateOwnerClaimMismatch (key : ObjectKey) (expected : PartitionOwnerClaim)
      (actual : Option PartitionOwnerClaim)
  | outputOwnerClaimMismatch (key : ObjectKey) (expected : PartitionOwnerClaim)
      (actual : Option PartitionOwnerClaim)
  | stateRefsMismatch (expected actual : List StateObjectRef)
  | outputRefsMismatch (expected actual : List OutputObjectRef)
  | missingProductionAuthorityEvidence
  | publish (source : CheckpointPublishError)
  deriving DecidableEq

/-- What a leased publisher is asked to publish. -/
structure LeasedRequest where
  grant : PartitionLeaseGrant
  nowUnixMs : UInt64
  stateObjects : List StateObjectWrite
  outputObjects : List OutputObjectWrite
  manifest : CheckpointManifest

variable (grant : PartitionLeaseGrant)

def claimOf : PartitionOwnerClaim := ⟨grant.ownerId, grant.ownerEpoch⟩

abbrev LeasedResult := Except LeasedCheckpointError

def validateGrantUnexpired (nowUnixMs : UInt64) : LeasedResult Unit :=
  if grant.expiresAtUnixMs ≤ nowUnixMs then
    .error (.expiredGrant grant.expiresAtUnixMs nowUnixMs)
  else .ok ()

/-- The partitions that a manifest is about, in order and each once. -/
def manifestPartitions : List UInt32 :=
  ((manifest.inputRanges.map (·.partitionId) ++ manifest.stateObjects.map (·.partitionId) ++
    manifest.outputObjects.map (·.partitionId)).insertionSort (· ≤ ·)).dedup

def validateSingleGrantPartition (manifest : CheckpointManifest) : LeasedResult Unit :=
  match manifestPartitions manifest with
  | [] => .ok ()
  | [actual] =>
    if actual ≠ grant.key.partitionId then
      .error (.partitionMismatch "manifest" (u64Digits manifest.checkpointVersion)
        grant.key.partitionId actual)
    else .ok ()
  | partitions => .error (.multiPartitionManifest partitions)

def validateInputStream (manifest : CheckpointManifest) : LeasedResult Unit :=
  manifest.inputRanges.forM fun range =>
    if range.streamId ≠ grant.key.streamId then
      .error (.inputStreamMismatch grant.key.streamId range.streamId)
    else .ok ()

def validateStateWrites (ownerClaim : PartitionOwnerClaim)
    (stateObjects : List StateObjectWrite) : LeasedResult Unit :=
  stateObjects.forM fun state =>
    if state.partitionId ≠ grant.key.partitionId then
      .error (.partitionMismatch "state" state.objectId grant.key.partitionId state.partitionId)
    else if state.ownerClaim ≠ some ownerClaim then
      .error (.stateOwnerClaimMismatch state.objectKey ownerClaim state.ownerClaim)
    else .ok ()

def validateOutputWrites (ownerClaim : PartitionOwnerClaim)
    (outputObjects : List OutputObjectWrite) : LeasedResult Unit :=
  outputObjects.forM fun output =>
    if output.partitionId ≠ grant.key.partitionId then
      .error (.partitionMismatch "output" output.objectId grant.key.partitionId output.partitionId)
    else if output.ownerClaim ≠ some ownerClaim then
      .error (.outputOwnerClaimMismatch output.objectKey ownerClaim output.ownerClaim)
    else .ok ()

def validateManifestRefsMatchWrites
    (stateObjects : List StateObjectWrite) (outputObjects : List OutputObjectWrite) :
    LeasedResult Unit :=
  let stateRefs := stateObjects.map (·.objectRef)
  let outputRefs := outputObjects.map (·.objectRef)
  if manifest.stateObjects ≠ stateRefs then
    .error (.stateRefsMismatch stateRefs manifest.stateObjects)
  else if manifest.outputObjects ≠ outputRefs then
    .error (.outputRefsMismatch outputRefs manifest.outputObjects)
  else .ok ()

/-- The checks that need no look at the store. -/
def LeasedRequest.validate (request : LeasedRequest) : LeasedResult Unit := do
  validateGrantUnexpired request.grant request.nowUnixMs
  request.manifest.validate.mapError .manifest
  validateSingleGrantPartition request.grant request.manifest
  validateInputStream request.grant request.manifest
  validateStateWrites request.grant (claimOf request.grant) request.stateObjects
  validateOutputWrites request.grant (claimOf request.grant) request.outputObjects
  validateManifestRefsMatchWrites request.manifest request.stateObjects request.outputObjects

abbrev Leasing (α : Type) := FallibleProgram Op Reply LeasedCheckpointError α

/-- A step of the publisher, with the error that it reports. -/
def publisherStep {α : Type} (program : Publishing α) : Leasing α :=
  ExceptT.adapt .publish program

section Leased
variable (manifestDigest : CheckpointManifest → String)

def publish (request : LeasedRequest) : Leasing Unit := do
  fromExcept request.validate
  let ownerClaim := claimOf request.grant
  publisherStep (preflightManifestPublication request.manifest)
  let _ ← publisherStep (forEach (writeStateObjectFenced ownerClaim) request.stateObjects)
  let _ ← publisherStep (forEach (writeOutputObjectFenced ownerClaim) request.outputObjects)
  publisherStep (publishManifestFenced manifestDigest request.manifest ownerClaim)

def publishProduction (productionAuthorityValidated : Bool) (request : LeasedRequest) :
    Leasing Unit := do
  if !productionAuthorityValidated then throw .missingProductionAuthorityEvidence
  else
    fromExcept request.validate
    let ownerClaim := claimOf request.grant
    publisherStep (preflightManifestPublication request.manifest)
    let stateRefs ← publisherStep (forEach
      (writeStateObjectFencedProduction request.grant.key.streamId ownerClaim)
      request.stateObjects)
    let _ ← publisherStep (forEach (writeOutputObjectFencedProduction ownerClaim)
      request.outputObjects)
    publisherStep (publishManifestFencedProduction manifestDigest
      { request.manifest with stateObjects := stateRefs } ownerClaim)

end Leased

end Velorix.Manifest
