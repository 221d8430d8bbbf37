import Velorix.Storage.IngestKeys

/-! Checkpoint manifests: what they refer to, and the checks that they pass. -/
namespace Velorix.Manifest

open Storage Result

def checkpointText (checkpointVersion : UInt64) : String :=
  padded checkpointWidth checkpointVersion.toNat

def checkpointManifestKey (checkpointVersion : UInt64) : ObjectKey :=
  ⟨joinSegments ["v1", "checkpoints", checkpointText checkpointVersion ++ ".manifest"]⟩

def stateObjectKey (owner : String) (partitionId : UInt32) (checkpointVersion : UInt64)
    (objectId : String) : Except ObjectKeyError ObjectKey := do
  validateSegment "owner" owner
  validateSegment "object_id" objectId
  return ⟨joinSegments ["v1", "state", owner, partitionText partitionId,
    "chk=" ++ checkpointText checkpointVersion, objectId ++ ".state"]⟩

def outputObjectKey (streamId : String) (partitionId : UInt32)
    (checkpointVersion startOffsetInclusive endOffsetExclusive : UInt64) (objectId : String) :
    Except ObjectKeyError ObjectKey := do
  validateSegment "stream_id" streamId
  validateSegment "object_id" objectId
  validateOffsetRange startOffsetInclusive endOffsetExclusive
  return ⟨joinSegments ["v1", "outputs", streamId, partitionText partitionId,
    "chk=" ++ checkpointText checkpointVersion, rangeText startOffsetInclusive endOffsetExclusive,
    objectId ++ ".output"]⟩

structure PartitionOwnerClaim where
  ownerId : String
  ownerEpoch : UInt64
  deriving DecidableEq

structure InputRange where
  streamId : String
  partitionId : UInt32
  startOffsetInclusive : UInt64
  endOffsetExclusive : UInt64
  deriving DecidableEq

def InputRange.slot (range : InputRange) : String × UInt32 := (range.streamId, range.partitionId)

structure StateObjectRef where
  objectId : String
  objectKey : ObjectKey
  owner : String
  partitionId : UInt32
  checkpointVersion : UInt64
  ownerClaim : Option PartitionOwnerClaim
  deriving DecidableEq

structure OutputObjectRef where
  objectId : String
  objectKey : ObjectKey
  streamId : String
  partitionId : UInt32
  checkpointVersion : UInt64
  startOffsetInclusive : UInt64
  endOffsetExclusive : UInt64
  ownerClaim : Option PartitionOwnerClaim
  deriving DecidableEq

/-- The fields of a manifest that its publication reads. -/
structure CheckpointManifest where
  schemaVersion : UInt16
  checkpointVersion : UInt64
  inputRanges : List InputRange
  stateObjects : List StateObjectRef
  outputObjects : List OutputObjectRef
  parentCheckpoint : Option UInt64
  createdAt : String
  deriving DecidableEq

inductive ManifestError
  | unsupportedSchemaVersion (schemaVersion : UInt16)
  | missingInputProgress
  | missingStateObjects
  | invalidInputRange (range : InputRange)
  | duplicateInputRange (slot : String × UInt32)
  | inputRangesNotSorted
  | invalidParentCheckpoint (parentCheckpoint checkpointVersion : UInt64)
  | missingParentCheckpoint (checkpointVersion : UInt64)
  | unexpectedGenesisParent
  | stateObjectCheckpointMismatch (objectId : String) (state manifest : UInt64)
  | stateObjectKeyMismatch (objectId : String) (expected actual : ObjectKey)
  | missingOwnerClaim (objectId : String)
  | ownerClaimMismatch (objectId : String) (expected actual : PartitionOwnerClaim)
  | missingOutputOwnerClaim (objectId : String)
  | outputOwnerClaimMismatch (objectId : String) (expected actual : PartitionOwnerClaim)
  | invalidOutputRange (objectId : String) (startOffsetInclusive endOffsetExclusive : UInt64)
  | outputObjectCheckpointMismatch (objectId : String) (output manifest : UInt64)
  | outputObjectKeyMismatch (objectId : String) (expected actual : ObjectKey)
  | duplicateObjectId (objectId : String)
  | duplicateObjectKey (objectKey : ObjectKey)
  | missingCreationTimestamp
  deriving DecidableEq

namespace CheckpointManifest

variable (manifest : CheckpointManifest)

def objectKey : ObjectKey :=
  checkpointManifestKey manifest.checkpointVersion

def validateParentCheckpoint : Except ManifestError Unit :=
  match manifest.parentCheckpoint with
  | none =>
    if manifest.checkpointVersion = 0 then .ok ()
    else .error (.missingParentCheckpoint manifest.checkpointVersion)
  | some parentCheckpoint =>
    if manifest.checkpointVersion = 0 then .error .unexpectedGenesisParent
    else if manifest.checkpointVersion - 1 = parentCheckpoint then .ok ()
    else .error (.invalidParentCheckpoint parentCheckpoint manifest.checkpointVersion)

def slotLt (a b : String × UInt32) : Bool := a.1 < b.1 || (a.1 == b.1 && a.2 < b.2)

def validateRanges : List InputRange → Option (String × UInt32) → List (String × UInt32) →
    Except ManifestError Unit
  | [], _, _ => .ok ()
  | range :: rest, previous, seen =>
    if range.endOffsetExclusive ≤ range.startOffsetInclusive then .error (.invalidInputRange range)
    else if previous.any (slotLt range.slot ·) then .error .inputRangesNotSorted
    else if range.slot ∈ seen then .error (.duplicateInputRange range.slot)
    else validateRanges rest (some range.slot) (range.slot :: seen)

def validateInputRanges : Except ManifestError Unit :=
  if manifest.inputRanges.isEmpty then .error .missingInputProgress
  else validateRanges manifest.inputRanges none []

def validateStateObject (checkpointVersion : UInt64) (state : StateObjectRef) :
    Except ManifestError Unit :=
  if state.checkpointVersion ≠ checkpointVersion then
    .error (.stateObjectCheckpointMismatch state.objectId state.checkpointVersion checkpointVersion)
  else
    match stateObjectKey state.owner state.partitionId state.checkpointVersion state.objectId with
    | .error _ =>
      .error (.stateObjectKeyMismatch state.objectId state.objectKey state.objectKey)
    | .ok expected =>
      if state.objectKey ≠ expected then
        .error (.stateObjectKeyMismatch state.objectId expected state.objectKey)
      else .ok ()

def validateStateObjects : Except ManifestError Unit :=
  if manifest.stateObjects.isEmpty then .error .missingStateObjects
  else manifest.stateObjects.forM (validateStateObject manifest.checkpointVersion)

def validateOutputObject (checkpointVersion : UInt64) (output : OutputObjectRef) :
    Except ManifestError Unit :=
  if output.endOffsetExclusive ≤ output.startOffsetInclusive then
    .error (.invalidOutputRange output.objectId output.startOffsetInclusive
      output.endOffsetExclusive)
  else
    match outputObjectKey output.streamId output.partitionId output.checkpointVersion
        output.startOffsetInclusive output.endOffsetExclusive output.objectId with
    | .error _ =>
      .error (.outputObjectKeyMismatch output.objectId output.objectKey output.objectKey)
    | .ok expected =>
      if output.objectKey ≠ expected then
        .error (.outputObjectKeyMismatch output.objectId expected output.objectKey)
      else if output.checkpointVersion ≠ checkpointVersion then
        .error (.outputObjectCheckpointMismatch output.objectId output.checkpointVersion
          checkpointVersion)
      else .ok ()

def validateOutputObjects : Except ManifestError Unit :=
  manifest.outputObjects.forM (validateOutputObject manifest.checkpointVersion)

def objectRefs : List (String × ObjectKey) :=
  manifest.stateObjects.map (fun state => (state.objectId, state.objectKey)) ++
    manifest.outputObjects.map fun output => (output.objectId, output.objectKey)

def validateUniqueRefs : List (String × ObjectKey) → List String → List ObjectKey →
    Except ManifestError Unit
  | [], _, _ => .ok ()
  | (objectId, objectKey) :: rest, objectIds, objectKeys =>
    if objectId ∈ objectIds then .error (.duplicateObjectId objectId)
    else if objectKey ∈ objectKeys then .error (.duplicateObjectKey objectKey)
    else validateUniqueRefs rest (objectId :: objectIds) (objectKey :: objectKeys)

def validate : Except ManifestError Unit := do
  if manifest.schemaVersion ≠ 1 then
    .error (.unsupportedSchemaVersion manifest.schemaVersion)
  else if manifest.createdAt.isEmpty then .error .missingCreationTimestamp
  else
    manifest.validateParentCheckpoint
    manifest.validateInputRanges
    manifest.validateStateObjects
    validateUniqueRefs manifest.objectRefs [] []
    manifest.validateOutputObjects

def validateStateClaim (ownerClaim : PartitionOwnerClaim) (state : StateObjectRef) :
    Except ManifestError Unit :=
  match state.ownerClaim with
  | some actual =>
    if actual = ownerClaim then .ok ()
    else .error (.ownerClaimMismatch state.objectId ownerClaim actual)
  | none => .error (.missingOwnerClaim state.objectId)

def validateOutputClaim (ownerClaim : PartitionOwnerClaim) (output : OutputObjectRef) :
    Except ManifestError Unit :=
  match output.ownerClaim with
  | some actual =>
    if actual = ownerClaim then .ok ()
    else .error (.outputOwnerClaimMismatch output.objectId ownerClaim actual)
  | none => .error (.missingOutputOwnerClaim output.objectId)

def validateOwnerClaim (ownerClaim : PartitionOwnerClaim) :
    Except ManifestError Unit := do
  manifest.stateObjects.forM (validateStateClaim ownerClaim)
  manifest.outputObjects.forM (validateOutputClaim ownerClaim)

theorem parent_of_validate {manifest : CheckpointManifest} (h : manifest.validate = .ok ()) :
    (manifest.checkpointVersion = 0 ∧ manifest.parentCheckpoint = none) ∨
      (manifest.checkpointVersion ≠ 0 ∧
        manifest.parentCheckpoint = some (manifest.checkpointVersion - 1)) := by
  rw [validate] at h
  split_ifs at h
  obtain ⟨_, hp, -⟩ := bind_eq_ok.mp h
  rw [validateParentCheckpoint] at hp
  split at hp
  · rename_i hn
    split_ifs at hp with hz
    exact .inl ⟨hz, hn⟩
  · rename_i parent hs
    split_ifs at hp with hz hpred
    exact .inr ⟨hz, by rw [hs, hpred]⟩

theorem inputRanges_ne_nil {manifest : CheckpointManifest} (h : manifest.validate = .ok ()) :
    manifest.inputRanges ≠ [] := by
  rw [validate] at h
  split_ifs at h
  obtain ⟨_, -, h⟩ := bind_eq_ok.mp h
  obtain ⟨_, hr, -⟩ := bind_eq_ok.mp h
  rw [validateInputRanges] at hr
  split_ifs at hr with he
  simpa using he

end CheckpointManifest

end Velorix.Manifest
