import Velorix.Foundation.KeyedMap
import Velorix.Storage.ObjectKey

/-! Records of who owns a partition at which epoch. -/
namespace Velorix.Storage

structure OwnershipEpochRecord where
  streamId : String
  partitionId : UInt32
  ownerId : String
  ownerEpoch : UInt64
  leaseIdentity : String
  createdAt : String
  previousEpoch : Option UInt64
  previousCheckpointVersion : Option UInt64
  deriving DecidableEq

/-- Where a record lies. Its key is made of these parts only. -/
structure EpochRecordKey where
  streamId : String
  partitionId : UInt32
  ownerEpoch : UInt64
  deriving DecidableEq

inductive OwnershipEpochRecordError
  | objectKey (source : ObjectKeyError)
  | missingOwnerId
  | missingLeaseIdentity
  | missingCreationTimestamp
  | ownerClaimMismatch (key : EpochRecordKey) (expectedOwnerId : String)
      (expectedOwnerEpoch : UInt64) (actualOwnerId : String) (actualOwnerEpoch : UInt64)
  deriving DecidableEq

namespace OwnershipEpochRecord

def objectKey (record : OwnershipEpochRecord) : EpochRecordKey :=
  ⟨record.streamId, record.partitionId, record.ownerEpoch⟩

def validate (record : OwnershipEpochRecord) : Except OwnershipEpochRecordError Unit := do
  (validateSegment "stream_id" record.streamId).mapError .objectKey
  if record.ownerId.isEmpty then .error .missingOwnerId
  else if record.leaseIdentity.isEmpty then .error .missingLeaseIdentity
  else if record.createdAt.isEmpty then .error .missingCreationTimestamp
  else .ok ()

def validateOwnerClaim (record : OwnershipEpochRecord) (ownerId : String) (ownerEpoch : UInt64) :
    Except OwnershipEpochRecordError Unit :=
  if record.ownerId ≠ ownerId ∨ record.ownerEpoch ≠ ownerEpoch then
    .error (.ownerClaimMismatch record.objectKey ownerId ownerEpoch record.ownerId
      record.ownerEpoch)
  else .ok ()

end OwnershipEpochRecord

/-- The epoch records of a store, each at its own key. -/
abbrev EpochRecords := KeyedMap OwnershipEpochRecord.objectKey

/-- The epochs that are recorded for a partition of a stream. -/
def listedEpochs (records : EpochRecords) (streamId : String) (partitionId : UInt32) :
    List UInt64 :=
  (records.keys.filter fun key =>
    key.streamId = streamId && key.partitionId = partitionId).map (·.ownerEpoch)

theorem mem_listedEpochs {rs : EpochRecords} {key : EpochRecordKey}
    {r : OwnershipEpochRecord} (h : rs.lookup key = some r) :
    key.ownerEpoch ∈ listedEpochs rs key.streamId key.partitionId := by
  have hk := KeyedMap.mem_keys.mpr ⟨r, h⟩
  simp only [listedEpochs, List.mem_map, List.mem_filter]
  exact ⟨key, ⟨hk, by simp⟩, rfl⟩

end Velorix.Storage
