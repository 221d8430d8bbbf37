import Velorix.Foundation.HashMap
import Velorix.Foundation.Words
import Velorix.Storage.ObjectKey

/-! Ingest reservations, authority tokens and owner claims of the metadata store, with the
checks that their requests make before they touch any state. -/
namespace Velorix.Meta

inductive MetaStoreError
  | emptyIngestRange (startOffsetInclusive endOffsetExclusive : UInt64)
  | emptyField (field : String)
  | invalidDuration (field : String)
  | integerOutOfRange (field : String) (value : UInt64)
  | unsupportedRelationGeneration (generation : UInt64)
  | timestampOverflow
  | authorityEpochOverflow
  | serialization (detail : String)
  | standingRuntimeCheckpointScopeMismatch
  | standingRuntimeOwnerMismatch
  | partitionAuthorityTokenScopeMismatch
  | partitionAuthorityInvalidToken
  | duplicateSourceCutRelation (relationId relationVersion : String)
  | overlappingSourceCutRange (streamId : String) (partitionId : UInt32)
  | incompleteRelationSourceCut (relationId streamId : String) (partitionId : UInt32)
    (reason : String)
  | unsupportedCapability (capability : String)
  | nonMonotonicCheckpointEpoch (previous candidate : UInt64)
  deriving DecidableEq

def requireNonEmpty (field value : String) : Except MetaStoreError Unit :=
  if value.isEmpty then .error (.emptyField field) else .ok ()

def orTimestampOverflow : Option UInt64 → Except MetaStoreError UInt64
  | some n => .ok n
  | none => .error .timestampOverflow

def require (condition : Bool) (error : MetaStoreError) : Except MetaStoreError Unit :=
  if condition then .ok () else .error error

structure IngestRangeReservation where
  streamId : String
  partitionId : UInt32
  startOffsetInclusive : UInt64
  endOffsetExclusive : UInt64
  batchKey : String
  payloadDigest : String
  relationId : String
  relationVersion : String
  schemaFingerprint : String
  writerEpoch : UInt64
  deriving DecidableEq

namespace IngestRangeReservation

def validate (reservation : IngestRangeReservation) : Except MetaStoreError Unit := do
  requireNonEmpty "stream_id" reservation.streamId
  requireNonEmpty "batch_key" reservation.batchKey
  requireNonEmpty "payload_digest" reservation.payloadDigest
  requireNonEmpty "relation_id" reservation.relationId
  requireNonEmpty "relation_version" reservation.relationVersion
  requireNonEmpty "schema_fingerprint" reservation.schemaFingerprint
  require (reservation.startOffsetInclusive < reservation.endOffsetExclusive)
    (.emptyIngestRange reservation.startOffsetInclusive reservation.endOffsetExclusive)

def overlaps (reservation other : IngestRangeReservation) : Bool :=
  reservation.startOffsetInclusive < other.endOffsetExclusive &&
    other.startOffsetInclusive < reservation.endOffsetExclusive

/-- The partition that a reservation takes a range of. -/
def slot (reservation : IngestRangeReservation) : String × UInt32 :=
  (reservation.streamId, reservation.partitionId)

end IngestRangeReservation

inductive ReserveIngestRangeOutcome
  | reserved
  | duplicate
  | conflict
  deriving DecidableEq

inductive CommitIngestRangeOutcome
  | committed
  | duplicate
  | conflict
  deriving DecidableEq

inductive PublishIngestReservationOutcome
  | committed
  | duplicate
  | conflict
  | invalidAuthority
  deriving DecidableEq

/-- The domain of an authority over a partition: the namespace, and the view or the relation
that the authority is for. -/
structure AuthorityKey where
  namespaceName : String
  subject : String
  streamId : String
  partitionId : UInt32
  deriving DecidableEq

/-- `PartitionAuthorityKey` and `RelationPartitionAuthorityKey` differ in what the subject is
called; tokens of the two are kept in separate tables and never compared. -/
structure AuthorityToken where
  key : AuthorityKey
  ownerId : String
  ownerEpoch : UInt64
  expiresAtUnixMs : UInt64
  deriving DecidableEq

def AuthorityKey.validate (subjectField : String) (key : AuthorityKey) :
    Except MetaStoreError Unit := do
  requireNonEmpty "namespace" key.namespaceName
  requireNonEmpty subjectField key.subject
  requireNonEmpty "stream_id" key.streamId

def AuthorityToken.validate (subjectField : String) (token : AuthorityToken) :
    Except MetaStoreError Unit := do
  token.key.validate subjectField
  require (!(token.ownerId.isEmpty || token.ownerEpoch == 0)) .partitionAuthorityInvalidToken

structure AcquireAuthorityRequest where
  key : AuthorityKey
  ownerId : String
  currentToken : Option AuthorityToken
  ttlMs : UInt64
  deriving DecidableEq

/-- The token to renew, if there is one, is of the same key and owner. -/
def AcquireAuthorityRequest.validateToken (subjectField : String)
    (request : AcquireAuthorityRequest) : Except MetaStoreError Unit :=
  match request.currentToken with
  | none => .ok ()
  | some token => do
    token.validate subjectField
    require (token.key = request.key) .partitionAuthorityTokenScopeMismatch
    require (token.ownerId = request.ownerId) .partitionAuthorityInvalidToken

def AcquireAuthorityRequest.validate (subjectField : String) (request : AcquireAuthorityRequest) :
    Except MetaStoreError Unit := do
  request.key.validate subjectField
  requireNonEmpty "owner_id" request.ownerId
  require (request.ttlMs ≠ 0) (.invalidDuration "ttl_ms")
  request.validateToken subjectField

inductive AcquireAuthorityOutcome
  | acquired (token : AuthorityToken)
  | renewed (token : AuthorityToken)
  | conflict (token : AuthorityToken)
  deriving DecidableEq

/-- An authority is current when the table holds exactly this token, unexpired. -/
def validateCurrentAuthority (current : Option AuthorityToken) (authority : AuthorityToken)
    (nowUnixMs : UInt64) : Except MetaStoreError Unit :=
  match current with
  | none => .error .partitionAuthorityInvalidToken
  | some current =>
    require (!(current.expiresAtUnixMs ≤ nowUnixMs || current != authority))
      .partitionAuthorityInvalidToken

structure ReserveAuthoritativeRequest where
  reservation : IngestRangeReservation
  authority : AuthorityToken
  deriving DecidableEq

structure PublishReservationRequest where
  reservation : IngestRangeReservation
  authority : AuthorityToken
  requestId : String
  requestDigest : String
  objectKey : String
  objectDigest : String
  deriving DecidableEq

structure IngestPublication where
  reservation : IngestRangeReservation
  authorityKey : AuthorityKey
  requestId : String
  requestDigest : String
  objectKey : String
  objectDigest : String
  deriving DecidableEq

variable (request : PublishReservationRequest)

def PublishReservationRequest.publication : IngestPublication :=
  ⟨request.reservation, request.authority.key, request.requestId, request.requestDigest,
    request.objectKey, request.objectDigest⟩

/-- The authority is over the partition of the reservation. -/
def AuthorityKey.overSlot (key : AuthorityKey) (reservation : IngestRangeReservation) : Bool :=
  key.streamId == reservation.streamId && key.partitionId == reservation.partitionId

/-- An authority over a relation must also name the relation of the reservation. -/
def AuthorityKey.overRelation (key : AuthorityKey) (reservation : IngestRangeReservation) : Bool :=
  key.overSlot reservation && key.subject == reservation.relationId

def PublishReservationRequest.validateFields (subjectField : String)
    (request : PublishReservationRequest) : Except MetaStoreError Unit := do
  request.reservation.validate
  request.authority.validate subjectField
  requireNonEmpty "request_id" request.requestId
  requireNonEmpty "request_digest" request.requestDigest
  requireNonEmpty "object_key" request.objectKey
  requireNonEmpty "object_digest" request.objectDigest

/-- `PublishIngestReservationRequest::validate` -/
def PublishReservationRequest.validatePartition :
    Except MetaStoreError Unit := do
  request.validateFields "view_id"
  require (request.authority.key.overSlot request.reservation)
    .partitionAuthorityTokenScopeMismatch

/-- `PublishRelationIngestReservationRequest::validate` -/
def PublishReservationRequest.validateRelation :
    Except MetaStoreError Unit := do
  request.validateFields "relation_id"
  require (request.authority.key.overRelation request.reservation)
    .partitionAuthorityTokenScopeMismatch

/-- `ReserveAuthoritativeIngestRangeRequest::validate` -/
def ReserveAuthoritativeRequest.validatePartition (request : ReserveAuthoritativeRequest) :
    Except MetaStoreError Unit := do
  request.reservation.validate
  request.authority.validate "view_id"
  require (request.authority.key.overSlot request.reservation)
    .partitionAuthorityTokenScopeMismatch

/-- `ReserveRelationAuthoritativeIngestRangeRequest::validate` -/
def ReserveAuthoritativeRequest.validateRelation (request : ReserveAuthoritativeRequest) :
    Except MetaStoreError Unit := do
  request.reservation.validate
  request.authority.validate "relation_id"
  require (request.authority.key.overRelation request.reservation)
    .partitionAuthorityTokenScopeMismatch

end Velorix.Meta
