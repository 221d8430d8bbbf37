import Velorix.Foundation.Pool
import Velorix.Json.Struct
import Velorix.Meta.RelationLedger
import Velorix.Storage.IngestKeys
import Velorix.Storage.ObjectStore

/-! The publisher of relation ingest: it acquires the authority over a partition of a relation,
reserves a range, stages the payload as an object and publishes the reservation. -/
namespace Velorix.Control

open Meta Storage ObjectKey BlankText

structure RelationIngestPublisherConfig where
  namespaceName : String
  relationId : String
  relationVersion : String
  schemaFingerprint : String
  streamId : String
  partitionId : UInt32
  ownerId : String
  authorityTtlMs : UInt64
  deriving DecidableEq

variable (config : RelationIngestPublisherConfig)

def RelationIngestPublisherConfig.authorityKey : AuthorityKey :=
  ⟨config.namespaceName, config.relationId, config.streamId, config.partitionId⟩

structure RelationIngestCapability where
  backendName : String
  relationScopedAuthority : Bool
  committedPublicationSourceCut : Bool
  durableAcrossRestart : Bool
  deriving DecidableEq

inductive IngestLogError
  | invalidIngestStagingDigest (digest : String)
  | ingestStagingDigestMismatch (objectKey : ObjectKey) (expectedDigest actualDigest : String)
  | ingestStagingConditionalCreateUnsupported (objectKey : ObjectKey) (reason : String)
  | objectKey (source : ObjectKeyError)
  | objectStore (source : ObjectStoreError)
  deriving DecidableEq

inductive RelationIngestPublisherError
  | invalidConfig (field : String)
  | invalidTtl
  | unsupportedRelationIngestCapability (backendName : String) (missing : List String)
  | capabilityNotValidated
  | notStarted
  | restartReacquireAlreadyAttempted
  | authorityConflict (current : AuthorityToken)
  | authorityLost (source : MetaStoreError)
  | rangeConflict (reservation : IngestRangeReservation)
  | stagingConflict (objectKey : ObjectKey) (existingDigest requestedDigest : String)
  | publicationConflict (requestId : String)
  | publicationMissing (requestId : String)
  | publicationMismatch (requestId : String)
  | uncertainPublication (requestId : String) (firstError retryError : MetaStoreError)
  | metadata (source : MetaStoreError)
  | storage (source : IngestLogError)
  | objectKey (source : ObjectKeyError)
  deriving DecidableEq

abbrev Fallible (α : Type) := Except RelationIngestPublisherError α

def requireFilled (field value : String) : Fallible Unit :=
  if isBlank value then .error (.invalidConfig field) else .ok ()

def validateConfig : Fallible Unit := do
  requireFilled "namespace" config.namespaceName
  requireFilled "relation_id" config.relationId
  requireFilled "relation_version" config.relationVersion
  requireFilled "schema_fingerprint" config.schemaFingerprint
  requireFilled "stream_id" config.streamId
  requireFilled "owner_id" config.ownerId
  if config.authorityTtlMs = 0 then .error .invalidTtl else .ok ()

def validateRelationIngestCapability (capability : RelationIngestCapability) : Fallible Unit :=
  let missing :=
    (if capability.relationScopedAuthority then [] else ["relation_scoped_authority"]) ++
    (if capability.committedPublicationSourceCut then []
      else ["committed_publication_source_cut"]) ++
    (if capability.durableAcrossRestart then [] else ["durable_across_restart"])
  if missing.isEmpty then .ok ()
  else .error (.unsupportedRelationIngestCapability capability.backendName missing)

def requestIdentity
    (startOffsetInclusive endOffsetExclusive : UInt64) (payloadDigest : String) : Fallible Bytes :=
  if startOffsetInclusive ≥ endOffsetExclusive then .error (.invalidConfig "offset_range")
  else .ok (Json.utf8Bytes (Json.structText [
    ("schema_version", .number 1),
    ("namespace", .text config.namespaceName),
    ("relation_id", .text config.relationId),
    ("relation_version", .text config.relationVersion),
    ("schema_fingerprint", .text config.schemaFingerprint),
    ("stream_id", .text config.streamId),
    ("partition_id", .number config.partitionId.toUInt64),
    ("start_offset_inclusive", .number startOffsetInclusive),
    ("end_offset_exclusive", .number endOffsetExclusive),
    ("payload_digest", .text payloadDigest)]))

def deterministicRequestDigest (hash : Hash) (config : RelationIngestPublisherConfig)
    (startOffsetInclusive endOffsetExclusive : UInt64) (payloadDigest : String) :
    Fallible String := do
  let identity ← requestIdentity config startOffsetInclusive endOffsetExclusive payloadDigest
  return "sha256:" ++ hash.hex identity

def deterministicRequestId (hash : Hash) (config : RelationIngestPublisherConfig)
    (startOffsetInclusive endOffsetExclusive : UInt64) (payloadDigest : String) :
    Fallible String := do
  let digest ←
    deterministicRequestDigest hash config startOffsetInclusive endOffsetExclusive payloadDigest
  return "relation-ingest-v1-" ++ trimStartMatches "sha256:" digest

def fromObjectKey {α : Type} : Except ObjectKeyError α → Fallible α
  | .ok a => .ok a
  | .error source => .error (.objectKey source)

/-- What a publish works with before it calls on anything. -/
structure Prepared where
  reservation : IngestRangeReservation
  authority : AuthorityToken
  requestId : String
  requestDigest : String
  stagingKey : ObjectKey
  deriving DecidableEq

def prepare (hash : Hash) (config : RelationIngestPublisherConfig) (authority : AuthorityToken)
    (startOffsetInclusive endOffsetExclusive : UInt64) (payload : Bytes) : Fallible Prepared := do
  let payloadDigest := hash.digestBytes payload
  let requestId ←
    deterministicRequestId hash config startOffsetInclusive endOffsetExclusive payloadDigest
  let requestDigest ←
    deterministicRequestDigest hash config startOffsetInclusive endOffsetExclusive payloadDigest
  let batchKey ← fromObjectKey (ingestBatch config.streamId config.partitionId
    startOffsetInclusive endOffsetExclusive)
  let stagingKey ← fromObjectKey (ingestStaging config.streamId config.partitionId
    startOffsetInclusive endOffsetExclusive requestId)
  let reservation : IngestRangeReservation :=
    { streamId := config.streamId
      partitionId := config.partitionId
      startOffsetInclusive
      endOffsetExclusive
      batchKey := batchKey.value
      payloadDigest
      relationId := config.relationId
      relationVersion := config.relationVersion
      schemaFingerprint := config.schemaFingerprint
      writerEpoch := authority.ownerEpoch }
  return { reservation, authority, requestId, requestDigest, stagingKey }

namespace Prepared

def reserveRequest (prepared : Prepared) : ReserveAuthoritativeRequest :=
  ⟨prepared.reservation, prepared.authority⟩

def publishRequest (prepared : Prepared) : PublishReservationRequest :=
  ⟨prepared.reservation, prepared.authority, prepared.requestId, prepared.requestDigest,
    prepared.stagingKey.value, prepared.reservation.payloadDigest⟩

end Prepared

structure PublishedRelationIngest where
  reservation : IngestRangeReservation
  requestId : String
  requestDigest : String
  objectKey : ObjectKey
  objectDigest : String
  outcome : PublishIngestReservationOutcome
  deriving DecidableEq

def Prepared.published (prepared : Prepared) (outcome : PublishIngestReservationOutcome) :
    PublishedRelationIngest :=
  ⟨prepared.reservation, prepared.requestId, prepared.requestDigest, prepared.stagingKey,
    prepared.reservation.payloadDigest, outcome⟩

/-- The calls of a publisher: requests to the metadata store, to the object store, and accesses
to the memory that the tasks of one publisher share. -/
inductive Op
  | readMetaStoreCapabilities
  | readRelationPartitionAuthority (key : AuthorityKey)
  | acquireRelationPartitionAuthority (request : AcquireAuthorityRequest)
    (explicitReacquire : Bool)
  | reserveRelationAuthoritativeIngestRange (request : ReserveAuthoritativeRequest)
  | publishRelationIngestReservation (request : PublishReservationRequest)
  | readRelationAuthoritativeIngestPublication (requestId : String)
  | put (key : ObjectKey) (payload : Bytes)
  | get (key : ObjectKey)
  | loadCapabilityValidated (publisher : ℕ)
  | storeCapabilityValidated (publisher : ℕ)
  | swapRestartReacquireAttempted (publisher : ℕ)
  | loadToken (publisher : ℕ)
  | storeToken (publisher : ℕ) (token : Option AuthorityToken)

abbrev Reply : Op → Type
  | .readMetaStoreCapabilities => Except MetaStoreError RelationIngestCapability
  | .readRelationPartitionAuthority _ => Except MetaStoreError (Option AuthorityToken)
  | .acquireRelationPartitionAuthority _ _ => Except MetaStoreError AcquireAuthorityOutcome
  | .reserveRelationAuthoritativeIngestRange _ => Except MetaStoreError ReserveIngestRangeOutcome
  | .publishRelationIngestReservation _ => Except MetaStoreError PublishIngestReservationOutcome
  | .readRelationAuthoritativeIngestPublication _ =>
    Except MetaStoreError (Option IngestPublication)
  | .put _ _ => Except ObjectStoreError Unit
  | .get _ => Except ObjectStoreError Bytes
  | .loadCapabilityValidated _ => Bool
  | .storeCapabilityValidated _ => Unit
  | .swapRestartReacquireAttempted _ => Bool
  | .loadToken _ => Option AuthorityToken
  | .storeToken _ _ => Unit

abbrev Op.ask (op : Op) : Program Op Reply (Reply op) := Program.ask op

def reacquireNotFenced : RelationIngestPublisherError :=
  .authorityLost (.unsupportedCapability "relation_authority_reacquire_not_fenced")

/-- The new token supersedes the observed one by one epoch. -/
def supersedes (observed : Option AuthorityToken) (next : AuthorityToken) : Bool :=
  match observed with
  | none => true
  | some observed =>
    observed.ownerEpoch.checkedAdd 1 == some next.ownerEpoch && observed.key == next.key &&
      next.key == config.authorityKey && observed.ownerId == next.ownerId &&
      next.ownerId == config.ownerId

variable (publisher : ℕ)

/-- The end of `acquire_with`, from the answer on. -/
def settleAuthority (config : RelationIngestPublisherConfig) (reacquire : Bool)
    (observed : Option AuthorityToken) :
    Except MetaStoreError AcquireAuthorityOutcome → Program Op Reply (Fallible AuthorityToken)
  | .ok (.acquired next) => do
    if reacquire && !supersedes config observed next then
      (Op.storeToken publisher none).ask
      return .error reacquireNotFenced
    else
      (Op.storeToken publisher (some next)).ask
      return .ok next
  | .ok (.renewed next) => do
    if reacquire then
      (Op.storeToken publisher none).ask
      return .error reacquireNotFenced
    else
      (Op.storeToken publisher (some next)).ask
      return .ok next
  | .ok (.conflict current) => do
    (Op.storeToken publisher none).ask
    return .error (.authorityConflict current)
  | .error source => do
    (Op.storeToken publisher none).ask
    return .error (.authorityLost source)

def requestAuthority (config : RelationIngestPublisherConfig) (reacquire : Bool)
    (currentToken : Option AuthorityToken) : Program Op Reply (Fallible AuthorityToken) := do
  let explicitReacquire := reacquire && currentToken.isSome
  let result ← (Op.acquireRelationPartitionAuthority
    ⟨config.authorityKey, config.ownerId, currentToken, config.authorityTtlMs⟩
    explicitReacquire).ask
  settleAuthority publisher config reacquire currentToken result

def acquireOrRenew (config : RelationIngestPublisherConfig) :
    Program Op Reply (Fallible AuthorityToken) := do
  let token ← (Op.loadToken publisher).ask
  requestAuthority publisher config false token

def reacquireAfterRestart (config : RelationIngestPublisherConfig) :
    Program Op Reply (Fallible AuthorityToken) := do
  if ← (Op.swapRestartReacquireAttempted publisher).ask then
    return .error .restartReacquireAlreadyAttempted
  else match ← (Op.readRelationPartitionAuthority config.authorityKey).ask with
    | .error source => return .error (.metadata source)
    | .ok currentToken => requestAuthority publisher config true currentToken

/-- Both ways of starting check the capability of the metadata store first. -/
def startWith (acquire : Program Op Reply (Fallible AuthorityToken)) :
    Program Op Reply (Fallible AuthorityToken) := do
  if ← (Op.loadCapabilityValidated publisher).ask then acquire
  else match ← Op.readMetaStoreCapabilities.ask with
    | .error source => return .error (.metadata source)
    | .ok capability =>
      match validateRelationIngestCapability capability with
      | .error error => return .error error
      | .ok () => do
        (Op.storeCapabilityValidated publisher).ask
        acquire

def start (config : RelationIngestPublisherConfig) : Program Op Reply (Fallible AuthorityToken) :=
  startWith publisher (acquireOrRenew publisher config)

def startAfterRestart (config : RelationIngestPublisherConfig) :
    Program Op Reply (Fallible AuthorityToken) :=
  startWith publisher (reacquireAfterRestart publisher config)

def renew (config : RelationIngestPublisherConfig) :
    Program Op Reply (Fallible AuthorityToken) := do
  if ← (Op.loadCapabilityValidated publisher).ask then acquireOrRenew publisher config
  else return .error .capabilityNotValidated

inductive IngestStagingWriteOutcome
  | created
  | duplicate
  | conflict (existingDigest requestedDigest : String)
  deriving DecidableEq

/-- The checks of a staging record before it is written. They are made when the record is built
and again when it is staged. -/
def checkStagingRecord (hash : Hash) (objectKey : ObjectKey) (payload : Bytes)
    (payloadDigest : String) : Except IngestLogError Unit :=
  match parseIngestStaging objectKey.value with
  | .error source => .error (.objectKey source)
  | .ok _ =>
    if !isSha256Digest payloadDigest then .error (.invalidIngestStagingDigest payloadDigest)
    else if hash.digestBytes payload ≠ payloadDigest then
      .error (.ingestStagingDigestMismatch objectKey payloadDigest (hash.digestBytes payload))
    else .ok ()

def stageIngestRecord (hash : Hash) (objectKey : ObjectKey) (payload : Bytes)
    (payloadDigest : String) :
    Program Op Reply (Except IngestLogError IngestStagingWriteOutcome) := do
  match checkStagingRecord hash objectKey payload payloadDigest with
  | .error error => return .error error
  | .ok () =>
    match ← (Op.put objectKey payload).ask with
    | .ok () => return .ok .created
    | .error .alreadyExists =>
      match ← (Op.get objectKey).ask with
      | .error error => return .error (.objectStore error)
      | .ok existing =>
        if hash.digestBytes existing = payloadDigest then return .ok .duplicate
        else return .ok (.conflict (hash.digestBytes existing) payloadDigest)
    | .error (.notSupported reason) =>
      return .error (.ingestStagingConditionalCreateUnsupported objectKey reason)
    | .error (.notImplemented operation implementer) =>
      return .error (.ingestStagingConditionalCreateUnsupported objectKey
        (operation ++ " is not implemented by " ++ implementer))
    | .error error => return .error (.objectStore error)

def stageWrite (hash : Hash) (objectKey : String) (payload : Bytes) (payloadDigest : String) :
    Program Op Reply (Except IngestLogError IngestStagingWriteOutcome) :=
  match parseIngestStaging objectKey with
  | .error source => return .error (.objectKey source)
  | .ok (key, _) =>
    match checkStagingRecord hash key payload payloadDigest with
    | .error error => return .error error
    | .ok () => stageIngestRecord hash key payload payloadDigest

def validatePublicationMatch (publication : IngestPublication)
    (request : PublishReservationRequest) : Fallible Unit :=
  if publication.reservation ≠ request.reservation ∨
      publication.authorityKey ≠ request.authority.key ∨
      publication.requestId ≠ request.requestId ∨
      publication.requestDigest ≠ request.requestDigest ∨
      publication.objectKey ≠ request.objectKey ∨
      publication.objectDigest ≠ request.objectDigest then
    .error (.publicationMismatch request.requestId)
  else .ok ()

/-- What both verifications do with a publication they found. -/
def verifyFound (publication : IngestPublication)
    (request : PublishReservationRequest) : Program Op Reply (Fallible IngestPublication) := do
  match validatePublicationMatch publication request with
  | .error error => return .error error
  | .ok () =>
    if publication.authorityKey ≠ request.authority.key then do
      (Op.storeToken publisher none).ask
      return .error (.authorityLost (.unsupportedCapability "publication_authority_mismatch"))
    else return .ok publication

def verifyPublication (request : PublishReservationRequest) :
    Program Op Reply (Fallible IngestPublication) := do
  match ← (Op.readRelationAuthoritativeIngestPublication request.requestId).ask with
  | .error source => return .error (.metadata source)
  | .ok none => return .error (.publicationMissing request.requestId)
  | .ok (some publication) => verifyFound publisher publication request

/-- The publication is looked up, and requested once more when it is not there. -/
def verifyAfterUncertainPublish (request : PublishReservationRequest)
    (firstError : MetaStoreError) : Program Op Reply (Fallible IngestPublication) := do
  match ← (Op.readRelationAuthoritativeIngestPublication request.requestId).ask with
  | .error readError =>
    return .error (.uncertainPublication request.requestId firstError readError)
  | .ok (some publication) => verifyFound publisher publication request
  | .ok none =>
    match ← (Op.publishRelationIngestReservation request).ask with
    | .ok .committed => verifyPublication publisher request
    | .ok .duplicate => verifyPublication publisher request
    | .ok .invalidAuthority => do
      (Op.storeToken publisher none).ask
      return .error (.authorityLost (.unsupportedCapability "invalid_relation_authority"))
    | .ok .conflict => return .error (.publicationConflict request.requestId)
    | .error retryError =>
      match ← verifyPublication publisher request with
      | .ok publication => return .ok publication
      | .error (.publicationMissing _) =>
        return .error (.uncertainPublication request.requestId firstError retryError)
      | .error error => return .error error

/-- The metadata publication, and its verification. -/
def publishReserved (prepared : Prepared) :
    Program Op Reply (Fallible PublishedRelationIngest) := do
  match ← (Op.publishRelationIngestReservation prepared.publishRequest).ask with
  | .ok .conflict => return .error (.publicationConflict prepared.requestId)
  | .ok .invalidAuthority => do
    (Op.storeToken publisher none).ask
    return .error (.authorityLost (.unsupportedCapability "invalid_relation_authority"))
  | .ok outcome =>
    match ← verifyPublication publisher prepared.publishRequest with
    | .error error => return .error error
    | .ok _ => return .ok (prepared.published outcome)
  | .error source =>
    match ← verifyAfterUncertainPublish publisher prepared.publishRequest source with
    | .error error => return .error error
    | .ok _ => return .ok (prepared.published .committed)

def stageAndPublish (hash : Hash) (publisher : ℕ) (prepared : Prepared) (payload : Bytes) :
    Program Op Reply (Fallible PublishedRelationIngest) := do
  match ← stageWrite hash prepared.stagingKey.value payload prepared.reservation.payloadDigest with
  | .error source => return .error (.storage source)
  | .ok (.conflict existingDigest requestedDigest) =>
    return .error (.stagingConflict prepared.stagingKey existingDigest requestedDigest)
  | .ok _ => publishReserved publisher prepared

/-- A refused reservation: the authority may have been lost, or the range is taken. -/
def refuseRange (prepared : Prepared) :
    Program Op Reply (Fallible PublishedRelationIngest) := do
  match ← (Op.readRelationPartitionAuthority prepared.authority.key).ask with
  | .error source => return .error (.metadata source)
  | .ok current =>
    if current ≠ some prepared.authority then do
      (Op.storeToken publisher none).ask
      return .error (.authorityLost (.unsupportedCapability "stale_relation_authority"))
    else return .error (.rangeConflict prepared.reservation)

def publishPrepared (hash : Hash) (publisher : ℕ) (prepared : Prepared) (payload : Bytes) :
    Program Op Reply (Fallible PublishedRelationIngest) := do
  match ← (Op.reserveRelationAuthoritativeIngestRange prepared.reserveRequest).ask with
  | .error source => return .error (.metadata source)
  | .ok .conflict => refuseRange publisher prepared
  | .ok _ => stageAndPublish hash publisher prepared payload

def publish (hash : Hash) (publisher : ℕ) (config : RelationIngestPublisherConfig)
    (startOffsetInclusive endOffsetExclusive : UInt64) (payload : Bytes) :
    Program Op Reply (Fallible PublishedRelationIngest) := do
  if ← (Op.loadCapabilityValidated publisher).ask then
    match ← (Op.loadToken publisher).ask with
    | none => return .error .notStarted
    | some authority =>
      match prepare hash config authority startOffsetInclusive endOffsetExclusive payload with
      | .error error => return .error error
      | .ok prepared => publishPrepared hash publisher prepared payload
  else return .error .capabilityNotValidated

end Velorix.Control
