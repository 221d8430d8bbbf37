import Velorix.Meta.SourceCut

/-! Checkpoint pointers of standing runtimes, the progress of a bootstrap from published
inputs, and the claims of their owners. -/
namespace Velorix.Meta

open Storage ObjectKey BlankText

def isSha256 (value : String) : Bool := (stripPrefix "sha256:" value).any isSha256Hex

structure CausalViewCursorV1 where
  inputEdge : String
  producerTenantId : String
  producerProgramId : String
  producerViewId : String
  producerGeneration : UInt64
  outputStream : String
  outputEpoch : UInt64
  commitDigest : String
  deriving DecidableEq

def invalidProgramIdentity (field : String) : String :=
  "invalid standing program identity field: " ++ field

def requireNotBlank (field value : String) : Except String Unit :=
  if isBlank value then .error (invalidProgramIdentity field) else .ok ()

def CausalViewCursorV1.validate (cursor : CausalViewCursorV1) : Except String Unit := do
  requireNotBlank "causal_cut.input_edge" cursor.inputEdge
  requireNotBlank "causal_cut.producer_tenant_id" cursor.producerTenantId
  requireNotBlank "causal_cut.producer_program_id" cursor.producerProgramId
  requireNotBlank "causal_cut.producer_view_id" cursor.producerViewId
  requireNotBlank "causal_cut.output_stream" cursor.outputStream
  if !isSha256 cursor.commitDigest then .error (invalidProgramIdentity "causal_cut.commit_digest")
  else if cursor.producerGeneration = 0 then .error (invalidProgramIdentity "causal_cut")
  else .ok ()

structure RuntimeCheckpointPartitionCoverageV1 where
  streamId : String
  streamGeneration : UInt64
  partitionId : UInt32
  partitionGeneration : UInt64
  coveredFromOffsetInclusive : UInt64
  processedOffsetExclusive : UInt64
  deriving DecidableEq

structure RuntimeCheckpointRelationCoverageV1 where
  relationId : String
  relationVersion : String
  relationGeneration : UInt64
  schemaFingerprint : String
  partitions : List RuntimeCheckpointPartitionCoverageV1
  deriving DecidableEq

structure RuntimeCheckpointInputCoverageV1 where
  schemaVersion : UInt32
  viewGeneration : UInt64
  planHash : String
  inputCatalogEpoch : UInt64
  relations : List RuntimeCheckpointRelationCoverageV1
  deriving DecidableEq

def invalidInputCoverage : String := invalidProgramIdentity "input_coverage"

namespace RuntimeCheckpointPartitionCoverageV1

def fields (partition : RuntimeCheckpointPartitionCoverageV1) :
    String ×ₗ UInt64 ×ₗ UInt32 ×ₗ UInt64 ×ₗ UInt64 ×ₗ UInt64 :=
  toLex (partition.streamId, toLex (partition.streamGeneration, toLex (partition.partitionId,
    toLex (partition.partitionGeneration, toLex (partition.coveredFromOffsetInclusive,
      partition.processedOffsetExclusive)))))

def identity (partition : RuntimeCheckpointPartitionCoverageV1) :
    String × UInt64 × UInt32 × UInt64 :=
  (partition.streamId, partition.streamGeneration, partition.partitionId,
    partition.partitionGeneration)

/-- The checks of a partition after the one before it. -/
def check (previous : Option (String × UInt64 × UInt32 × UInt64))
    (partition : RuntimeCheckpointPartitionCoverageV1) :
    Except String (Option (String × UInt64 × UInt32 × UInt64)) := do
  requireNotBlank "input_coverage.stream_id" partition.streamId
  if partition.streamGeneration = 0 ∨ partition.partitionGeneration = 0 ∨
      partition.coveredFromOffsetInclusive > partition.processedOffsetExclusive ∨
      previous = some partition.identity then .error invalidInputCoverage
  else return some partition.identity

end RuntimeCheckpointPartitionCoverageV1

namespace RuntimeCheckpointRelationCoverageV1

def identity (relation : RuntimeCheckpointRelationCoverageV1) : String ×ₗ String ×ₗ UInt64 :=
  toLex (relation.relationId, toLex (relation.relationVersion, relation.relationGeneration))

/-- Sorts the partitions of a relation and checks them. -/
def canonicalized (previous : Option (String ×ₗ String ×ₗ UInt64))
    (relation : RuntimeCheckpointRelationCoverageV1) :
    Except String RuntimeCheckpointRelationCoverageV1 := do
  requireNotBlank "input_coverage.relation_id" relation.relationId
  requireNotBlank "input_coverage.relation_version" relation.relationVersion
  requireNotBlank "input_coverage.schema_fingerprint" relation.schemaFingerprint
  if relation.relationGeneration = 0 then .error invalidInputCoverage
  else do
    let partitions := relation.partitions.insertionSort fun a b => a.fields ≤ b.fields
    let _ ← partitions.foldlM RuntimeCheckpointPartitionCoverageV1.check none
    if previous = some relation.identity then .error invalidInputCoverage
    else return { relation with partitions }

end RuntimeCheckpointRelationCoverageV1

namespace RuntimeCheckpointInputCoverageV1

def schemaVersionV1 : UInt32 := 1

/-- The relations one after another, with the identity of the one before. -/
def canonicalizedRelations :
    Option (String ×ₗ String ×ₗ UInt64) → List RuntimeCheckpointRelationCoverageV1 →
      Except String (List RuntimeCheckpointRelationCoverageV1)
  | _, [] => .ok []
  | previous, relation :: relations => do
    let first ← relation.canonicalized previous
    let rest ← canonicalizedRelations (some relation.identity) relations
    return first :: rest

def canonicalized (coverage : RuntimeCheckpointInputCoverageV1) :
    Except String RuntimeCheckpointInputCoverageV1 :=
  if coverage.schemaVersion ≠ schemaVersionV1 ∨ coverage.viewGeneration = 0 then
    .error invalidInputCoverage
  else do
    requireNotBlank "input_coverage.plan_hash" coverage.planHash
    let relations ← canonicalizedRelations none
      (coverage.relations.insertionSort fun a b => a.identity ≤ b.identity)
    return { coverage with relations }

end RuntimeCheckpointInputCoverageV1

structure External where
  /-- `tonic`'s reading of an endpoint: the text of its error, if it has one. -/
  endpointError : String → Option String
  /-- SHA-256 of the JSON text of a coverage. -/
  coverageDigest : RuntimeCheckpointInputCoverageV1 → String

def RuntimeCheckpointInputCoverageV1.stableHash (external : External)
    (coverage : RuntimeCheckpointInputCoverageV1) : Except String String := do
  let canonical ← coverage.canonicalized
  return external.coverageDigest canonical

structure PublishedInputBootstrapCursorV1 where
  inputEdge : String
  capturedCursor : CausalViewCursorV1
  outputManifestRef : String
  outputManifestHash : String
  outputSchemaHash : String
  totalPages : UInt64
  totalRows : UInt64
  nextPageIndex : UInt64
  appliedRows : UInt64
  deriving DecidableEq

structure PublishedInputBootstrapProgressV1 where
  schemaVersion : UInt32
  bootstrapGeneration : UInt64
  planHash : String
  inputs : List PublishedInputBootstrapCursorV1
  deriving DecidableEq

def invalidProgress : MetaStoreError :=
  .serialization "invalid published input bootstrap progress"

namespace PublishedInputBootstrapCursorV1

/-- The checks of one input; `edges` are those of the inputs before it. -/
def invalidAfter (edges : List String) (input : PublishedInputBootstrapCursorV1) : Bool :=
  input.inputEdge != input.capturedCursor.inputEdge || edges.contains input.inputEdge ||
    isBlank input.outputManifestRef || !isSha256 input.outputManifestHash ||
    !isSha256 input.outputSchemaHash || decide (input.nextPageIndex > input.totalPages) ||
    decide (input.appliedRows > input.totalRows) ||
    (input.nextPageIndex == 0 && input.appliedRows != 0) ||
    (input.totalPages == 0 && input.totalRows != 0) ||
    (input.nextPageIndex == input.totalPages && input.appliedRows != input.totalRows)

def validateAfter (edges : List String) (input : PublishedInputBootstrapCursorV1) :
    Except MetaStoreError (List String) :=
  match input.capturedCursor.validate with
  | .error _ => .error invalidProgress
  | .ok () =>
    if input.invalidAfter edges then .error invalidProgress else .ok (input.inputEdge :: edges)

/-- An input that stands where `old` stood or further on. -/
def follows (new old : PublishedInputBootstrapCursorV1) : Bool :=
  new.inputEdge == old.inputEdge && new.capturedCursor == old.capturedCursor &&
    new.outputManifestRef == old.outputManifestRef &&
    new.outputManifestHash == old.outputManifestHash &&
    new.outputSchemaHash == old.outputSchemaHash && new.totalPages == old.totalPages &&
    new.totalRows == old.totalRows && decide (new.nextPageIndex ≥ old.nextPageIndex) &&
    decide (new.appliedRows ≥ old.appliedRows) &&
    (new.nextPageIndex != old.nextPageIndex || new.appliedRows == old.appliedRows)

end PublishedInputBootstrapCursorV1

namespace PublishedInputBootstrapProgressV1

def schemaVersionV1 : UInt32 := 1

def validate (progress : PublishedInputBootstrapProgressV1) : Except MetaStoreError Unit :=
  if progress.schemaVersion ≠ schemaVersionV1 ∨ progress.bootstrapGeneration = 0 ∨
      isBlank progress.planHash ∨ progress.inputs = [] then .error invalidProgress
  else do
    let _ ← progress.inputs.foldlM PublishedInputBootstrapCursorV1.validateAfter []

def isComplete (progress : PublishedInputBootstrapProgressV1) : Bool :=
  progress.validate.isOk && progress.inputs.all fun input =>
    input.nextPageIndex == input.totalPages && input.appliedRows == input.totalRows

def follows (progress previous : PublishedInputBootstrapProgressV1) : Bool :=
  progress.schemaVersion == previous.schemaVersion &&
    progress.bootstrapGeneration == previous.bootstrapGeneration &&
    progress.planHash == previous.planHash &&
    progress.inputs.length == previous.inputs.length &&
    previous.inputs.all fun old => progress.inputs.any fun new => new.follows old

end PublishedInputBootstrapProgressV1

structure StandingRuntimeCheckpointPointer where
  publishedInputBootstrap : Option PublishedInputBootstrapProgressV1
  tenantId : String
  programId : String
  viewId : String
  checkpointKey : String
  logicalEpoch : UInt64
  contentHash : String
  manifestHash : String
  outputManifestRefs : List String
  bootstrapGeneration : UInt64
  planHash : String
  coverageHash : String
  inputCoverage : Option RuntimeCheckpointInputCoverageV1
  previousCheckpointKey : String
  previousManifestHash : String
  deriving DecidableEq

abbrev Scope := String × String × String

def validateStandingRuntimeScope (scope : Scope) : Except MetaStoreError Unit := do
  requireNonEmpty "tenant_id" scope.1
  requireNonEmpty "program_id" scope.2.1
  requireNonEmpty "view_id" scope.2.2

def scopeText (scope : Scope) : String := scope.1 ++ "/" ++ scope.2.1 ++ "/" ++ scope.2.2

/-- An error of another module, reported by its text. -/
def orSerialization {ε α : Type} (text : ε → String) : Except ε α → Except MetaStoreError α
  | .ok a => .ok a
  | .error e => .error (.serialization (text e))

namespace StandingRuntimeCheckpointPointer

variable (pointer : StandingRuntimeCheckpointPointer)

def scope : Scope :=
  (pointer.tenantId, pointer.programId, pointer.viewId)

/-- The key parts of an object of the same runtime. -/
def sameScope (parts : StandingRuntimeKeyParts) : Bool :=
  parts.tenantId == pointer.tenantId && parts.programId == pointer.programId &&
    parts.viewId == pointer.viewId

def validateProgress : Except MetaStoreError Unit :=
  match pointer.publishedInputBootstrap with
  | none => .ok ()
  | some progress => do
    progress.validate
    require (progress.isComplete || pointer.inputCoverage.isNone)
      (.serialization "partial published bootstrap cannot claim input coverage")
    require (progress.bootstrapGeneration = pointer.bootstrapGeneration ∧
        progress.planHash = pointer.planHash)
      (.serialization "published bootstrap checkpoint identity mismatch")

def validatePredecessor :
    Except MetaStoreError Unit := do
  require (pointer.previousCheckpointKey.isEmpty == pointer.previousManifestHash.isEmpty)
    (.serialization "standing runtime checkpoint has a partial predecessor commitment")
  require (pointer.previousManifestHash.isEmpty ||
      (stripPrefix "sha256:" pointer.previousManifestHash).isSome)
    (.serialization "standing runtime checkpoint predecessor manifest hash is invalid")
  if pointer.previousCheckpointKey.isEmpty then return ()
  else do
    let parts ← orSerialization ObjectKeyError.message
      (parseStandingRuntimeCheckpoint pointer.previousCheckpointKey)
    require (pointer.sameScope parts && decide (parts.logicalEpoch < pointer.logicalEpoch))
      (.serialization "standing runtime checkpoint predecessor scope or epoch mismatch")

def validateCoverage (external : External) (pointer : StandingRuntimeCheckpointPointer) :
    Except MetaStoreError Unit :=
  match pointer.inputCoverage with
  | some coverage => do
    let mismatch : MetaStoreError :=
      .serialization "standing runtime checkpoint coverage commitment mismatch"
    require (pointer.bootstrapGeneration ≠ 0 ∧
      pointer.bootstrapGeneration = coverage.viewGeneration ∧
      pointer.planHash = coverage.planHash) mismatch
    let hash ← orSerialization id (coverage.stableHash external)
    require (pointer.coverageHash = hash) mismatch
  | none =>
    require (pointer.coverageHash.isEmpty && (pointer.publishedInputBootstrap.isSome ||
        ((pointer.bootstrapGeneration == 0) == pointer.planHash.isEmpty &&
          (pointer.bootstrapGeneration == 0 || !pointer.previousCheckpointKey.isEmpty))))
      (.serialization "standing runtime checkpoint has partial coverage commitment")

def validateKey : Except MetaStoreError Unit := do
  let parts ← orSerialization ObjectKeyError.message
    (parseStandingRuntimeCheckpoint pointer.checkpointKey)
  require (pointer.sameScope parts && parts.logicalEpoch == pointer.logicalEpoch &&
      parts.contentHash == pointer.contentHash)
    (.serialization ("standing runtime checkpoint pointer key/body mismatch for `" ++
      scopeText pointer.scope ++ "`"))

def outputManifestRefPrefix : String := "standing-runtime-output-manifest:"

def outputDeltaRefPrefix : String := "standing-runtime-output-delta:"

def outputCommitRefPrefix : String := "standing-runtime-output-commit:"

def validateOutputKey (kind : String)
    (parts : Except ObjectKeyError StandingRuntimeKeyParts) : Except MetaStoreError Unit := do
  let parts ← orSerialization ObjectKeyError.message parts
  require (pointer.sameScope parts && parts.logicalEpoch == pointer.logicalEpoch)
    (.serialization ("standing runtime output " ++ kind ++ " ref scope mismatch for `" ++
      scopeText pointer.scope ++ "`"))

/-- Outputs are named by a manifest, or by a delta under one of two prefixes. -/
def validateOutput (outputRef : String) : Except MetaStoreError Unit :=
  match stripPrefix outputManifestRefPrefix outputRef with
  | some key =>
    pointer.validateOutputKey "manifest" (parseStandingRuntimeOutputManifest key)
  | none =>
    match (stripPrefix outputDeltaRefPrefix outputRef).or
        (stripPrefix outputCommitRefPrefix outputRef) with
    | some key =>
      pointer.validateOutputKey "delta" (parseStandingRuntimeOutputDelta key)
    | none => .error (.serialization
        ("standing runtime output ref uses unsupported prefix: `" ++ outputRef ++ "`"))

def validateOutputRef (seen : List String)
    (outputRef : String) : Except MetaStoreError (List String) := do
  requireNonEmpty "output_manifest_refs" outputRef
  require (!seen.contains outputRef)
    (.serialization ("duplicate standing runtime output manifest ref `" ++ outputRef ++ "`"))
  pointer.validateOutput outputRef
  return outputRef :: seen

def validate (external : External) (pointer : StandingRuntimeCheckpointPointer) :
    Except MetaStoreError Unit := do
  pointer.validateProgress
  validateStandingRuntimeScope pointer.scope
  requireNonEmpty "checkpoint_key" pointer.checkpointKey
  requireNonEmpty "content_hash" pointer.contentHash
  requireNonEmpty "manifest_hash" pointer.manifestHash
  pointer.validatePredecessor
  pointer.validateCoverage external
  pointer.validateKey
  let _ ← pointer.outputManifestRefs.foldlM pointer.validateOutputRef []

end StandingRuntimeCheckpointPointer

structure StandingRuntimeOwnerClaim where
  tenantId : String
  programId : String
  viewId : String
  ownerId : String
  ownerEndpoint : Option String
  ownerEpoch : UInt64
  expiresAtUnixMs : UInt64
  deriving DecidableEq

structure StandingRuntimeOwnerToken where
  tenantId : String
  programId : String
  viewId : String
  ownerId : String
  ownerEpoch : UInt64
  deriving DecidableEq

def StandingRuntimeOwnerClaim.token (claim : StandingRuntimeOwnerClaim) :
    StandingRuntimeOwnerToken :=
  ⟨claim.tenantId, claim.programId, claim.viewId, claim.ownerId, claim.ownerEpoch⟩

def StandingRuntimeOwnerClaim.scope (claim : StandingRuntimeOwnerClaim) : Scope :=
  (claim.tenantId, claim.programId, claim.viewId)

def StandingRuntimeOwnerToken.scope (token : StandingRuntimeOwnerToken) : Scope :=
  (token.tenantId, token.programId, token.viewId)

def StandingRuntimeOwnerToken.validate (token : StandingRuntimeOwnerToken) :
    Except MetaStoreError Unit := do
  validateStandingRuntimeScope token.scope
  requireNonEmpty "owner_id" token.ownerId
  require (token.ownerEpoch ≠ 0) (.integerOutOfRange "owner_epoch" token.ownerEpoch)

def maxStandingRuntimeOwnerTtlMs : UInt64 := 300000

def validateTtl (ttlMs : UInt64) : Except MetaStoreError Unit := do
  require (ttlMs ≠ 0) (.invalidDuration "ttl_ms")
  require (ttlMs ≤ maxStandingRuntimeOwnerTtlMs) (.integerOutOfRange "ttl_ms" ttlMs)

structure AcquireStandingRuntimeOwnerRequest where
  tenantId : String
  programId : String
  viewId : String
  ownerId : String
  ttlMs : UInt64
  deriving DecidableEq

def AcquireStandingRuntimeOwnerRequest.scope (request : AcquireStandingRuntimeOwnerRequest) :
    Scope :=
  (request.tenantId, request.programId, request.viewId)

def AcquireStandingRuntimeOwnerRequest.validate (request : AcquireStandingRuntimeOwnerRequest) :
    Except MetaStoreError Unit := do
  validateStandingRuntimeScope request.scope
  requireNonEmpty "owner_id" request.ownerId
  validateTtl request.ttlMs

def AcquireStandingRuntimeOwnerRequest.claim (request : AcquireStandingRuntimeOwnerRequest)
    (ownerEndpoint : Option String) (ownerEpoch expiresAtUnixMs : UInt64) :
    StandingRuntimeOwnerClaim :=
  ⟨request.tenantId, request.programId, request.viewId, request.ownerId, ownerEndpoint,
    ownerEpoch, expiresAtUnixMs⟩

inductive AcquireStandingRuntimeOwnerOutcome
  | acquired (claim : StandingRuntimeOwnerClaim)
  | renewed (claim : StandingRuntimeOwnerClaim)
  | conflict (claim : StandingRuntimeOwnerClaim)
  deriving DecidableEq

/-- The text is split at the first `://`. -/
def splitScheme (endpoint : List Char) : Option (List Char × List Char) :=
  match endpoint with
  | [] => none
  | c :: rest =>
    match (c :: rest).dropPrefix? "://".toList with
    | some authority => some ([], authority)
    | none => (splitScheme rest).map fun parts => (c :: parts.1, parts.2)

def validateOwnerEndpoint (external : External) (endpoint : String) : Except MetaStoreError Unit :=
  match splitScheme endpoint.toList with
  | none => .error (.serialization "invalid owner endpoint origin")
  | some (scheme, authority) => do
    require ((scheme == "http".toList || scheme == "https".toList) && !authority.isEmpty &&
        !authority.any fun c => c == '/' || c == '\\' || c == '?' || c == '#' || c == '@')
      (.serialization ("owner endpoint must be an HTTP(S) origin without credentials, path, " ++
        "query, or fragment"))
    match external.endpointError endpoint with
    | some text => .error (.serialization ("invalid owner endpoint: " ++ text))
    | none => return ()

structure ReacquireStandingRuntimeOwnerRequest where
  expectedCurrent : StandingRuntimeOwnerClaim
  ownerId : String
  ownerEndpoint : String
  ttlMs : UInt64
  deriving DecidableEq

def ReacquireStandingRuntimeOwnerRequest.validate (external : External)
    (request : ReacquireStandingRuntimeOwnerRequest) : Except MetaStoreError Unit := do
  validateStandingRuntimeScope request.expectedCurrent.scope
  requireNonEmpty "expected_owner_id" request.expectedCurrent.ownerId
  require (request.expectedCurrent.ownerEpoch ≠ 0) .standingRuntimeOwnerMismatch
  request.expectedCurrent.ownerEndpoint.forM (validateOwnerEndpoint external)
  requireNonEmpty "owner_id" request.ownerId
  require (request.ownerId ≠ request.expectedCurrent.ownerId) .standingRuntimeOwnerMismatch
  validateOwnerEndpoint external request.ownerEndpoint
  require (request.expectedCurrent.ownerEndpoint = some request.ownerEndpoint)
    .standingRuntimeOwnerMismatch
  validateTtl request.ttlMs

/-- An owner is current when the table holds its token in an unexpired claim. -/
def validateCurrentStandingRuntimeOwner (current : Option StandingRuntimeOwnerClaim)
    (owner : StandingRuntimeOwnerToken) (nowUnixMs : UInt64) : Except MetaStoreError Unit :=
  match current with
  | none => .error .standingRuntimeOwnerMismatch
  | some current =>
    require (!(current.expiresAtUnixMs ≤ nowUnixMs || current.token != owner))
      .standingRuntimeOwnerMismatch

structure PublishStandingRuntimeCheckpointRequest where
  expectedPrevious : Option StandingRuntimeCheckpointPointer
  candidate : StandingRuntimeCheckpointPointer
  owner : StandingRuntimeOwnerToken
  expectedRelationSourceCuts : Option (List RelationIngestSourceIdentityCutV1)
  deriving DecidableEq

inductive PublishStandingRuntimeCheckpointOutcome
  | published
  | duplicate
  | conflict
  | sourceCutChanged
  deriving DecidableEq

namespace PublishStandingRuntimeCheckpointRequest

/-- The candidate against the pointer that it says it replaces. -/
def validateSuccession (external : External)
    (candidate expected : StandingRuntimeCheckpointPointer) : Except MetaStoreError Unit := do
  expected.validate external
  require (expected.scope = candidate.scope) .standingRuntimeCheckpointScopeMismatch
  if candidate = expected then return ()
  else do
    require (expected.logicalEpoch < candidate.logicalEpoch)
      (.nonMonotonicCheckpointEpoch expected.logicalEpoch candidate.logicalEpoch)
    require (candidate.previousCheckpointKey = expected.checkpointKey ∧
        candidate.previousManifestHash = expected.manifestHash)
      (.serialization "standing runtime checkpoint predecessor commitment mismatch")
    require (expected.bootstrapGeneration = 0 ∨
        (candidate.bootstrapGeneration = expected.bootstrapGeneration ∧
          candidate.planHash = expected.planHash))
      (.serialization ("standing runtime checkpoint generation or plan changed within one " ++
        "pointer lineage"))

def validate (external : External) (request : PublishStandingRuntimeCheckpointRequest) :
    Except MetaStoreError Unit := do
  request.candidate.validate external
  request.owner.validate
  require (request.owner.scope = request.candidate.scope) .standingRuntimeCheckpointScopeMismatch
  match request.expectedPrevious with
  | some expected => validateSuccession external request.candidate expected
  | none =>
    require (request.candidate.previousCheckpointKey.isEmpty &&
        request.candidate.previousManifestHash.isEmpty)
      (.serialization "initial standing runtime checkpoint has a predecessor commitment")

end PublishStandingRuntimeCheckpointRequest

end Velorix.Meta
