import Velorix.Meta.Bootstrap

/-! The in-memory metadata store: the state behind its lock, and what every request does to it.
A request returns the state it leaves along with its result, since some requests write before
they fail. -/
namespace Velorix.Meta

structure InMemoryMetaState where
  ingestReservations : HashMap (String × UInt32) (List IngestRangeReservation) := ∅
  legacyBatchKeys : HashMap String IngestRangeReservation := ∅
  authoritativeIngestReservationKeys : HashMap IngestRangeReservation AuthorityKey := ∅
  committedIngestBatchKeys : Finset String := ∅
  authoritativeIngestPublications : HashMap String IngestPublication := ∅
  ingestCatalogEpoch : UInt64 := 0
  viewBootstraps : HashMap Scope ViewBootstrapControlV1 := ∅
  viewDependencyGraphRevisions : HashMap String UInt64 := ∅
  standingRuntimeOwners : HashMap Scope StandingRuntimeOwnerClaim := ∅
  standingRuntimeCheckpoints : HashMap Scope StandingRuntimeCheckpointPointer := ∅
  partitionAuthorityNowUnixMs : UInt64 := 0
  partitionAuthorities : HashMap AuthorityKey AuthorityToken := ∅
  relationPartitionAuthorities : HashMap AuthorityKey AuthorityToken := ∅
  relationIngestReservations : HashMap (String × UInt32) (List IngestRangeReservation) := ∅
  relationAuthorityReservationKeys : HashMap IngestRangeReservation AuthorityKey := ∅
  relationBatchKeys : HashMap String IngestRangeReservation := ∅
  relationAuthoritativeIngestPublications : HashMap String IngestPublication := ∅
  relationReservationPublications : HashMap IngestRangeReservation String := ∅

/-- The state after a request, and what it returned. -/
abbrev Answer (α : Type) := InMemoryMetaState × Except MetaStoreError α

/-- A check that leaves the state alone when it fails. -/
def guarded {α β : Type} (state : InMemoryMetaState) (check : Except MetaStoreError α)
    (next : α → Answer β) : Answer β :=
  match check with
  | .error error => (state, .error error)
  | .ok a => next a

namespace InMemoryMetaState

variable (state : InMemoryMetaState)

def storeClaim (scope : Scope) (claim : StandingRuntimeOwnerClaim) : InMemoryMetaState :=
  { state with standingRuntimeOwners := state.standingRuntimeOwners.insert scope claim }

/-- `acquire_owner_claim`, at the time `now` that the clock reads. -/
def acquireOwnerClaim (now : Except MetaStoreError UInt64)
    (request : AcquireStandingRuntimeOwnerRequest) (ownerEndpoint : Option String) :
    Answer AcquireStandingRuntimeOwnerOutcome :=
  guarded state request.validate fun () =>
  guarded state now fun now =>
  guarded state (orTimestampOverflow (now.checkedAdd request.ttlMs)) fun expiresAtUnixMs =>
  match state.standingRuntimeOwners.lookup request.scope with
  | none =>
    let claim := request.claim ownerEndpoint 1 expiresAtUnixMs
    (state.storeClaim request.scope claim, .ok (.acquired claim))
  | some current =>
    if current.expiresAtUnixMs > now then
      if current.ownerId ≠ request.ownerId then (state, .ok (.conflict current))
      else
        let claim := request.claim (ownerEndpoint.or current.ownerEndpoint) current.ownerEpoch
          expiresAtUnixMs
        (state.storeClaim request.scope claim, .ok (.renewed claim))
    else match current.ownerEpoch.checkedAdd 1 with
      | none => (state, .error .authorityEpochOverflow)
      | some ownerEpoch =>
        let claim := request.claim ownerEndpoint ownerEpoch expiresAtUnixMs
        (state.storeClaim request.scope claim, .ok (.acquired claim))

def acquireStandingRuntimeOwner (now : Except MetaStoreError UInt64)
    (request : AcquireStandingRuntimeOwnerRequest) : Answer AcquireStandingRuntimeOwnerOutcome :=
  state.acquireOwnerClaim now request none

variable (external : External)

def acquireStandingRuntimeOwnerWithEndpoint (state : InMemoryMetaState)
    (now : Except MetaStoreError UInt64) (request : AcquireStandingRuntimeOwnerRequest)
    (ownerEndpoint : String) : Answer AcquireStandingRuntimeOwnerOutcome :=
  guarded state (validateOwnerEndpoint external ownerEndpoint) fun () =>
  state.acquireOwnerClaim now request (some ownerEndpoint)

def reacquireOwnerClaim (state : InMemoryMetaState)
    (now : Except MetaStoreError UInt64) (request : ReacquireStandingRuntimeOwnerRequest) :
    Answer AcquireStandingRuntimeOwnerOutcome :=
  guarded state (request.validate external) fun () =>
  guarded state now fun now =>
  guarded state (orTimestampOverflow (now.checkedAdd request.ttlMs)) fun expiresAtUnixMs =>
  let scope := request.expectedCurrent.scope
  match state.standingRuntimeOwners.lookup scope with
  | none => (state, .error .standingRuntimeOwnerMismatch)
  | some current =>
    if current ≠ request.expectedCurrent then (state, .ok (.conflict current))
    else match current.ownerEpoch.checkedAdd 1 with
      | none => (state, .error .authorityEpochOverflow)
      | some ownerEpoch =>
        let claim : StandingRuntimeOwnerClaim := { current with
          ownerId := request.ownerId
          ownerEndpoint := some request.ownerEndpoint
          ownerEpoch := ownerEpoch
          expiresAtUnixMs := expiresAtUnixMs }
        (state.storeClaim scope claim, .ok (.acquired claim))

def renewStandingRuntimeOwner (now : Except MetaStoreError UInt64)
    (owner : StandingRuntimeOwnerToken) (ttlMs : UInt64) : Answer StandingRuntimeOwnerClaim :=
  let request : AcquireStandingRuntimeOwnerRequest :=
    ⟨owner.tenantId, owner.programId, owner.viewId, owner.ownerId, ttlMs⟩
  guarded state request.validate fun () =>
  guarded state now fun now =>
  let current := state.standingRuntimeOwners.lookup owner.scope
  guarded state (validateCurrentStandingRuntimeOwner current owner now) fun () =>
  match current with
  | none => (state, .error .standingRuntimeOwnerMismatch)
  | some claim =>
    guarded state (orTimestampOverflow (now.checkedAdd ttlMs)) fun expiresAtUnixMs =>
    let renewed := { claim with expiresAtUnixMs }
    (state.storeClaim owner.scope renewed, .ok renewed)

/-- What acquiring an authority puts into its table, and the outcome. -/
def acquireAuthority (current : Option AuthorityToken) (now : UInt64)
    (request : AcquireAuthorityRequest) (explicitReacquire : Bool) (overflow : MetaStoreError)
    (expiresAtUnixMs : UInt64) :
    Option AuthorityToken × Except MetaStoreError AcquireAuthorityOutcome :=
  let fresh (ownerEpoch : Option UInt64) :
      Option AuthorityToken × Except MetaStoreError AcquireAuthorityOutcome :=
    match ownerEpoch with
    | none => (none, .error overflow)
    | some ownerEpoch =>
      let token : AuthorityToken := ⟨request.key, request.ownerId, ownerEpoch, expiresAtUnixMs⟩
      (some token, .ok (.acquired token))
  match current with
  | none => fresh (some 1)
  | some current =>
    if current.expiresAtUnixMs > now then
      if current.ownerId = request.ownerId ∧ request.currentToken = some current then
        if explicitReacquire then fresh (current.ownerEpoch.checkedAdd 1)
        else
          let renewed := { current with expiresAtUnixMs }
          (some renewed, .ok (.renewed renewed))
      else (none, .ok (.conflict current))
    else if explicitReacquire ∧ request.currentToken ≠ some current then
      (none, .ok (.conflict current))
    else fresh (current.ownerEpoch.checkedAdd 1)

def acquirePartitionAuthority (request : AcquireAuthorityRequest) :
    Answer AcquireAuthorityOutcome :=
  guarded state (request.validate "view_id") fun () =>
  let now := state.partitionAuthorityNowUnixMs
  guarded state (orTimestampOverflow (now.checkedAdd request.ttlMs)) fun expiresAtUnixMs =>
  let acquired := acquireAuthority (state.partitionAuthorities.lookup request.key) now request
    false .timestampOverflow expiresAtUnixMs
  ({ state with
    partitionAuthorities := match acquired.1 with
      | some token => state.partitionAuthorities.insert request.key token
      | none => state.partitionAuthorities }, acquired.2)

/-- `acquire_relation_partition_authority` and, with the flag, its explicit reacquisition. -/
def acquireRelationPartitionAuthority
    (request : AcquireAuthorityRequest) (explicitReacquire : Bool) :
    Answer AcquireAuthorityOutcome :=
  guarded state (request.validate "relation_id") fun () =>
  let now := state.partitionAuthorityNowUnixMs
  guarded state (orTimestampOverflow (now.checkedAdd request.ttlMs)) fun expiresAtUnixMs =>
  let acquired := acquireAuthority (state.relationPartitionAuthorities.lookup request.key) now
    request explicitReacquire .authorityEpochOverflow expiresAtUnixMs
  ({ state with
    relationPartitionAuthorities := match acquired.1 with
      | some token => state.relationPartitionAuthorities.insert request.key token
      | none => state.relationPartitionAuthorities }, acquired.2)

def readRelationPartitionAuthority (key : AuthorityKey) :
    Except MetaStoreError (Option AuthorityToken) := do
  key.validate "relation_id"
  return (state.relationPartitionAuthorities.lookup key).filter fun token =>
    token.expiresAtUnixMs > state.partitionAuthorityNowUnixMs

def reservationsAt (slot : String × UInt32) : List IngestRangeReservation :=
  (state.ingestReservations.lookup slot).getD []

def relationReservationsAt (slot : String × UInt32) : List IngestRangeReservation :=
  (state.relationIngestReservations.lookup slot).getD []

/-- The cut of a bootstrap starts above the reservation on its partition. -/
def sealsAbove (control : ViewBootstrapControlV1) (reservation : IngestRangeReservation) : Bool :=
  control.bootstrapCut.relations.any fun relation =>
    relation.relation.relationId == reservation.relationId &&
      relation.relation.relationVersion == reservation.relationVersion &&
      relation.relation.schemaFingerprint == reservation.schemaFingerprint &&
      relation.partitions.any fun partition =>
        partition.streamId == reservation.streamId &&
          partition.partitionId == reservation.partitionId &&
          decide (reservation.startOffsetInclusive < partition.baseOffsetInclusive)

def belowSealedBase (reservation : IngestRangeReservation) : Bool :=
  state.viewBootstraps.values.any fun control => sealsAbove control reservation

/-- The table and the batch-key index that the two older paths share. -/
def pushReservation (reservation : IngestRangeReservation) : InMemoryMetaState :=
  { state with
    legacyBatchKeys := state.legacyBatchKeys.insert reservation.batchKey reservation
    ingestReservations := state.ingestReservations.insert reservation.slot
      ((state.reservationsAt reservation.slot ++ [reservation]).insertionSort
        fun a b => a.startOffsetInclusive ≤ b.startOffsetInclusive) }

def reserveIngestRange (reservation : IngestRangeReservation) : Answer ReserveIngestRangeOutcome :=
  guarded state reservation.validate fun () =>
  if state.belowSealedBase reservation then (state, .ok .conflict)
  else if reservation ∈ state.reservationsAt reservation.slot then (state, .ok .duplicate)
  else if (state.reservationsAt reservation.slot).any (·.overlaps reservation) then
    (state, .ok .conflict)
  else
    let next := state.pushReservation reservation
    match state.ingestCatalogEpoch.checkedAdd 1 with
    -- the reservation stays behind when the epoch overflows
    | none => (next, .error .timestampOverflow)
    | some epoch => ({ next with ingestCatalogEpoch := epoch }, .ok .reserved)

def reserveAuthoritativeIngestRange
    (request : ReserveAuthoritativeRequest) : Answer ReserveIngestRangeOutcome :=
  guarded state request.validatePartition fun () =>
  let reservation := request.reservation
  if (validateCurrentAuthority (state.partitionAuthorities.lookup request.authority.key)
      request.authority state.partitionAuthorityNowUnixMs).isOk = false then
    (state, .ok .conflict)
  else if reservation ∈ state.reservationsAt reservation.slot then
    if state.authoritativeIngestReservationKeys.lookup reservation = some request.authority.key
    then (state, .ok .duplicate)
    else (state, .ok .conflict)
  else if (state.reservationsAt reservation.slot).any (·.overlaps reservation) then
    (state, .ok .conflict)
  else
    let next := state.pushReservation reservation
    ({ next with
      authoritativeIngestReservationKeys :=
        state.authoritativeIngestReservationKeys.insert reservation request.authority.key },
      .ok .reserved)

def reserveRelationAuthoritativeIngestRange
    (request : ReserveAuthoritativeRequest) : Answer ReserveIngestRangeOutcome :=
  guarded state request.validateRelation fun () =>
  let reservation := request.reservation
  if (validateCurrentAuthority (state.relationPartitionAuthorities.lookup request.authority.key)
      request.authority state.partitionAuthorityNowUnixMs).isOk = false then
    (state, .ok .conflict)
  else match state.relationAuthorityReservationKeys.lookup reservation with
    | some existing =>
      if existing = request.authority.key then (state, .ok .duplicate) else (state, .ok .conflict)
    | none =>
      if (state.reservationsAt reservation.slot).any (·.overlaps reservation) ∨
          (state.relationReservationsAt reservation.slot).any (·.overlaps reservation) ∨
          (state.legacyBatchKeys.lookup reservation.batchKey).isSome ∨
          (state.relationBatchKeys.lookup reservation.batchKey).isSome then
        (state, .ok .conflict)
      else
        ({ state with
          relationBatchKeys := state.relationBatchKeys.insert reservation.batchKey reservation
          relationIngestReservations := state.relationIngestReservations.insert reservation.slot
            (state.relationReservationsAt reservation.slot ++ [reservation])
          relationAuthorityReservationKeys :=
            state.relationAuthorityReservationKeys.insert reservation request.authority.key },
          .ok .reserved)

def commitIngestRange (reservation : IngestRangeReservation) : Answer CommitIngestRangeOutcome :=
  guarded state reservation.validate fun () =>
  if reservation ∉ state.reservationsAt reservation.slot then (state, .ok .conflict)
  else if reservation.batchKey ∈ state.committedIngestBatchKeys then (state, .ok .duplicate)
  else
    ({ state with
      committedIngestBatchKeys := insert reservation.batchKey state.committedIngestBatchKeys },
      .ok .committed)

/-- What keeps a batch of commits from being made: the outcome that all of them get. -/
def commitRefusal (reservations : List IngestRangeReservation)
    (reservation : IngestRangeReservation) : Option CommitIngestRangeOutcome :=
  if reservation ∉ state.reservationsAt reservation.slot then some .conflict
  else if reservation.batchKey ∉ state.committedIngestBatchKeys ∧
      1 < (reservations.filter (·.batchKey = reservation.batchKey)).length then some .duplicate
  else none

/-- Commits the reservations one after another. -/
def commitAll : Finset String → List IngestRangeReservation →
    Finset String × List CommitIngestRangeOutcome
  | committed, [] => (committed, [])
  | committed, reservation :: reservations =>
    let rest := commitAll (insert reservation.batchKey committed) reservations
    (rest.1, (if reservation.batchKey ∈ committed then .duplicate else .committed) :: rest.2)

def commitIngestRanges (reservations : List IngestRangeReservation) :
    Answer (List CommitIngestRangeOutcome) :=
  guarded state (reservations.forM IngestRangeReservation.validate) fun () =>
  match reservations.findSome? (state.commitRefusal reservations) with
  | some refusal => (state, .ok (reservations.map fun _ => refusal))
  | none =>
    let all := commitAll state.committedIngestBatchKeys reservations
    ({ state with committedIngestBatchKeys := all.1 }, .ok all.2)

def publishIngestReservation (request : PublishReservationRequest) :
    Answer PublishIngestReservationOutcome :=
  guarded state request.validatePartition fun () =>
  let reservation := request.reservation
  match state.authoritativeIngestPublications.lookup request.requestId with
  | some existing =>
    if existing = request.publication then (state, .ok .duplicate) else (state, .ok .conflict)
  | none =>
    if (validateCurrentAuthority (state.partitionAuthorities.lookup request.authority.key)
        request.authority state.partitionAuthorityNowUnixMs).isOk = false then
      (state, .ok .invalidAuthority)
    else if state.authoritativeIngestReservationKeys.lookup reservation ≠
        some request.authority.key then (state, .ok .conflict)
    else if reservation ∉ state.reservationsAt reservation.slot then (state, .ok .conflict)
    else if reservation.batchKey ∈ state.committedIngestBatchKeys then (state, .ok .conflict)
    else
      ({ state with
        committedIngestBatchKeys := insert reservation.batchKey state.committedIngestBatchKeys
        authoritativeIngestPublications :=
          state.authoritativeIngestPublications.insert request.requestId request.publication },
        .ok .committed)

def publishRelationIngestReservation
    (request : PublishReservationRequest) : Answer PublishIngestReservationOutcome :=
  guarded state request.validateRelation fun () =>
  let reservation := request.reservation
  if (validateCurrentAuthority (state.relationPartitionAuthorities.lookup request.authority.key)
      request.authority state.partitionAuthorityNowUnixMs).isOk = false then
    (state, .ok .invalidAuthority)
  else match state.relationAuthoritativeIngestPublications.lookup request.requestId with
    | some existing =>
      if existing = request.publication then (state, .ok .duplicate) else (state, .ok .conflict)
    | none =>
      if (state.relationReservationPublications.lookup reservation).any
          (fun requestId => decide (requestId ≠ request.requestId)) then (state, .ok .conflict)
      else if state.relationAuthorityReservationKeys.lookup reservation ≠
          some request.authority.key then (state, .ok .conflict)
      else if (state.relationBatchKeys.lookup reservation.batchKey).any
          (fun existing => decide (existing ≠ reservation)) then (state, .ok .conflict)
      else
        ({ state with
          relationAuthoritativeIngestPublications :=
            state.relationAuthoritativeIngestPublications.insert request.requestId
              request.publication
          relationReservationPublications :=
            state.relationReservationPublications.insert reservation request.requestId },
          .ok .committed)

def readRelationAuthoritativeIngestPublication (requestId : String) :
    Except MetaStoreError (Option IngestPublication) := do
  requireNonEmpty "request_id" requestId
  return state.relationAuthoritativeIngestPublications.lookup requestId

def buildCut (relations : List IngestSourceRelationIdentityV1) :
    Except MetaStoreError IngestSourceCutV1 :=
  buildIngestSourceCut ⟨relations⟩ state.ingestCatalogEpoch state.ingestReservations.values.flatten
    state.committedIngestBatchKeys

def captureIngestSourceCut (request : CaptureIngestSourceCutRequest) :
    Except MetaStoreError IngestSourceCutV1 := do
  request.validate
  state.buildCut request.relations

/-- The reservations of relations, with the authority each was made under. -/
def authorizedReservations : List AuthorizedReservation :=
  state.relationIngestReservations.values.flatten.filterMap fun reservation =>
    (state.relationAuthorityReservationKeys.lookup reservation).map fun authority =>
      (authority, reservation)

def captureRelationIngestSourceCuts (request : CaptureRelationIngestSourceCutsRequest) :
    Except MetaStoreError (List RelationIngestSourceIdentityCutV1) := do
  request.validate
  buildRelationIngestSourceCuts request state.authorizedReservations
    state.relationAuthoritativeIngestPublications.values

def beginViewBootstrap (request : BeginViewBootstrapRequest) : Answer BeginViewBootstrapOutcome :=
  guarded state request.validate fun () =>
  match state.viewBootstraps.lookup request.scope with
  | some existing =>
    if request.matchesControl existing then (state, .ok (.duplicate existing))
    else (state, .ok .conflict)
  | none =>
    let revision := (state.viewDependencyGraphRevisions.lookup request.tenantId).getD 0
    if !request.viewInputs.isEmpty ∧ revision ≠ request.expectedGraphRevision then
      (state, .ok .conflict)
    else
      -- the revision moves even if the cut cannot be built
      let moved := if request.viewInputs.isEmpty then state
        else { state with
          viewDependencyGraphRevisions :=
            state.viewDependencyGraphRevisions.insert request.tenantId (revision + 1) }
      guarded moved (state.buildCut request.relations) fun cut =>
      let control := bootstrapControl request cut
      ({ moved with viewBootstraps := state.viewBootstraps.insert request.scope control },
        .ok (.created control))

def fixViewBootstrapActivationCut
    (now : Except MetaStoreError UInt64) (request : ActivationRequest) :
    Answer FixViewBootstrapActivationCutOutcome :=
  guarded state request.validate fun () =>
  guarded state now fun now =>
  guarded state (validateCurrentStandingRuntimeOwner
    (state.standingRuntimeOwners.lookup request.scope) request.owner now) fun () =>
  match state.viewBootstraps.lookup request.scope with
  | none => (state, .ok .conflict)
  | some control =>
    if !request.concerns control then (state, .ok .conflict)
    else if control.activationCut.isSome then (state, .ok (.duplicate control))
    else if control.lifecycle ≠ .bootstrapping then (state, .ok .conflict)
    else match state.standingRuntimeCheckpoints.lookup request.scope with
      | none => (state, .ok .conflict)
      | some checkpoint =>
        if !(checkpoint.bootstrapGeneration = control.bootstrapGeneration ∧
            checkpoint.planHash = control.planHash ∧
            checkpointCoversSourceCut checkpoint control.bootstrapCut) then
          (state, .ok .conflict)
        else
          guarded state (state.buildCut
            (control.bootstrapCut.relations.map IngestSourceRelationCutV1.relation)) fun cut =>
          if !sourceCutCovers cut control.bootstrapCut then (state, .ok .conflict)
          else
            let fixed := { control with activationCut := some cut }
            ({ state with viewBootstraps := state.viewBootstraps.insert request.scope fixed },
              .ok (.fixed fixed))

/-- The checkpoint of a promotion is the current one and covers what the control requires. -/
def provesBootstrap (control : ViewBootstrapControlV1)
    (activationCut : IngestSourceCutV1) (request : PromoteViewBootstrapRequest) : Bool :=
  let checkpoint := request.checkpoint
  decide (state.standingRuntimeCheckpoints.lookup request.activation.scope = some checkpoint) &&
    checkpoint.bootstrapGeneration == control.bootstrapGeneration &&
    checkpoint.planHash == control.planHash &&
    checkpointCoversSourceCut checkpoint activationCut &&
    (control.viewInputs.isEmpty || checkpoint.publishedInputBootstrap.any fun progress =>
      progress.matchesControl control && progress.isComplete)

def promoteViewBootstrap (state : InMemoryMetaState)
    (now : Except MetaStoreError UInt64) (request : PromoteViewBootstrapRequest) :
    Answer PromoteViewBootstrapOutcome :=
  guarded state (request.validate external) fun () =>
  guarded state now fun now =>
  guarded state (validateCurrentStandingRuntimeOwner
    (state.standingRuntimeOwners.lookup request.activation.scope)
    request.activation.owner now) fun () =>
  match state.viewBootstraps.lookup request.activation.scope with
  | none => (state, .ok .conflict)
  | some control =>
    if !request.activation.concerns control then (state, .ok .conflict)
    else if control.lifecycle = .active then
      if control.activeCheckpoint = some request.checkpoint then
        (state, .ok (.duplicate control))
      else (state, .ok .conflict)
    else match control.activationCut with
      | none => (state, .ok .conflict)
      | some activationCut =>
        if !state.provesBootstrap control activationCut request then (state, .ok .conflict)
        else
          let promoted := { control with
            lifecycle := .active
            activeCheckpoint := some request.checkpoint }
          ({ state with
            viewBootstraps := state.viewBootstraps.insert request.activation.scope promoted },
            .ok (.promoted promoted))

/-- What the registry of active views, which is not modelled, says to a promotion. -/
structure RegistryReply where
  /-- The scope or the record of the request is refused. -/
  refusal : Except MetaStoreError Unit
  /-- The view has a record of the expected generation. -/
  found : Bool
  /-- That record is the one of the request. -/
  sameRecord : Bool
  /-- Whether the record can be replaced. -/
  update : Except MetaStoreError Bool

def promoteViewBootstrapWithActiveViewRecord (state : InMemoryMetaState)
    (now : Except MetaStoreError UInt64) (request : PromoteViewBootstrapRequest)
    (registry : RegistryReply) : Answer PromoteViewBootstrapOutcome :=
  guarded state (request.validate external) fun () =>
  guarded state registry.refusal fun () =>
  guarded state now fun now =>
  guarded state (validateCurrentStandingRuntimeOwner
    (state.standingRuntimeOwners.lookup request.activation.scope)
    request.activation.owner now) fun () =>
  match state.viewBootstraps.lookup request.activation.scope with
  | none => (state, .ok .conflict)
  | some control =>
    if !request.activation.concerns control then (state, .ok .conflict)
    else if !registry.found then (state, .ok .conflict)
    else if control.lifecycle = .active then
      if control.activeCheckpoint = some request.checkpoint ∧ registry.sameRecord then
        (state, .ok (.duplicate control))
      else (state, .ok .conflict)
    else match control.activationCut with
      | none => (state, .ok .conflict)
      | some activationCut =>
        if !state.provesBootstrap control activationCut request then (state, .ok .conflict)
        else guarded state registry.update fun updated =>
          if !updated then (state, .ok .conflict)
          else
            let promoted := { control with
              lifecycle := .active
              activeCheckpoint := some request.checkpoint }
            ({ state with
              viewBootstraps := state.viewBootstraps.insert request.activation.scope promoted },
              .ok (.promoted promoted))

/-- The relation cuts that the request expects are those of the state. -/
def sourceCutsCurrent
    (expectedCuts : List RelationIngestSourceIdentityCutV1) : Except MetaStoreError Bool := do
  let expected ← canonicalizeRelationIngestSourceCuts expectedCuts
  let namespaceName := (expected.head?.map fun entry => entry.cut.namespaceName).getD ""
  let actual ← buildRelationIngestSourceCuts
    ⟨namespaceName, expected.map RelationIngestSourceIdentityCutV1.relation⟩
    state.authorizedReservations state.relationAuthoritativeIngestPublications.values
  let canonical ← canonicalizeRelationIngestSourceCuts actual
  return decide (canonical = expected)

/-- The progress that a candidate claims belongs to the bootstrap of its view. -/
def progressAllowed (candidate : StandingRuntimeCheckpointPointer) : Bool :=
  match candidate.publishedInputBootstrap with
  | none => true
  | some progress =>
    (state.viewBootstraps.lookup candidate.scope).any fun control =>
      progress.matchesControl control &&
        (control.lifecycle != .active || progress.isComplete)

/-- Progress, once published, is only ever followed by later progress. -/
def progressFollows (current : Option StandingRuntimeCheckpointPointer)
    (candidate : StandingRuntimeCheckpointPointer) : Bool :=
  match current.bind StandingRuntimeCheckpointPointer.publishedInputBootstrap with
  | none => true
  | some previous => candidate.publishedInputBootstrap.any fun next => next.follows previous

/-- Whether the expected relation cuts, if there are any, still hold. -/
def expectedCutsCurrent
    (request : PublishStandingRuntimeCheckpointRequest) : Except MetaStoreError Bool :=
  match request.expectedRelationSourceCuts with
  | none => .ok true
  | some cuts => state.sourceCutsCurrent cuts

def publishStandingRuntimeCheckpoint (state : InMemoryMetaState)
    (now : Except MetaStoreError UInt64) (request : PublishStandingRuntimeCheckpointRequest) :
    Answer PublishStandingRuntimeCheckpointOutcome :=
  guarded state (request.validate external) fun () =>
  let scope := request.candidate.scope
  guarded state now fun now =>
  guarded state (validateCurrentStandingRuntimeOwner (state.standingRuntimeOwners.lookup scope)
    request.owner now) fun () =>
  let current := state.standingRuntimeCheckpoints.lookup scope
  if current = some request.candidate then (state, .ok .duplicate)
  else guarded state (state.expectedCutsCurrent request) fun cutsCurrent =>
    if !cutsCurrent then (state, .ok .sourceCutChanged)
    else if current ≠ request.expectedPrevious then (state, .ok .conflict)
    else if !state.progressAllowed request.candidate then (state, .ok .conflict)
    else if !progressFollows current request.candidate then (state, .ok .conflict)
    else
      ({ state with
        standingRuntimeCheckpoints :=
          state.standingRuntimeCheckpoints.insert scope request.candidate },
        .ok .published)

end InMemoryMetaState

end Velorix.Meta
