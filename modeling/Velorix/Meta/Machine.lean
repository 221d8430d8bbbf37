import Velorix.Foundation.Trace
import Velorix.Meta.State

/-! Runs of the metadata store: any requests in any order, at any clock readings. -/
namespace Velorix.Meta

inductive Event
  | acquireStandingRuntimeOwner (now : Except MetaStoreError UInt64)
    (request : AcquireStandingRuntimeOwnerRequest)
    (result : Except MetaStoreError AcquireStandingRuntimeOwnerOutcome)
  | acquireStandingRuntimeOwnerWithEndpoint (now : Except MetaStoreError UInt64)
    (request : AcquireStandingRuntimeOwnerRequest) (ownerEndpoint : String)
    (result : Except MetaStoreError AcquireStandingRuntimeOwnerOutcome)
  | reacquireStandingRuntimeOwner (now : Except MetaStoreError UInt64)
    (request : ReacquireStandingRuntimeOwnerRequest)
    (result : Except MetaStoreError AcquireStandingRuntimeOwnerOutcome)
  | renewStandingRuntimeOwner (now : Except MetaStoreError UInt64)
    (owner : StandingRuntimeOwnerToken) (ttlMs : UInt64)
    (result : Except MetaStoreError StandingRuntimeOwnerClaim)
  | publishStandingRuntimeCheckpoint (now : Except MetaStoreError UInt64)
    (request : PublishStandingRuntimeCheckpointRequest)
    (result : Except MetaStoreError PublishStandingRuntimeCheckpointOutcome)
  | acquirePartitionAuthority (request : AcquireAuthorityRequest)
    (result : Except MetaStoreError AcquireAuthorityOutcome)
  | acquireRelationPartitionAuthority (request : AcquireAuthorityRequest)
    (explicitReacquire : Bool) (result : Except MetaStoreError AcquireAuthorityOutcome)
  | reserveIngestRange (reservation : IngestRangeReservation)
    (result : Except MetaStoreError ReserveIngestRangeOutcome)
  | reserveAuthoritativeIngestRange (request : ReserveAuthoritativeRequest)
    (result : Except MetaStoreError ReserveIngestRangeOutcome)
  | reserveRelationAuthoritativeIngestRange (request : ReserveAuthoritativeRequest)
    (result : Except MetaStoreError ReserveIngestRangeOutcome)
  | commitIngestRange (reservation : IngestRangeReservation)
    (result : Except MetaStoreError CommitIngestRangeOutcome)
  | commitIngestRanges (reservations : List IngestRangeReservation)
    (result : Except MetaStoreError (List CommitIngestRangeOutcome))
  | publishIngestReservation (request : PublishReservationRequest)
    (result : Except MetaStoreError PublishIngestReservationOutcome)
  | publishRelationIngestReservation (request : PublishReservationRequest)
    (result : Except MetaStoreError PublishIngestReservationOutcome)
  | beginViewBootstrap (request : BeginViewBootstrapRequest)
    (result : Except MetaStoreError BeginViewBootstrapOutcome)
  | fixViewBootstrapActivationCut (now : Except MetaStoreError UInt64)
    (request : ActivationRequest)
    (result : Except MetaStoreError FixViewBootstrapActivationCutOutcome)
  | promoteViewBootstrap (now : Except MetaStoreError UInt64)
    (request : PromoteViewBootstrapRequest)
    (result : Except MetaStoreError PromoteViewBootstrapOutcome)
  | promoteViewBootstrapWithActiveViewRecord (now : Except MetaStoreError UInt64)
    (request : PromoteViewBootstrapRequest) (registry : InMemoryMetaState.RegistryReply)
    (result : Except MetaStoreError PromoteViewBootstrapOutcome)
  /-- The clock of the partition authorities moves. -/
  | partitionAuthorityClock (now : UInt64)
  /-- Hash maps may be iterated in another order. -/
  | rehashed

/-- The same tables, iterated in other orders. -/
structure Rehashed (state next : InMemoryMetaState) : Prop where
  ingestReservations : state.ingestReservations.Reordered next.ingestReservations
  viewBootstraps : state.viewBootstraps.Reordered next.viewBootstraps
  relationIngestReservations :
    state.relationIngestReservations.Reordered next.relationIngestReservations
  relationPublications : state.relationAuthoritativeIngestPublications.Reordered
    next.relationAuthoritativeIngestPublications
  rest : next = { state with
    ingestReservations := next.ingestReservations
    viewBootstraps := next.viewBootstraps
    relationIngestReservations := next.relationIngestReservations
    relationAuthoritativeIngestPublications := next.relationAuthoritativeIngestPublications }

inductive Step (external : External) (state : InMemoryMetaState) :
    Event → InMemoryMetaState → Prop
  | acquireStandingRuntimeOwner {now request result next}
      (h : state.acquireStandingRuntimeOwner now request = (next, result)) :
      Step external state (.acquireStandingRuntimeOwner now request result) next
  | acquireStandingRuntimeOwnerWithEndpoint {now request ownerEndpoint result next}
      (h : state.acquireStandingRuntimeOwnerWithEndpoint external now request ownerEndpoint =
        (next, result)) :
      Step external state
        (.acquireStandingRuntimeOwnerWithEndpoint now request ownerEndpoint result) next
  | reacquireStandingRuntimeOwner {now request result next}
      (h : state.reacquireOwnerClaim external now request = (next, result)) :
      Step external state (.reacquireStandingRuntimeOwner now request result) next
  | renewStandingRuntimeOwner {now owner ttlMs result next}
      (h : state.renewStandingRuntimeOwner now owner ttlMs = (next, result)) :
      Step external state (.renewStandingRuntimeOwner now owner ttlMs result) next
  | publishStandingRuntimeCheckpoint {now request result next}
      (h : state.publishStandingRuntimeCheckpoint external now request = (next, result)) :
      Step external state (.publishStandingRuntimeCheckpoint now request result) next
  | acquirePartitionAuthority {request result next}
      (h : state.acquirePartitionAuthority request = (next, result)) :
      Step external state (.acquirePartitionAuthority request result) next
  | acquireRelationPartitionAuthority {request explicitReacquire result next}
      (h : state.acquireRelationPartitionAuthority request explicitReacquire = (next, result)) :
      Step external state (.acquireRelationPartitionAuthority request explicitReacquire result)
        next
  | reserveIngestRange {reservation result next}
      (h : state.reserveIngestRange reservation = (next, result)) :
      Step external state (.reserveIngestRange reservation result) next
  | reserveAuthoritativeIngestRange {request result next}
      (h : state.reserveAuthoritativeIngestRange request = (next, result)) :
      Step external state (.reserveAuthoritativeIngestRange request result) next
  | reserveRelationAuthoritativeIngestRange {request result next}
      (h : state.reserveRelationAuthoritativeIngestRange request = (next, result)) :
      Step external state (.reserveRelationAuthoritativeIngestRange request result) next
  | commitIngestRange {reservation result next}
      (h : state.commitIngestRange reservation = (next, result)) :
      Step external state (.commitIngestRange reservation result) next
  | commitIngestRanges {reservations result next}
      (h : state.commitIngestRanges reservations = (next, result)) :
      Step external state (.commitIngestRanges reservations result) next
  | publishIngestReservation {request result next}
      (h : state.publishIngestReservation request = (next, result)) :
      Step external state (.publishIngestReservation request result) next
  | publishRelationIngestReservation {request result next}
      (h : state.publishRelationIngestReservation request = (next, result)) :
      Step external state (.publishRelationIngestReservation request result) next
  | beginViewBootstrap {request result next}
      (h : state.beginViewBootstrap request = (next, result)) :
      Step external state (.beginViewBootstrap request result) next
  | fixViewBootstrapActivationCut {now request result next}
      (h : state.fixViewBootstrapActivationCut now request = (next, result)) :
      Step external state (.fixViewBootstrapActivationCut now request result) next
  | promoteViewBootstrap {now request result next}
      (h : state.promoteViewBootstrap external now request = (next, result)) :
      Step external state (.promoteViewBootstrap now request result) next
  | promoteViewBootstrapWithActiveViewRecord {now request registry result next}
      (h : state.promoteViewBootstrapWithActiveViewRecord external now request registry =
        (next, result)) :
      Step external state (.promoteViewBootstrapWithActiveViewRecord now request registry result)
        next
  | partitionAuthorityClock (now : UInt64) :
      Step external state (.partitionAuthorityClock now)
        { state with partitionAuthorityNowUnixMs := now }
  | rehashed {next} (h : Rehashed state next) : Step external state .rehashed next

/-- Every endpoint is accepted, and all coverages have one digest. -/
def plainExternal : External := ⟨fun _ => none, fun _ => ""⟩

end Velorix.Meta
