import Velorix.Foundation.Fallible
import Velorix.Storage.ObjectStore
import Velorix.Storage.Ownership
import Velorix.Worker.Lease

/-! The reconciliation of worker shards: what the operator observes, the plan that it makes of it,
and the calls with which it carries the plan out. -/
namespace Velorix.Worker

open Storage FallibleProgram

structure LeaseFact where
  ownerId : String
  ownerEpoch : Option UInt64
  deriving DecidableEq

structure EpochRecordFact where
  ownerId : String
  ownerEpoch : UInt64
  deriving DecidableEq

structure WorkerFact where
  ownerId : String
  ownerEpoch : UInt64
  deriving DecidableEq

structure ObservedControlPlaneFacts where
  lease : Option LeaseFact
  epochRecord : Option EpochRecordFact
  worker : Option WorkerFact
  deriving DecidableEq

inductive ReconcileAction
  | acquireLease (ownerId : String)
  | renewLease (ownerId : String)
  | stopWorker (ownerId : String) (ownerEpoch : UInt64)
  | startWorker (ownerId : String) (ownerEpoch : UInt64)
  deriving DecidableEq

inductive ReconcileBlockReason
  | missingDurableEpochRecordSupport
  | epochRecordConflict
  | leaseOwnerConflict
  deriving DecidableEq

structure ReconcilePlan where
  actions : List ReconcileAction
  blockReason : Option ReconcileBlockReason
  deriving DecidableEq

def stopWorkerIfRunning : Option WorkerFact → List ReconcileAction
  | some worker => [.stopWorker worker.ownerId worker.ownerEpoch]
  | none => []

/-- What to do about the worker, once the lease has its record. -/
def planWorker (lease : LeaseFact) (leaseEpoch : UInt64) : Option WorkerFact → List ReconcileAction
  | some worker =>
    if worker.ownerId = lease.ownerId ∧ worker.ownerEpoch = leaseEpoch then
      [.renewLease lease.ownerId]
    else
      [.stopWorker worker.ownerId worker.ownerEpoch, .startWorker lease.ownerId leaseEpoch]
  | none => [.startWorker lease.ownerId leaseEpoch]

def planReconcile (desiredOwner : String) (facts : ObservedControlPlaneFacts) : ReconcilePlan :=
  let blocked reason : ReconcilePlan := ⟨stopWorkerIfRunning facts.worker, some reason⟩
  match facts.lease with
  | none => ⟨stopWorkerIfRunning facts.worker ++ [.acquireLease desiredOwner], none⟩
  | some lease =>
    if lease.ownerId ≠ desiredOwner then blocked .leaseOwnerConflict
    else match lease.ownerEpoch with
    | none => blocked .missingDurableEpochRecordSupport
    | some leaseEpoch => match facts.epochRecord with
      | none => blocked .missingDurableEpochRecordSupport
      | some record =>
        if record.ownerId = lease.ownerId ∧ record.ownerEpoch = leaseEpoch then
          ⟨planWorker lease leaseEpoch facts.worker, none⟩
        else blocked .epochRecordConflict

structure ObjectStoreAuthorityRef where
  storeId : String
  nameSpace : String
  deriving DecidableEq

structure OwnerEpochStatus where
  streamId : String
  partitionId : UInt32
  ownerId : String
  ownerEpoch : UInt64
  deriving DecidableEq

/-- The fields of a worker shard that its reconciliation reads. -/
structure VelorixWorkerShard where
  nameSpace : Option String
  viewId : String
  streamId : String
  partitionId : UInt32
  desiredOwnerId : String
  authority : ObjectStoreAuthorityRef
  currentOwnerEpoch : Option OwnerEpochStatus
  deriving DecidableEq

structure WorkerShardReconcileInput where
  nowUnixMs : UInt64
  ttlMs : UInt64
  runningWorker : Option WorkerFact
  createdAt : String
  previousCheckpointVersion : Option UInt64
  deriving DecidableEq

structure WorkerShardRuntimeIdentity where
  nameSpace : String
  viewId : String
  streamId : String
  partitionId : UInt32
  authority : ObjectStoreAuthorityRef
  leaseIdentity : String
  ownerId : String
  ownerEpoch : UInt64
  deriving DecidableEq

def WorkerShardRuntimeIdentity.recordKey (identity : WorkerShardRuntimeIdentity) : EpochRecordKey :=
  ⟨identity.streamId, identity.partitionId, identity.ownerEpoch⟩

inductive WorkerShardCommand
  | acquireLease (ownerId : String)
  | persistEpochRecord (ownerId : String) (ownerEpoch : UInt64)
  | stopWorker (ownerId : String) (ownerEpoch : UInt64)
  | startWorker (ownerId : String) (ownerEpoch : UInt64)
  deriving DecidableEq

inductive EpochStoreError
  | objectKey (source : ObjectKeyError)
  | ownershipEpochRecord (source : OwnershipEpochRecordError)
  | ownershipEpochRecordConflict (key : EpochRecordKey)
  | objectStore (source : ObjectStoreError)
  deriving DecidableEq

inductive WorkerShardError
  | missingObjectField (field : String)
  | lease (error : LeaseError)
  | epochStore (error : EpochStoreError)
  | authority (cause : WorkerShardError)
  | authorityMismatch (actual expected : ObjectStoreAuthorityRef)
  | commandExecutor (message : String)
  deriving DecidableEq

structure WorkerShardReconcileOutput where
  plan : ReconcilePlan
  facts : ObservedControlPlaneFacts
  commands : List WorkerShardCommand
  commandError : Option WorkerShardError
  deriving DecidableEq

/-- The requests to the lease API, to the store of epoch records, and to the executor of
commands. -/
inductive Op
  | getLease (nameSpace name : String)
  | createLease (nameSpace : String) (lease : Lease)
  | replaceLease (nameSpace name : String) (lease : Lease)
  | putRecord (record : OwnershipEpochRecord)
  | getRecord (key : EpochRecordKey)
  | listRecords (streamId : String) (partitionId : UInt32)
  | stopWorker (identity : WorkerShardRuntimeIdentity)
  | startWorker (identity : WorkerShardRuntimeIdentity)

abbrev Reply : Op → Type
  | .getLease _ _ => Except KubernetesLeaseError (Option Lease)
  | .createLease _ _ => Except KubernetesLeaseError Lease
  | .replaceLease _ _ _ => Except KubernetesLeaseError Lease
  | .putRecord _ => Except ObjectStoreError Unit
  | .getRecord _ => Except ObjectStoreError OwnershipEpochRecord
  | .listRecords _ _ => Except ObjectStoreError (List UInt64)
  | .stopWorker _ => Except String Unit
  | .startWorker _ => Except String Unit

abbrev Calling (ε α : Type) := FallibleProgram Op Reply ε α

abbrev Op.ask {ε : Type} (op : Op) : Calling ε (Reply op) := FallibleProgram.ask op

def writeLease (name : String) (lease : Lease) : Calling KubernetesLeaseError Lease := do
  let nameSpace ← fromExcept (orInvalidBody "metadata.namespace" lease.nameSpace)
  if lease.resourceVersion.isSome then
    fromExcept (← (Op.replaceLease nameSpace name lease).ask)
  else fromExcept (← (Op.createLease nameSpace lease).ask)

def acquireOrRenewKubernetes (request : LeaseAcquireRequest) :
    Calling KubernetesLeaseError PartitionLeaseGrant := do
  fromExcept request.validate
  let name := request.key.leaseName
  let existing ← fromExcept (← (Op.getLease request.key.nameSpace name).ask)
  let lease ← fromExcept (match existing with
    | some lease => renewOrReacquireLease request lease
    | none => newLease request name)
  let written ← writeLease name lease
  let grant ← fromExcept (currentGrantFromLease request.key written request.nowUnixMs)
  fromExcept (orInvalidBody "spec.holderIdentity" grant)

variable (key : PartitionLeaseKey)

def currentKubernetes (nowUnixMs : UInt64) :
    Calling KubernetesLeaseError (Option PartitionLeaseGrant) := do
  fromExcept key.validate
  match ← fromExcept (← (Op.getLease key.nameSpace key.leaseName).ask) with
  | some lease => fromExcept (currentGrantFromLease key lease nowUnixMs)
  | none => return none

/-- The lease client of the operator, with the errors that it reports. -/
def leaseClient {α : Type} (program : Calling KubernetesLeaseError α) :
    Calling WorkerShardError α :=
  ExceptT.adapt (fun error => .lease error.intoPartitionLeaseError) program

def acquireOrRenew (request : LeaseAcquireRequest) : Calling WorkerShardError PartitionLeaseGrant :=
  leaseClient (acquireOrRenewKubernetes request)

def current (nowUnixMs : UInt64) : Calling WorkerShardError (Option PartitionLeaseGrant) :=
  leaseClient (currentKubernetes key nowUnixMs)

def failEpochStore {α : Type} : Except EpochStoreError α → Calling WorkerShardError α
  | .ok a => pure a
  | .error error => throw (.epochStore error)

def epochReply {α : Type} (reply : Except ObjectStoreError α) : Calling WorkerShardError α :=
  failEpochStore (reply.mapError .objectStore)

def validateStream (streamId : String) : Except EpochStoreError Unit :=
  (validateSegment "stream_id" streamId).mapError .objectKey

def createEpochRecord (record : OwnershipEpochRecord) : Calling WorkerShardError Unit := do
  failEpochStore (record.validate.mapError .ownershipEpochRecord)
  match ← (Op.putRecord record).ask with
  | .ok () => return ()
  | .error .alreadyExists =>
    let existing ← epochReply (← (Op.getRecord record.objectKey).ask)
    if existing = record then return ()
    else throw (.epochStore (.ownershipEpochRecordConflict record.objectKey))
  | .error source => throw (.epochStore (.objectStore source))

def readEpochRecord (streamId : String) (partitionId : UInt32) (ownerEpoch : UInt64) :
    Calling WorkerShardError (Option OwnershipEpochRecord) := do
  failEpochStore (validateStream streamId)
  match ← (Op.getRecord ⟨streamId, partitionId, ownerEpoch⟩).ask with
  | .ok record => return some record
  | .error .notFound => return none
  | .error source => throw (.epochStore (.objectStore source))

def hasNewer (streamId : String) (partitionId : UInt32) (ownerEpoch : UInt64) :
    Calling WorkerShardError Bool := do
  failEpochStore (validateStream streamId)
  let epochs ← epochReply (← (Op.listRecords streamId partitionId).ask)
  let records ← forEach (fun epoch => do
    epochReply (← (Op.getRecord ⟨streamId, partitionId, epoch⟩).ask)) epochs
  return records.any fun record => ownerEpoch < record.ownerEpoch

def ownershipEpochRecordFromGrant (grant : PartitionLeaseGrant) (leaseIdentity createdAt : String)
    (previousCheckpointVersion : Option UInt64) : OwnershipEpochRecord where
  streamId := grant.key.streamId
  partitionId := grant.key.partitionId
  ownerId := grant.ownerId
  ownerEpoch := grant.ownerEpoch
  leaseIdentity := leaseIdentity
  createdAt := createdAt
  previousEpoch := if grant.ownerEpoch = 0 then none else some (grant.ownerEpoch - 1)
  previousCheckpointVersion := previousCheckpointVersion

def factsFromObservations (lease : Option PartitionLeaseGrant)
    (epochRecord : Option OwnershipEpochRecord) (worker : Option WorkerFact) :
    ObservedControlPlaneFacts where
  lease := lease.map fun grant => ⟨grant.ownerId, some grant.ownerEpoch⟩
  epochRecord := epochRecord.map fun record => ⟨record.ownerId, record.ownerEpoch⟩
  worker := worker

def observeFacts (input : WorkerShardReconcileInput) :
    Calling WorkerShardError ObservedControlPlaneFacts := do
  let lease ← current key input.nowUnixMs
  match lease with
  | none => return factsFromObservations none none input.runningWorker
  | some grant =>
    if ← hasNewer key.streamId key.partitionId grant.ownerEpoch then
      return factsFromObservations (some grant) none input.runningWorker
    else
      let record ← readEpochRecord key.streamId key.partitionId grant.ownerEpoch
      return factsFromObservations (some grant) record input.runningWorker

def WorkerShardReconcileOutput.push (output : WorkerShardReconcileOutput)
    (command : WorkerShardCommand) : WorkerShardReconcileOutput :=
  { output with commands := output.commands ++ [command] }

def nonAcquireCommand : ReconcileAction → Option WorkerShardCommand
  | .acquireLease _ => none
  | .renewLease _ => none
  | .stopWorker ownerId ownerEpoch => some (.stopWorker ownerId ownerEpoch)
  | .startWorker ownerId ownerEpoch => some (.startWorker ownerId ownerEpoch)

def appendNonAcquireCommands (plan : ReconcilePlan) (output : WorkerShardReconcileOutput) :
    WorkerShardReconcileOutput :=
  { output with commands := output.commands ++ plan.actions.filterMap nonAcquireCommand }

/-- What an action leads to: the output, the worker that may still run, and whether the remaining
actions are carried out. -/
structure Progress where
  output : WorkerShardReconcileOutput
  workerAfterStops : Option WorkerFact
  goesOn : Bool

def acquireLeaseAction (desiredOwner : String) (key : PartitionLeaseKey)
    (input : WorkerShardReconcileInput) (ownerId : String) (progress : Progress) :
    Calling WorkerShardError Progress := do
  let output := progress.output.push (.acquireLease ownerId)
  let failed (output : WorkerShardReconcileOutput) (error : WorkerShardError) : Progress :=
    ⟨{ output with commandError := some error }, progress.workerAfterStops, false⟩
  match ← attempt (acquireOrRenew ⟨key, ownerId, input.nowUnixMs, input.ttlMs⟩) with
  | .error error => return failed output error
  | .ok grant =>
    let record := ownershipEpochRecordFromGrant grant (partitionLeaseIdentity key) input.createdAt
      input.previousCheckpointVersion
    let output := output.push (.persistEpochRecord record.ownerId record.ownerEpoch)
    match ← attempt (createEpochRecord record) with
    | .error error => return failed output error
    | .ok () =>
      let readBack ← readEpochRecord key.streamId key.partitionId grant.ownerEpoch
      let newer ← hasNewer key.streamId key.partitionId grant.ownerEpoch
      let facts := factsFromObservations (some grant) (if newer then none else readBack)
        progress.workerAfterStops
      let plan := planReconcile desiredOwner facts
      let output := appendNonAcquireCommands plan output
      return ⟨{ output with plan := plan, facts := facts }, progress.workerAfterStops, true⟩

def renewLeaseAction (input : WorkerShardReconcileInput)
    (ownerId : String) (progress : Progress) : Calling WorkerShardError Progress := do
  match ← attempt (acquireOrRenew ⟨key, ownerId, input.nowUnixMs, input.ttlMs⟩) with
  | .ok _ => return progress
  | .error error =>
    let output := { progress.output with commandError := some error }
    match progress.workerAfterStops with
    | none => return { progress with output := output }
    | some worker =>
      let plan := { output.plan with
        actions := output.plan.actions ++ [.stopWorker worker.ownerId worker.ownerEpoch] }
      return { progress with
        output := { output.push (.stopWorker worker.ownerId worker.ownerEpoch) with plan := plan }
        workerAfterStops := none }

def applyPlanAction (desiredOwner : String) (key : PartitionLeaseKey)
    (input : WorkerShardReconcileInput) (progress : Progress) :
    ReconcileAction → Calling WorkerShardError Progress
  | .stopWorker ownerId ownerEpoch => return { progress with
      output := progress.output.push (.stopWorker ownerId ownerEpoch)
      workerAfterStops := none }
  | .startWorker ownerId ownerEpoch => return { progress with
      output := progress.output.push (.startWorker ownerId ownerEpoch) }
  | .acquireLease ownerId => acquireLeaseAction desiredOwner key input ownerId progress
  | .renewLease ownerId => renewLeaseAction key input ownerId progress

def applyPlanActions (desiredOwner : String) (key : PartitionLeaseKey)
    (input : WorkerShardReconcileInput) :
    List ReconcileAction → Progress → Calling WorkerShardError WorkerShardReconcileOutput
  | [], progress => return progress.output
  | action :: rest, progress => do
    let progress ← applyPlanAction desiredOwner key input progress action
    if progress.goesOn then applyPlanActions desiredOwner key input rest progress
    else return progress.output

variable (shard : VelorixWorkerShard)

def partitionLeaseKeyFromWorkerShard : Except WorkerShardError PartitionLeaseKey :=
  match shard.nameSpace with
  | none => .error (.missingObjectField "metadata.namespace")
  | some nameSpace => .ok ⟨nameSpace, shard.viewId, shard.streamId, shard.partitionId⟩

def reconcileWorkerShard (input : WorkerShardReconcileInput) :
    Calling WorkerShardError WorkerShardReconcileOutput := do
  let key ← fromExcept (partitionLeaseKeyFromWorkerShard shard)
  let facts ← observeFacts key input
  let plan := planReconcile shard.desiredOwnerId facts
  applyPlanActions shard.desiredOwnerId key input plan.actions
    ⟨⟨plan, facts, [], none⟩, facts.worker, true⟩

def runtimeIdentityFromWorkerShard (ownerId : String)
    (ownerEpoch : UInt64) : Except WorkerShardError WorkerShardRuntimeIdentity := do
  let key ← partitionLeaseKeyFromWorkerShard shard
  return ⟨key.nameSpace, key.viewId, key.streamId, key.partitionId, shard.authority,
    partitionLeaseIdentity key, ownerId, ownerEpoch⟩

def validateWorkerShardAuthority
    (expectedAuthority : Option ObjectStoreAuthorityRef) : Except WorkerShardError Unit :=
  match expectedAuthority with
  | none => .ok ()
  | some expected =>
    if shard.authority = expected then .ok ()
    else .error (.authorityMismatch shard.authority expected)

/-- Every worker is told to stop. The first failure is kept for later. -/
def executeStops (shard : VelorixWorkerShard) :
    List WorkerShardCommand → Option String → Calling WorkerShardError (Option String)
  | [], deferred => return deferred
  | .stopWorker ownerId ownerEpoch :: rest, deferred => do
    let identity ← fromExcept (runtimeIdentityFromWorkerShard shard ownerId ownerEpoch)
    match ← (Op.stopWorker identity).ask with
    | .ok () => executeStops shard rest deferred
    | .error message => executeStops shard rest (some (deferred.getD message))
  | _ :: rest, deferred => executeStops shard rest deferred

def executeStarts (shard : VelorixWorkerShard) :
    List WorkerShardCommand → Calling WorkerShardError Unit
  | [] => return ()
  | .startWorker ownerId ownerEpoch :: rest => do
    let identity ← fromExcept (runtimeIdentityFromWorkerShard shard ownerId ownerEpoch)
    match ← (Op.startWorker identity).ask with
    | .ok () => executeStarts shard rest
    | .error message => throw (.commandExecutor message)
  | _ :: rest => executeStarts shard rest

def executeScopedWorkerShardCommandsWithAuthority
    (output : WorkerShardReconcileOutput) (expectedAuthority : Option ObjectStoreAuthorityRef) :
    Calling WorkerShardError Unit := do
  fromExcept (validateWorkerShardAuthority shard expectedAuthority)
  let deferred ← executeStops shard output.commands none
  match output.commandError, deferred with
  | some error, _ => throw (.authority error)
  | none, some message => throw (.commandExecutor message)
  | none, none => executeStarts shard output.commands

inductive WorkerShardEvent
  | applied (shard : VelorixWorkerShard)
  | deleted (shard : VelorixWorkerShard)
  deriving DecidableEq

def deletedWorkerShardOutput (input : WorkerShardReconcileInput) :
    Option WorkerShardReconcileOutput :=
  match input.runningWorker, shard.currentOwnerEpoch with
  | some worker, some currentOwner =>
    if currentOwner.streamId ≠ shard.streamId ∨ currentOwner.partitionId ≠ shard.partitionId ∨
        currentOwner.ownerId ≠ worker.ownerId ∨ currentOwner.ownerEpoch ≠ worker.ownerEpoch then
      none
    else some
      { plan := ⟨[.stopWorker worker.ownerId worker.ownerEpoch], none⟩
        facts := ⟨none, none, some worker⟩
        commands := [.stopWorker worker.ownerId worker.ownerEpoch]
        commandError := none }
  | _, _ => none

def handleWorkerShardEventWithScopedCommandExecutorAndAuthority (event : WorkerShardEvent)
    (input : WorkerShardReconcileInput) (expectedAuthority : Option ObjectStoreAuthorityRef) :
    Calling WorkerShardError (Option WorkerShardReconcileOutput) := do
  match event with
  | .applied shard =>
    fromExcept (validateWorkerShardAuthority shard expectedAuthority)
    let output ← reconcileWorkerShard shard input
    executeScopedWorkerShardCommandsWithAuthority shard output expectedAuthority
    return some output
  | .deleted shard =>
    fromExcept (validateWorkerShardAuthority shard expectedAuthority)
    match deletedWorkerShardOutput shard input with
    | none => return none
    | some output =>
      executeScopedWorkerShardCommandsWithAuthority shard output expectedAuthority
      return some output

end Velorix.Worker
