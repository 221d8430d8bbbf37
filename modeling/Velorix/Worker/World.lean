import Velorix.Foundation.History
import Velorix.Worker.Reconcile

/-! The cluster and the object store that operators share, and the system of their calls. -/
namespace Velorix.Worker

open Storage

/-- The lease objects of the cluster, with the version that was given last, and the store of epoch
records. -/
structure World where
  leases : HashMap (String × String) Lease := ∅
  version : ℕ := 0
  epochs : EpochRecords := .empty

namespace World

/-- Stores a lease, under a version that no lease had before. -/
def storeLease (world : World) (nameSpace name : String) (lease : Lease) :
    Except KubernetesLeaseError Lease × World :=
  let stored := { lease with resourceVersion := some (world.version + 1) }
  (.ok stored, { world with
    leases := world.leases.insert (nameSpace, name) stored
    version := world.version + 1 })

/-- What a call does when nothing goes wrong. -/
def answer (world : World) : (op : Op) → Reply op × World
  | .getLease nameSpace name => (.ok (world.leases.lookup (nameSpace, name)), world)
  | .createLease nameSpace lease =>
    match lease.name with
    | none => (.error (.api "create" "name is required"), world)
    | some name =>
      if (world.leases.lookup (nameSpace, name)).isSome then (.error .writeConflict, world)
      else world.storeLease nameSpace name lease
  | .replaceLease nameSpace name lease =>
    match world.leases.lookup (nameSpace, name) with
    | none => (.error (.api "replace" "not found"), world)
    | some existing =>
      if existing.resourceVersion = lease.resourceVersion then
        world.storeLease nameSpace name lease
      else (.error .writeConflict, world)
  | .putRecord record => createOnly (world.epochs.lookup record.objectKey) world
      { world with epochs := world.epochs.insert record }
  | .getRecord key => (found (world.epochs.lookup key), world)
  | .listRecords streamId partitionId =>
    (.ok (listedEpochs world.epochs streamId partitionId), world)
  | .stopWorker _ => (.ok (), world)
  | .startWorker _ => (.ok (), world)

end World

def Op.Fault : (op : Op) → Reply op → Prop
  | .getLease _ _, reply => ∃ error, reply = .error error
  | .createLease _ _, reply => ∃ error, reply = .error error
  | .replaceLease _ _ _, reply => ∃ error, reply = .error error
  | .putRecord _, reply => ∃ error, reply = .error error ∧ error ≠ .alreadyExists
  | .getRecord _, reply => ∃ error, reply = .error error ∧ error ≠ .notFound
  | .listRecords _ _, reply => ∃ error, reply = .error error
  | .stopWorker _, reply => ∃ error, reply = .error error
  | .startWorker _, reply => ∃ error, reply = .error error

abbrev Calls : World → (op : Op) → Reply op → World → Prop := Unreliable World.answer Op.Fault

/-- What operators do: they handle an event, or only reconcile a shard. -/
inductive Invocation
  | handle (event : WorkerShardEvent) (input : WorkerShardReconcileInput)
      (expectedAuthority : Option ObjectStoreAuthorityRef)
  | reconcile (shard : VelorixWorkerShard) (input : WorkerShardReconcileInput)

/-- The shard that is reconciled, and with which input. -/
def Invocation.reconciled : Invocation → Option (VelorixWorkerShard × WorkerShardReconcileInput)
  | .handle (.applied shard) input _ => some (shard, input)
  | .handle (.deleted _) _ _ => none
  | .reconcile shard input => some (shard, input)

inductive Outcome
  | handled (result : Except WorkerShardError (Option WorkerShardReconcileOutput))
  | reconciled (result : Except WorkerShardError WorkerShardReconcileOutput)
  deriving DecidableEq

def Invocation.body : Invocation → Program Op Reply Outcome
  | .handle event input expectedAuthority => do
    return .handled (← (handleWorkerShardEventWithScopedCommandExecutorAndAuthority event input
      expectedAuthority).run)
  | .reconcile shard input => do return .reconciled (← (reconcileWorkerShard shard input).run)

/-- Operators may act at any time, as far as it is permitted. Nothing else touches the leases and
the records. -/
def workerSystem (permitted : Invocation → Prop) :
    System Invocation Op Reply Outcome Empty World where
  body := Invocation.body
  accepts _ := permitted
  calls := Calls
  moves _ _ _ := False

def workerDriver (permitted : Invocation → Prop) [DecidablePred permitted] :
    Pool.Driver (workerSystem permitted) where
  answer := World.answer
  admits _ call := permitted call
  perform _ _ := none
  calls := .delivered
  accepts {_ call} h := of_decide_eq_true (p := permitted call) h
  moves h := nomatch h

/-- What replies are like in every state: a record is read at its own key, and a lease is written
as it was sent, but for its version. -/
def Op.Credible : (op : Op) → Reply op → Prop
  | .getRecord key, reply => ∀ record, reply = .ok record → record.objectKey = key
  | .createLease _ lease, reply => ∀ written, reply = .ok written → written.spec = lease.spec
  | .replaceLease _ _ lease, reply => ∀ written, reply = .ok written → written.spec = lease.spec
  | _, _ => True

variable {w later : World} {op : Op} {reply : Reply op}

theorem credible_of_fault (h : op.Fault reply) : op.Credible reply := by
  cases op with
  | getRecord key =>
    obtain ⟨error, rfl, -⟩ := h
    intro _ hr
    cases hr
  | createLease nameSpace lease | replaceLease nameSpace name lease =>
    obtain ⟨error, rfl⟩ := h
    intro _ hr
    cases hr
  | _ => trivial

theorem credible_answer (w : World) (op : Op) : op.Credible (w.answer op).1 := by
  cases op with
  | getRecord key =>
    intro r hr
    rw [World.answer] at hr
    exact w.epochs.keyed (found_eq_ok.mp hr)
  | createLease nameSpace lease | replaceLease nameSpace name lease =>
    intro written hw
    simp only [World.answer] at hw
    split at hw
    · cases hw
    · split_ifs at hw
      cases hw
      rfl
  | _ => trivial

theorem Calls.credible (h : Calls w op reply later) : op.Credible reply := by
  cases h with
  | delivered => exact credible_answer w op
  | lost hf | failed hf => exact credible_of_fault hf

theorem epochs_answer (w : World) (op : Op) :
    (w.answer op).2.epochs = w.epochs ∨ ∃ r, op = .putRecord r ∧
      w.epochs.lookup r.objectKey = none ∧ (w.answer op).2.epochs = w.epochs.insert r := by
  cases op with
  | putRecord r =>
    simp only [World.answer, createOnly]
    split
    · exact .inl rfl
    · rename_i hf
      exact .inr ⟨r, rfl, hf, rfl⟩
  | createLease nameSpace lease | replaceLease nameSpace name lease =>
    refine .inl ?_
    simp only [World.answer]
    split
    · rfl
    · split_ifs <;> rfl
  | _ => exact .inl rfl

theorem Calls.epochs (h : Calls w op reply later) :
    later.epochs = w.epochs ∨ ∃ r, op = .putRecord r ∧ w.epochs.lookup r.objectKey = none ∧
      later.epochs = w.epochs.insert r := by
  cases h with
  | delivered | lost _ => exact epochs_answer w op
  | failed _ => exact .inl rfl

theorem Calls.lookup_mono (h : Calls w op reply later) {key : EpochRecordKey}
    {r : OwnershipEpochRecord} (hr : w.epochs.lookup key = some r) :
    later.epochs.lookup key = some r := by
  rcases h.epochs with heq | ⟨created, -, hf, heq⟩
  · rw [heq, hr]
  · rw [heq]
    exact KeyedMap.lookup_insert_of_some hf hr

theorem Calls.read {key : EpochRecordKey} {r : OwnershipEpochRecord}
    (h : Calls w (.getRecord key) (.ok r) later) : later.epochs.lookup key = some r := by
  rcases Unreliable.calls_cases h with ⟨hr, rfl⟩ | ⟨⟨error, hr, -⟩, -⟩
  · exact found_eq_ok.mp hr.symm
  · cases hr

theorem Calls.listing {sid : String} {p : UInt32} {epochs : List UInt64}
    (h : Calls w (.listRecords sid p) (.ok epochs) later) :
    epochs = listedEpochs w.epochs sid p := by
  rcases Unreliable.calls_cases h with ⟨hr, -⟩ | ⟨⟨error, hr⟩, -⟩
  · exact Except.ok.inj hr
  · cases hr

end Velorix.Worker
