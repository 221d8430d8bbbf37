import Velorix.Worker.World

/-! What an operator did before it starts a worker or creates a record, in the same event. -/
namespace Velorix.Worker

open FallibleProgram Storage Result List

/-- The calls of one operator in one event. -/
abbrev Made := CallLog Op Reply

def Op.IsListing : Op → Prop
  | .listRecords _ _ => True
  | _ => False

/-- The records were listed with these epochs, and have not been listed since. -/
def LastListed (streamId : String) (partitionId : UInt32) (epochs : List UInt64) (calls : Made) :
    Prop :=
  ∃ before after, calls = before ++ ⟨.listRecords streamId partitionId, .ok epochs⟩ :: after ∧
    ∀ made ∈ after, ¬ made.1.IsListing

/-- What stands behind the start of a worker: the record of its owner, and that no newer record was
found when they were listed last. -/
structure Backed (slot : String × UInt32) (ownerId : String) (ownerEpoch : UInt64) (calls : Made) :
    Prop where
  recorded : ∃ record : OwnershipEpochRecord,
    ⟨.getRecord ⟨slot.1, slot.2, ownerEpoch⟩, .ok record⟩ ∈ calls ∧ record.ownerId = ownerId
  newest : ∃ epochs, LastListed slot.1 slot.2 epochs calls ∧ ∀ epoch ∈ epochs, epoch ≤ ownerEpoch

/-- A call by which a lease could not be read or written, or a record could not be persisted. -/
def Refused : (Σ op : Op, Reply op) → Prop
  | ⟨.getLease _ _, reply⟩ => ∃ error, reply = .error error
  | ⟨.createLease _ _, reply⟩ => ∃ error, reply = .error error
  | ⟨.replaceLease _ _ _, reply⟩ => ∃ error, reply = .error error
  | ⟨.putRecord _, reply⟩ => ∃ error, reply = .error error ∧ error ≠ .alreadyExists
  | _ => False

def Unrefused (calls : Made) : Prop := ∀ made ∈ calls, ¬ Refused made

structure StartJustified (shard : VelorixWorkerShard) (input : WorkerShardReconcileInput)
    (calls : Made) (identity : WorkerShardRuntimeIdentity) : Prop where
  scope : runtimeIdentityFromWorkerShard shard identity.ownerId identity.ownerEpoch = .ok identity
  owner : identity.ownerId = shard.desiredOwnerId
  backed : Backed (shard.streamId, shard.partitionId) identity.ownerId identity.ownerEpoch calls
  stopped : ∀ worker, input.runningWorker = some worker →
    worker ≠ ⟨identity.ownerId, identity.ownerEpoch⟩ → ∃ stopped,
      runtimeIdentityFromWorkerShard shard worker.ownerId worker.ownerEpoch = .ok stopped ∧
      ⟨.stopWorker stopped, .ok ()⟩ ∈ calls
  unfailed : ∃ before after output, calls = before ++ after ∧
    (reconcileWorkerShard shard input).run.Path before (.done (.ok output)) ∧
    output.commandError = none
  unrefused : Unrefused calls

/-- The record states a grant of the lease of the shard. -/
structure RecordOf (shard : VelorixWorkerShard) (record : OwnershipEpochRecord) : Prop where
  streamId : record.streamId = shard.streamId
  partitionId : record.partitionId = shard.partitionId
  ownerId : record.ownerId = shard.desiredOwnerId
  leaseIdentity : ∃ key, partitionLeaseKeyFromWorkerShard shard = .ok key ∧
    record.leaseIdentity = partitionLeaseIdentity key

def Op.IsCommand : Op → Prop
  | .stopWorker _ => True
  | .startWorker _ => True
  | _ => False

def Op.Free : Op → Prop
  | .putRecord _ => False
  | .startWorker _ => False
  | _ => True

def ShardGuard (shard : VelorixWorkerShard) (input : WorkerShardReconcileInput) (calls : Made) :
    Op → Prop
  | .putRecord record => RecordOf shard record
  | .startWorker identity => StartJustified shard input calls identity
  | _ => True

variable {sh : VelorixWorkerShard} {i : WorkerShardReconcileInput} {cs : Made}
  {slot : String × UInt32} {oid : String} {oe : UInt64} {ε α : Type}

variable {op : Op}

theorem Op.IsCommand.not_listing (h : op.IsCommand) : ¬ op.IsListing := by
  cases op with
  | listRecords sid p => exact h.elim
  | _ => exact id

theorem Op.IsCommand.not_refused (h : op.IsCommand) (reply : Reply op) :
    ¬ Refused ⟨op, reply⟩ := by
  cases op with
  | stopWorker identity => exact id
  | startWorker identity => exact id
  | _ => exact h.elim

theorem Unrefused.snoc (h : Unrefused cs) {made : Σ op : Op, Reply op} (hm : ¬ Refused made) :
    Unrefused (cs ++ [made]) := by
  intro made' hmem
  rcases mem_append.mp hmem with hmem | hmem
  · exact h made' hmem
  · rwa [mem_singleton.mp hmem]

variable {more : Made}

theorem LastListed.append {sid : String} {p : UInt32} {epochs : List UInt64}
    (h : LastListed sid p epochs cs) (hmore : ∀ made ∈ more, ¬ made.1.IsListing) :
    LastListed sid p epochs (cs ++ more) := by
  obtain ⟨before, after, rfl, ha⟩ := h
  refine ⟨before, after ++ more, by simp, ?_⟩
  intro made hm
  rcases mem_append.mp hm with hmem | hmem
  · exact ha made hmem
  · exact hmore made hmem

theorem Backed.append (h : Backed slot oid oe cs)
    (hmore : ∀ made ∈ more, ¬ made.1.IsListing) : Backed slot oid oe (cs ++ more) := by
  obtain ⟨⟨r, hr, ho⟩, epochs, hl, hn⟩ := h
  exact ⟨⟨r, mem_append_left _ hr, ho⟩, epochs, hl.append hmore, hn⟩

theorem StartJustified.append {identity : WorkerShardRuntimeIdentity}
    (h : StartJustified sh i cs identity) (hmore : ∀ made ∈ more, made.1.IsCommand) :
    StartJustified sh i (cs ++ more) identity := by
  refine ⟨h.scope, h.owner, h.backed.append fun made hm => (hmore made hm).not_listing, ?_, ?_, ?_⟩
  · intro worker hw ho
    obtain ⟨stopped, hs, hc⟩ := h.stopped worker hw ho
    exact ⟨stopped, hs, mem_append_left _ hc⟩
  · obtain ⟨before, after, o, rfl, hp, he⟩ := h.unfailed
    exact ⟨before, after ++ more, o, append_assoc .., hp, he⟩
  · intro made hm
    rcases mem_append.mp hm with hmem | hmem
    · exact h.unrefused made hmem
    · exact (hmore made hmem).not_refused made.2

theorem planReconcile_cases (desiredOwner : String) (facts : ObservedControlPlaneFacts) :
    (facts.lease = none ∧ (planReconcile desiredOwner facts).actions =
      stopWorkerIfRunning facts.worker ++ [.acquireLease desiredOwner]) ∨
    (planReconcile desiredOwner facts).actions = stopWorkerIfRunning facts.worker ∨
    ∃ oe, facts.lease = some ⟨desiredOwner, some oe⟩ ∧ facts.epochRecord = some ⟨desiredOwner, oe⟩ ∧
      (planReconcile desiredOwner facts).actions =
        planWorker ⟨desiredOwner, some oe⟩ oe facts.worker := by
  obtain ⟨lease, r, worker⟩ := facts
  rcases lease with _ | ⟨oid, epoch⟩
  · exact .inl ⟨rfl, rfl⟩
  right
  simp only [planReconcile]
  split_ifs with ho
  · exact .inl rfl
  push Not at ho
  subst ho
  rcases epoch with _ | epoch
  · exact .inl rfl
  rcases r with _ | ⟨recordOwner, recordEpoch⟩
  · exact .inl rfl
  simp only
  split_ifs with hr
  · obtain ⟨rfl, rfl⟩ := hr
    exact .inr ⟨recordEpoch, rfl, rfl, rfl⟩
  · exact .inl rfl

variable {worker : Option WorkerFact}

theorem startWorker_notMem_stops :
    .startWorker oid oe ∉ stopWorkerIfRunning worker := by
  cases worker <;> simp [stopWorkerIfRunning]

theorem mem_planWorker {lease : LeaseFact} {leaseEpoch : UInt64}
    (h : .startWorker oid oe ∈ planWorker lease leaseEpoch worker) :
    oid = lease.ownerId ∧ oe = leaseEpoch ∧ ∀ running, worker = some running →
      .stopWorker running.ownerId running.ownerEpoch ∈ planWorker lease leaseEpoch worker := by
  rcases worker with _ | running
  · simp only [planWorker, mem_singleton, ReconcileAction.startWorker.injEq] at h
    exact ⟨h.1, h.2, nofun⟩
  · simp only [planWorker] at h ⊢
    split_ifs at h ⊢ with hs
    · simp at h
    · simp only [mem_cons, reduceCtorEq, ReconcileAction.startWorker.injEq, not_mem_nil,
        or_false, false_or] at h
      refine ⟨h.1, h.2, ?_⟩
      rintro _ ⟨⟩
      simp

theorem mem_start_commands {actions : List ReconcileAction} :
    .startWorker oid oe ∈ actions.filterMap nonAcquireCommand ↔ .startWorker oid oe ∈ actions := by
  rw [mem_filterMap]
  constructor
  · rintro ⟨action, hmem, heq⟩
    cases action with
    | startWorker oid' oe' =>
      cases heq
      exact hmem
    | _ => cases heq
  · exact fun hmem => ⟨_, hmem, rfl⟩

/-- The program keeps to what the shard justifies. -/
abbrev Does (shard : VelorixWorkerShard) (input : WorkerShardReconcileInput)
    (post : α → Made → Prop) (p : Calling ε α) (calls : Made) : Prop :=
  Tracks Op.Credible (ShardGuard shard input) post p calls

variable {post : α → Made → Prop}

theorem does_leaseClient {p : Calling KubernetesLeaseError α}
    (h : Does sh i post p cs) : Does sh i post (leaseClient p) cs := by
  refine Program.Tracks.bind (Program.Tracks.weaken h ?_)
  rintro (error | a) cs' hr
  · intro b hb
    cases hb
  · intro b hb
    cases hb
    exact hr a rfl

theorem does_failEpochStore {result : Except EpochStoreError α}
    (h : ∀ a, result = .ok a → post a cs) : Does sh i post (failEpochStore result) cs := by
  cases result with
  | error error => exact tracks_throw
  | ok a => exact tracks_pure (h a rfl)

theorem does_epochReply {reply : Except ObjectStoreError α}
    (h : ∀ a, reply = .ok a → post a cs) : Does sh i post (epochReply reply) cs := by
  cases reply with
  | error error => exact tracks_throw
  | ok a => exact tracks_pure (h a rfl)

theorem does_current (key : PartitionLeaseKey) (nowUnixMs : UInt64) :
    Does sh i (fun _ cs' => Unrefused cs → Unrefused cs') (current key nowUnixMs) cs := by
  refine does_leaseClient (Tracks.bind (tracks_fromExcept fun _ _ => ?_))
  refine tracks_call trivial fun reply _ => Tracks.bind (tracks_fromExcept ?_)
  rintro existing rfl
  have hk (h : Unrefused cs) :
      Unrefused (cs ++ [⟨.getLease key.nameSpace key.leaseName, .ok existing⟩]) := by
    refine h.snoc ?_
    rintro ⟨error, he⟩
    cases he
  cases existing with
  | none => exact tracks_pure hk
  | some lease => exact tracks_fromExcept fun _ _ => hk

variable {lease : Lease}

theorem holder_of_currentGrantFromLease {key : PartitionLeaseKey}
    {nowUnixMs : UInt64} {grant : PartitionLeaseGrant}
    (h : currentGrantFromLease key lease nowUnixMs = .ok (some grant)) : grant.key = key ∧
      ∃ spec, lease.spec = some spec ∧ spec.holderIdentity = some grant.ownerId := by
  simp only [currentGrantFromLease, bind_eq_ok] at h
  obtain ⟨_, -, spec, hs, _, -, oe, -, h⟩ := h
  split at h
  · cases h
  · rename_i oid ho
    split_ifs at h
    simp only [bind_eq_ok] at h
    obtain ⟨_, -, _, -, expiresAtUnixMs, -, h⟩ := h
    split_ifs at h
    · cases h
    · cases h
      refine ⟨rfl, spec, ?_, (Option.filter_eq_some_iff.mp ho).1⟩
      rw [leaseSpec] at hs
      cases hl : lease.spec with
      | none =>
        rw [hl] at hs
        cases hs
      | some spec' =>
        rw [hl] at hs
        cases hs
        rfl

variable {q : LeaseAcquireRequest}

theorem holder_of_newLease {name : String}
    (h : newLease q name = .ok lease) :
    ∃ spec, lease.spec = some spec ∧ spec.holderIdentity = some q.ownerId := by
  simp only [newLease, bind_eq_ok] at h
  obtain ⟨seconds, -, now, -, h⟩ := h
  cases h
  exact ⟨_, rfl, rfl⟩

theorem holder_of_renewOrReacquireLease {existing : Lease}
    (h : renewOrReacquireLease q existing = .ok lease) :
    ∃ spec, lease.spec = some spec ∧ spec.holderIdentity = some q.ownerId := by
  simp only [renewOrReacquireLease, bind_eq_ok] at h
  obtain ⟨_, -, _, -, _, -, _, -, _, -, seconds, -, transitions, -, now, -, h⟩ := h
  cases h
  exact ⟨_, rfl, rfl⟩

theorem does_writeLease (name : String) (lease : Lease) :
    Does sh i (fun written cs' => written.spec = lease.spec ∧
      (Unrefused cs → Unrefused cs')) (writeLease name lease) cs := by
  refine Tracks.bind (tracks_fromExcept fun nameSpace _ => ?_)
  split_ifs <;>
  · refine tracks_call trivial fun reply hr => tracks_fromExcept ?_
    rintro written rfl
    refine ⟨hr written rfl, fun h => h.snoc ?_⟩
    rintro ⟨error, he⟩
    cases he

theorem does_acquireOrRenew (q : LeaseAcquireRequest) :
    Does sh i (fun grant cs' => grant.key = q.key ∧
      grant.ownerId = q.ownerId ∧ (Unrefused cs → Unrefused cs')) (acquireOrRenew q) cs := by
  refine does_leaseClient (Tracks.bind (tracks_fromExcept fun _ _ => ?_))
  refine tracks_call trivial fun reply _ => Tracks.bind (tracks_fromExcept ?_)
  rintro existing rfl
  refine Tracks.bind (tracks_fromExcept fun lease hl => ?_)
  have hh : ∃ spec, lease.spec = some spec ∧ spec.holderIdentity = some q.ownerId := by
    cases existing with
    | none => exact holder_of_newLease hl
    | some _ => exact holder_of_renewOrReacquireLease hl
  refine Tracks.bind ((does_writeLease _ lease).weaken ?_)
  rintro written cs' ⟨hw, hk⟩
  refine Tracks.bind (tracks_fromExcept fun stated hstated => tracks_fromExcept ?_)
  intro grant hg
  cases stated with
  | none => cases hg
  | some _ =>
    cases hg
    obtain ⟨hkey, spec, hs, hh'⟩ := holder_of_currentGrantFromLease hstated
    obtain ⟨spec', hs', ho⟩ := hh
    cases hs.symm.trans (hw.trans hs')
    refine ⟨hkey, Option.some.inj (hh'.symm.trans ho), fun h => hk (h.snoc ?_)⟩
    rintro ⟨error, he⟩
    cases he

end Velorix.Worker
