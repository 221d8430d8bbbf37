import Velorix.Worker.Handling

/-! Runs of any number of operators: what fences the start of a worker, and whose lease stands
behind it. -/
namespace Velorix.Worker

open Pool Storage

variable {id : ℕ}

abbrev WorkerPool := Pool Invocation Op Reply Outcome World

abbrev WorkerEvent := PoolEvent Invocation Op Reply Outcome Empty

variable {permitted : Invocation → Prop} {start : World} {pool next : WorkerPool}
  {log : List WorkerEvent} {e : WorkerEvent} {identity : WorkerShardRuntimeIdentity}
  {reply : Reply (.startWorker identity)}

theorem tracked_run (ht : Trace (Step (workerSystem permitted)) (idle start) log pool) :
    Tracked Op.Credible Guard Returned log pool :=
  Tracked.run Calls.credible (fun _ => tracks_body _) ht

theorem step_lookup_mono (hs : Step (workerSystem permitted) pool e next)
    {key : EpochRecordKey} {r : OwnershipEpochRecord} (h : pool.shared.epochs.lookup key = some r) :
    next.shared.epochs.lookup key = some r := by
  cases hs with
  | called _ hc => exact hc.lookup_mono h
  | moved hm => exact hm.elim
  | _ => exact h

/-- What an operator has read is still in the store. -/
theorem lookup_of_read (ht : Trace (Step (workerSystem permitted)) (idle start) log pool)
    {key : EpochRecordKey} {r : OwnershipEpochRecord}
    (h : ⟨.getRecord key, .ok r⟩ ∈ ownCalls id log) : pool.shared.epochs.lookup key = some r := by
  refine ht.invariant (P := fun log pool => ∀ id key r, ⟨.getRecord key, .ok r⟩ ∈ ownCalls id log →
    pool.shared.epochs.lookup key = some r) (by simp [ownCalls]) ?_ id key r h
  intro log pool e next ih hs id key r h
  rw [ownCalls_snoc] at h
  -- a call that was made before was read from a smaller store
  have hb (h : ⟨.getRecord key, .ok r⟩ ∈ ownCalls id log) :
      next.shared.epochs.lookup key = some r :=
    step_lookup_mono hs (ih id key r h)
  cases e with
  | began id' call =>
    simp only [noteEvent] at h
    split_ifs at h
    · cases h
    · exact hb h
  | called id' op reply =>
    simp only [noteEvent] at h
    split_ifs at h
    · rcases List.mem_append.mp h with h | h
      · exact hb h
      · cases List.mem_singleton.mp h
        cases hs with
        | called _ hc => exact hc.read
    · exact hb h
  | returned id' call out | crashed id' => exact hb h
  | moved move => exact hb h

structure Started (permitted : Invocation → Prop) (world : World)
    (identity : WorkerShardRuntimeIdentity) (shard : VelorixWorkerShard) : Prop where
  permitted : ∃ invocation input, permitted invocation ∧ invocation.reconciled = some (shard, input)
  scope : runtimeIdentityFromWorkerShard shard identity.ownerId identity.ownerEpoch = .ok identity
  owner : identity.ownerId = shard.desiredOwnerId
  recorded : ∃ record, world.epochs.lookup identity.recordKey = some record ∧
    record.ownerId = identity.ownerId

section
variable (ht : Trace (Step (workerSystem permitted)) (idle start) log pool)
  (hs : Step (workerSystem permitted) pool (.called id (.startWorker identity) reply) next)
include ht hs

theorem justified_of_called : ∃ task sh i, pool.tasks id = some task ∧ permitted task.call ∧
      task.call.reconciled = some (sh, i) ∧ StartJustified sh i (ownCalls id log) identity := by
  obtain ⟨task, htask, hg⟩ := (tracked_run ht).called hs
  obtain ⟨_, hp⟩ := exists_accepts ht id task htask
  rw [Guard] at hg
  split at hg
  · rename_i sh i hr
    exact ⟨task, sh, i, htask, hp, hr, hg⟩
  · exact hg.elim

theorem started_of_called : ∃ sh, Started permitted pool.shared identity sh := by
  obtain ⟨task, sh, i, -, hp, hr, hj⟩ :=
    justified_of_called ht hs
  obtain ⟨r, hread, ho⟩ := hj.backed.recorded
  obtain ⟨-, -, hstream, hpart⟩ := runtimeIdentity_fields hj.scope
  refine ⟨sh, ⟨_, i, hp, hr⟩, hj.scope, hj.owner, r, ?_, ho⟩
  rw [WorkerShardRuntimeIdentity.recordKey, hstream, hpart]
  exact lookup_of_read ht hread

end

theorem started_of_mem (ht : Trace (Step (workerSystem permitted)) (idle start) log pool)
    (h : .called id (.startWorker identity) reply ∈ log) :
    ∃ sh, Started permitted pool.shared identity sh := by
  obtain ⟨earlier, later, rfl⟩ := List.append_of_mem h
  obtain ⟨before, after, he, hs, hl⟩ := ht.split
  obtain ⟨sh, hp, hscope, ho, r, hr, hsame⟩ :=
    started_of_called he hs
  refine ⟨sh, hp, hscope, ho, r, ?_, hsame⟩
  refine hl.invariant (P := fun _ pool => pool.shared.epochs.lookup identity.recordKey =
    some r) (step_lookup_mono hs hr) ?_
  exact fun ih hs => step_lookup_mono hs ih

/-- What fences a start: its record is durable, no start of another owner has the same epoch, no
newer record was there at the last look, any other worker was stopped before, and nothing failed on
the way. -/
structure FencedStart (permitted : Invocation → Prop) (start : World) (log : List WorkerEvent)
    (pool : WorkerPool) (id : ℕ) (identity : WorkerShardRuntimeIdentity) : Prop where
  recorded : ∃ record, pool.shared.epochs.lookup identity.recordKey = some record ∧
    record.ownerId = identity.ownerId
  sameOwner : ∀ id' identity' reply, .called id' (.startWorker identity') reply ∈ log →
    identity'.recordKey = identity.recordKey → identity'.ownerId = identity.ownerId
  newest : ∃ earlier epochs later before listed,
    log = earlier ++
      .called id (.listRecords identity.streamId identity.partitionId) (.ok epochs) :: later ∧
    (∀ reply, .called id (.listRecords identity.streamId identity.partitionId) reply ∉ later) ∧
    Trace (Step (workerSystem permitted)) (idle start) earlier before ∧
    Step (workerSystem permitted) before
      (.called id (.listRecords identity.streamId identity.partitionId) (.ok epochs)) listed ∧
    Trace (Step (workerSystem permitted)) listed later pool ∧
    ∀ key record, before.shared.epochs.lookup key = some record →
      key.streamId = identity.streamId → key.partitionId = identity.partitionId →
      key.ownerEpoch ≤ identity.ownerEpoch
  unhindered : ∃ task shard input, pool.tasks id = some task ∧
    task.call.reconciled = some (shard, input) ∧
    (∀ worker, input.runningWorker = some worker →
      worker ≠ ⟨identity.ownerId, identity.ownerEpoch⟩ → ∃ stopped,
        runtimeIdentityFromWorkerShard shard worker.ownerId worker.ownerEpoch = .ok stopped ∧
        ⟨.stopWorker stopped, .ok ()⟩ ∈ ownCalls id log) ∧
    (∃ before after output, ownCalls id log = before ++ after ∧
      (reconcileWorkerShard shard input).run.Path before (.done (.ok output)) ∧
      output.commandError = none) ∧
    Unrefused (ownCalls id log)

theorem newest_of_lastListed (ht : Trace (Step (workerSystem permitted)) (idle start) log pool)
    {sid : String} {p : UInt32} {epochs : List UInt64}
    (h : LastListed sid p epochs (ownCalls id log)) :
    ∃ earlier later before listed,
      log = earlier ++ .called id (.listRecords sid p) (.ok epochs) :: later ∧
      (∀ reply, .called id (.listRecords sid p) reply ∉ later) ∧
      Trace (Step (workerSystem permitted)) (idle start) earlier before ∧
      Step (workerSystem permitted) before (.called id (.listRecords sid p) (.ok epochs)) listed ∧
      Trace (Step (workerSystem permitted)) listed later pool ∧
      ∀ key r, before.shared.epochs.lookup key = some r →
        key.streamId = sid → key.partitionId = p → key.ownerEpoch ∈ epochs := by
  obtain ⟨cs, more, hcalls, hm⟩ := h
  obtain ⟨earlier, later, rfl, hl⟩ := exists_called_of_ownCalls hcalls
  obtain ⟨before, listed, he, hs, hlast⟩ := ht.split
  refine ⟨earlier, later, before, listed, rfl, ?_, he, hs, hlast, ?_⟩
  · intro reply hmem
    exact hm _ (hl _ _ hmem) trivial
  · rintro key r hr rfl rfl
    cases hs with
    | called _ hc =>
      rw [hc.listing]
      exact mem_listedEpochs hr

/-- In every run of any number of operators, every start of a worker is fenced. -/
theorem worker_start_fenced
    (htrace : Trace (Step (workerSystem permitted)) (idle start) log pool) {id : ℕ}
    {reply : Reply (.startWorker identity)}
    (hstep : Step (workerSystem permitted) pool (.called id (.startWorker identity) reply) next) :
    FencedStart permitted start log pool id identity := by
  obtain ⟨task, shard, input, htask, -, hreconciled, hjustified⟩ :=
    justified_of_called htrace hstep
  obtain ⟨-, -, hstream, hpartition⟩ := runtimeIdentity_fields hjustified.scope
  obtain ⟨-, -, -, -, record, hrecord, howner⟩ := started_of_called htrace hstep
  refine ⟨⟨record, hrecord, howner⟩, ?_, ?_, task, shard, input, htask, hreconciled,
    hjustified.stopped, hjustified.unfailed, hjustified.unrefused⟩
  · intro id' identity' reply' hmem hkey
    obtain ⟨-, -, -, -, record', hrecord', howner'⟩ := started_of_mem htrace hmem
    rw [hkey, hrecord] at hrecord'
    cases hrecord'
    exact howner'.symm.trans howner
  · obtain ⟨epochs, hlisted, hnewest⟩ := hjustified.backed.newest
    rw [← hstream, ← hpartition] at hlisted
    obtain ⟨earlier, later, before, listed, hlog, hlater, hearlier, hlook, hlast, hkeys⟩ :=
      newest_of_lastListed htrace hlisted
    refine ⟨earlier, epochs, later, before, listed, hlog, hlater, hearlier, hlook, hlast, ?_⟩
    intro key record' hrecord' hstream' hpartition'
    exact hnewest _ (hkeys key record' hrecord' hstream' hpartition')

/-- A shard of a view over one stream that the views share. -/
def plainShard (viewId : String) : VelorixWorkerShard where
  nameSpace := some "n"
  viewId := viewId
  streamId := "s"
  partitionId := 0
  desiredOwnerId := "w"
  authority := ⟨"o", "n"⟩
  currentOwnerEpoch := none

def plainInput (nowUnixMs : UInt64) (runningWorker : Option WorkerFact) :
    WorkerShardReconcileInput where
  nowUnixMs := nowUnixMs
  ttlMs := 60000
  runningWorker := runningWorker
  createdAt := "t"
  previousCheckpointVersion := none

def plainIdentity (viewId : String) : WorkerShardRuntimeIdentity where
  nameSpace := "n"
  viewId := viewId
  streamId := "s"
  partitionId := 0
  authority := ⟨"o", "n"⟩
  leaseIdentity := partitionLeaseIdentity ⟨"n", viewId, "s", 0⟩
  ownerId := "w"
  ownerEpoch := 1

/-- The worker that an operator is about to start. -/
def nextStart (pool : WorkerPool) (id : ℕ) : Option WorkerShardRuntimeIdentity :=
  ((pool.tasks id).bind (·.rest.next?)).bind fun
    | .startWorker identity => some identity
    | _ => none

theorem exists_started (driver : Driver (workerSystem permitted))
    (h : nextStart pool id = some identity) : ∃ reply next,
      Step (workerSystem permitted) pool (.called id (.startWorker identity) reply) next := by
  obtain ⟨op, hop, hs⟩ := Option.bind_eq_some_iff.mp h
  cases op with
  | startWorker identity' =>
    cases hs
    exact ⟨_, driver.exists_called hop⟩
  | _ => cases hs

/-- An old worker gives way to the first one of a lease. -/
def replaced : List (Command Invocation Empty) :=
  [.start 0 (.handle (.applied (plainShard "a")) (plainInput 1 (some ⟨"v", 4⟩)) none),
   .advance 0 8]

theorem replaced_starts :
    ((workerDriver fun _ => True).follow replaced (idle {})).any (fun result =>
      nextStart result.2 0 = some (plainIdentity "a")) = true := by
  decide +kernel

theorem replaced_fenced : ∃ log pool next reply,
    Trace (Step (workerSystem fun _ => True)) (idle {}) log pool ∧
    Step (workerSystem fun _ => True) pool (.called 0 (.startWorker (plainIdentity "a")) reply)
      next ∧ FencedStart (fun _ => True) {} log pool 0 (plainIdentity "a") := by
  obtain ⟨⟨outs, pool⟩, hfollow, hresult⟩ := (Option.any_eq_true _ _).mp replaced_starts
  obtain ⟨log, -, htrace⟩ := Driver.trace_of_follow hfollow
  obtain ⟨reply, next, hstep⟩ :=
    exists_started (workerDriver fun _ => True) (of_decide_eq_true hresult)
  exact ⟨log, pool, next, reply, htrace, hstep, worker_start_fenced htrace hstep⟩

end Velorix.Worker
