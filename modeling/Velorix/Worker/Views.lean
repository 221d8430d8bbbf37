import Velorix.Worker.StartRuns

/-! Leases are counted per view, records only per stream and partition: under whose lease a worker
starts. -/
namespace Velorix.Worker

open Pool Storage

variable {permitted : Invocation → Prop} {start : World} {pool next : WorkerPool}
  {log : List WorkerEvent} {e : WorkerEvent} {identity : WorkerShardRuntimeIdentity}
  {shard : VelorixWorkerShard} {input : WorkerShardReconcileInput}

/-- Shards of one stream, partition and owner are of one view. -/
def OneView (permitted : Invocation → Prop) : Prop :=
  ∀ {a b shard shard' input input'}, permitted a → permitted b →
    a.reconciled = some (shard, input) → b.reconciled = some (shard', input') →
    shard.streamId = shard'.streamId → shard.partitionId = shard'.partitionId →
    shard.desiredOwnerId = shard'.desiredOwnerId →
    shard.nameSpace = shard'.nameSpace ∧ shard.viewId = shard'.viewId

/-- The record was made for a shard that was reconciled. -/
def Provenance (permitted : Invocation → Prop) (record : OwnershipEpochRecord) : Prop :=
  ∃ invocation shard input, permitted invocation ∧ invocation.reconciled = some (shard, input) ∧
    RecordOf shard record

variable {r : OwnershipEpochRecord}

theorem provenance_of_called
    (ht : Trace (Step (workerSystem permitted)) (idle start) log pool) {id : ℕ}
    {reply : Reply (.putRecord r)}
    (hs : Step (workerSystem permitted) pool (.called id (.putRecord r) reply) next) :
    Provenance permitted r := by
  obtain ⟨task, htask, hg⟩ := (tracked_run ht).called hs
  obtain ⟨_, hp⟩ := exists_accepts ht id task htask
  rw [Guard] at hg
  split at hg
  · rename_i shard input hr
    exact ⟨_, shard, input, hp, hr, hg⟩
  · exact hg.elim

theorem provenance_of_lookup (hstart : start.epochs = .empty)
    (ht : Trace (Step (workerSystem permitted)) (idle start) log pool) {key : EpochRecordKey}
    (h : pool.shared.epochs.lookup key = some r) :
    Provenance permitted r := by
  induction ht generalizing key r with
  | nil =>
    rw [idle, hstart] at h
    simp at h
  | snoc ht hs ih =>
    cases hs with
    | called hcaller hc =>
      rcases hc.epochs with heq | ⟨created, rfl, -, heq⟩
      · rw [shared_setTask, heq] at h
        exact ih h
      · rw [shared_setTask, heq, KeyedMap.lookup_insert] at h
        split_ifs at h
        · cases h
          exact provenance_of_called ht (.called hcaller hc)
        · exact ih h
    | moved hm => exact hm.elim
    | began _ _ => exact ih h
    | returned _ => exact ih h
    | crashed => exact ih h

structure OwnLease (permitted : Invocation → Prop) (log : List WorkerEvent) (pool : WorkerPool) :
    Prop where
  emitted : ∀ {id shard input output next ownerId ownerEpoch},
    Step (workerSystem permitted) pool
      (.returned id (.reconcile shard input) (.reconciled (.ok output))) next →
    .startWorker ownerId ownerEpoch ∈ output.commands → ∃ key record,
      partitionLeaseKeyFromWorkerShard shard = .ok key ∧
      pool.shared.epochs.lookup ⟨shard.streamId, shard.partitionId, ownerEpoch⟩ = some record ∧
      record.ownerId = ownerId ∧ record.leaseIdentity = partitionLeaseIdentity key
  started : ∀ {id identity reply}, .called id (.startWorker identity) reply ∈ log → ∃ record,
    pool.shared.epochs.lookup identity.recordKey = some record ∧
    record.leaseIdentity = identity.leaseIdentity
  oneView : ∀ {id identity reply id' identity' reply'},
    .called id (.startWorker identity) reply ∈ log →
    .called id' (.startWorker identity') reply' ∈ log → identity.recordKey = identity'.recordKey →
    identity.nameSpace = identity'.nameSpace ∧ identity.viewId = identity'.viewId

variable {shard' : VelorixWorkerShard}

theorem leaseKey_congr (hs : shard.streamId = shard'.streamId)
    (hpart : shard.partitionId = shard'.partitionId)
    (hview : shard.nameSpace = shard'.nameSpace ∧ shard.viewId = shard'.viewId) :
    partitionLeaseKeyFromWorkerShard shard = partitionLeaseKeyFromWorkerShard shard' := by
  simp only [partitionLeaseKeyFromWorkerShard, hview, hs, hpart]

variable {oe : UInt64}

theorem leaseIdentity_of_record (hview : OneView permitted) {invocation : Invocation}
    (hp : permitted invocation) (hr : invocation.reconciled = some (shard, input))
    (hrec : Provenance permitted r)
    (hat : r.objectKey = ⟨shard.streamId, shard.partitionId, oe⟩)
    (ho : r.ownerId = shard.desiredOwnerId) :
    ∃ key, partitionLeaseKeyFromWorkerShard shard = .ok key ∧
      r.leaseIdentity = partitionLeaseIdentity key := by
  obtain ⟨invocation', shard', input', hp', hr', hof⟩ := hrec
  have hs := hof.streamId.symm.trans (congrArg EpochRecordKey.streamId hat)
  have hpart := hof.partitionId.symm.trans (congrArg EpochRecordKey.partitionId hat)
  have hsame := hview hp' hp hr' hr hs hpart
    (hof.ownerId.symm.trans ho)
  rw [← leaseKey_congr hs hpart hsame]
  exact hof.leaseIdentity

theorem runtimeIdentity_key {oid : String}
    (h : runtimeIdentityFromWorkerShard shard oid oe = .ok identity) :
    ∃ key, partitionLeaseKeyFromWorkerShard shard = .ok key ∧
      identity.leaseIdentity = partitionLeaseIdentity key ∧
      identity.nameSpace = key.nameSpace ∧ identity.viewId = key.viewId := by
  obtain ⟨key, hk, hi⟩ := Result.bind_eq_ok.mp h
  cases hi
  exact ⟨key, hk, rfl, rfl, rfl⟩

theorem leaseIdentity_of_started (hview : OneView permitted) (hstart : start.epochs = .empty)
    (ht : Trace (Step (workerSystem permitted)) (idle start) log pool)
    (h : Started permitted pool.shared identity shard) : ∃ r,
      pool.shared.epochs.lookup identity.recordKey = some r ∧
      r.leaseIdentity = identity.leaseIdentity := by
  obtain ⟨⟨invocation, input, hp, hr⟩, hscope, ho, r, hrec, hsame⟩ := h
  obtain ⟨-, -, hs, hpart⟩ := runtimeIdentity_fields hscope
  obtain ⟨key, hk, hl, -, -⟩ := runtimeIdentity_key hscope
  have hat : r.objectKey = ⟨shard.streamId, shard.partitionId, identity.ownerEpoch⟩ := by
    rw [KeyedMap.key_of_lookup hrec, WorkerShardRuntimeIdentity.recordKey, hs, hpart]
  obtain ⟨key', hk', hl'⟩ := leaseIdentity_of_record hview hp hr
    (provenance_of_lookup hstart ht hrec) hat (hsame.trans ho)
  cases hk.symm.trans hk'
  exact ⟨r, hrec, hl'.trans hl.symm⟩

theorem view_of_started (hview : OneView permitted) {w : World}
    {identity' : WorkerShardRuntimeIdentity}
    (h : Started permitted w identity shard) (h' : Started permitted w identity' shard')
    (hk : identity.recordKey = identity'.recordKey) :
    identity.nameSpace = identity'.nameSpace ∧ identity.viewId = identity'.viewId := by
  obtain ⟨⟨invocation, input, hp, hr⟩, hscope, ho, r, hrec, hsame⟩ := h
  obtain ⟨⟨invocation', input', hp', hr'⟩, hscope', ho', r', hrec', hsame'⟩ := h'
  rw [hk, hrec'] at hrec
  cases hrec
  obtain ⟨-, -, hs, hpart⟩ := runtimeIdentity_fields hscope
  obtain ⟨-, -, hs', hpart'⟩ := runtimeIdentity_fields hscope'
  have hstreams : shard.streamId = shard'.streamId :=
    hs.symm.trans ((congrArg EpochRecordKey.streamId hk).trans hs')
  have hparts : shard.partitionId = shard'.partitionId :=
    hpart.symm.trans ((congrArg EpochRecordKey.partitionId hk).trans hpart')
  have howners : shard.desiredOwnerId = shard'.desiredOwnerId :=
    ho.symm.trans (hsame.symm.trans (hsame'.trans ho'))
  have hsv := hview hp hp' hr hr' hstreams hparts howners
  obtain ⟨key, hshard, -, hns, hv⟩ := runtimeIdentity_key hscope
  obtain ⟨key', hshard', -, hns', hv'⟩ := runtimeIdentity_key hscope'
  rw [leaseKey_congr hstreams hparts hsv, hshard'] at hshard
  cases hshard
  exact ⟨hns.trans hns'.symm, hv.trans hv'.symm⟩

/-- As long as the shards of a stream, partition and owner are of one view, workers start under
their own leases. -/
theorem starts_under_own_lease (hview : OneView permitted) (hstart : start.epochs = .empty)
    (htrace : Trace (Step (workerSystem permitted)) (idle start) log pool) :
    OwnLease permitted log pool := by
  refine ⟨?_, ?_, ?_⟩
  · intro id shard input output next ownerId ownerEpoch hstep hmem
    obtain ⟨-, -, howner, ⟨⟨record, hread, hsame⟩, -⟩, -⟩ :=
      (tracked_run htrace).returned hstep shard input output rfl rfl ownerId ownerEpoch hmem
    have hrecord := lookup_of_read htrace hread
    cases hstep with
    | returned htask =>
      obtain ⟨_, hpermitted⟩ := exists_accepts htrace id _ htask
      obtain ⟨key, hkey, hlease⟩ := leaseIdentity_of_record hview hpermitted rfl
        (provenance_of_lookup hstart htrace hrecord) (KeyedMap.key_of_lookup hrecord)
        (hsame.trans howner)
      exact ⟨key, record, hkey, hrecord, hsame, hlease⟩
  · intro id identity reply hmem
    obtain ⟨shard, hstarted⟩ := started_of_mem htrace hmem
    exact leaseIdentity_of_started hview hstart htrace hstarted
  · intro id identity reply id' identity' reply' hmem hmem' hkey
    obtain ⟨shard, hstarted⟩ := started_of_mem htrace hmem
    obtain ⟨shard', hstarted'⟩ := started_of_mem htrace hmem'
    exact view_of_started hview hstarted hstarted' hkey

/-- A shard that is given to an owner of its own. -/
def ownedShard (viewId ownerId : String) : VelorixWorkerShard :=
  { plainShard viewId with desiredOwnerId := ownerId }

/-- The owners of the first view and those of the second are different. -/
def ownersApart : List VelorixWorkerShard :=
  [ownedShard "a" "w", ownedShard "b" "x", ownedShard "b" "y"]

def Apart (invocation : Invocation) : Prop :=
  ∃ shard ∈ ownersApart, invocation.reconciled.map Prod.fst = some shard

instance : DecidablePred Apart := fun _ => inferInstanceAs (Decidable (∃ shard ∈ ownersApart, _))

theorem oneView_apart : OneView Apart := by
  rintro a b shard shard' input input' ⟨first, hfirst, ha⟩ ⟨second, hsecond, hb⟩ hshard hshard'
    _ _ howner
  simp only [hshard, hshard', Option.map_some, Option.some.injEq] at ha hb
  subst ha hb
  have hviews : ∀ shard ∈ ownersApart, ∀ shard' ∈ ownersApart,
      shard.desiredOwnerId = shard'.desiredOwnerId →
        shard.nameSpace = shard'.nameSpace ∧ shard.viewId = shard'.viewId := by decide
  exact hviews _ hfirst _ hsecond howner

/-- The shard of an event that was handled, and the commands that were carried out. -/
def carriedOut (pool : WorkerPool) (id : ℕ) :
    Option (VelorixWorkerShard × List WorkerShardCommand) :=
  (pool.tasks id).bind fun
    | ⟨.handle (.applied shard) _ _, _, .done (.handled (.ok (some output)))⟩ =>
      some (shard, output.commands)
    | _ => none

/-- Two views of one stream. The first owner of the second view finds a record of the first view,
the next one starts at a higher epoch. -/
def takenOver : List (Command Invocation Empty) :=
  [.start 0 (.handle (.applied (ownedShard "a" "w")) (plainInput 1 none) none), .advance 0 20,
   .start 1 (.handle (.applied (ownedShard "b" "x")) (plainInput 2 none) none), .advance 1 20,
   .start 2 (.handle (.applied (ownedShard "b" "y")) (plainInput 70000 none) none), .advance 2 20]

theorem takenOver_starts :
    ((workerDriver Apart).follow takenOver (idle {})).any (fun result =>
      carriedOut result.2 0 = some (ownedShard "a" "w",
        [.acquireLease "w", .persistEpochRecord "w" 1, .startWorker "w" 1]) ∧
      carriedOut result.2 2 = some (ownedShard "b" "y",
        [.acquireLease "y", .persistEpochRecord "y" 2, .startWorker "y" 2])) = true := by
  decide +kernel

theorem takenOver_own_lease : ∃ log pool,
    Trace (Step (workerSystem Apart)) (idle {}) log pool ∧
    carriedOut pool 0 = some (ownedShard "a" "w",
      [.acquireLease "w", .persistEpochRecord "w" 1, .startWorker "w" 1]) ∧
    carriedOut pool 2 = some (ownedShard "b" "y",
      [.acquireLease "y", .persistEpochRecord "y" 2, .startWorker "y" 2]) ∧
    OwnLease Apart log pool := by
  obtain ⟨⟨outs, pool⟩, hfollow, hresult⟩ := (Option.any_eq_true _ _).mp takenOver_starts
  obtain ⟨hfirst, hsecond⟩ := of_decide_eq_true hresult
  obtain ⟨log, -, htrace⟩ := Driver.trace_of_follow hfollow
  exact ⟨log, pool, htrace, hfirst, hsecond, starts_under_own_lease oneView_apart rfl htrace⟩

/-- Two views of one stream in turn. The second finds the record of the first. -/
def sharedStream : List (Command Invocation Empty) :=
  [.start 0 (.handle (.applied (plainShard "a")) (plainInput 1 none) none), .advance 0 20,
   .start 1 (.handle (.applied (plainShard "b")) (plainInput 2 none) none), .advance 1 20,
   .start 2 (.handle (.applied (plainShard "b")) (plainInput 3 none) none), .advance 2 20]

theorem sharedStream_starts :
    ((workerDriver fun _ => True).follow sharedStream (idle {})).any (fun result =>
      carriedOut result.2 0 = some (plainShard "a",
        [.acquireLease "w", .persistEpochRecord "w" 1, .startWorker "w" 1]) ∧
      carriedOut result.2 2 = some (plainShard "b", [.startWorker "w" 1]) ∧
      (result.2.shared.epochs.lookup ⟨"s", 0, 1⟩).map (·.leaseIdentity) =
        some (partitionLeaseIdentity ⟨"n", "a", "s", 0⟩) ∧
      partitionLeaseIdentity ⟨"n", "a", "s", 0⟩ ≠ partitionLeaseIdentity ⟨"n", "b", "s", 0⟩) =
      true := by
  decide +kernel

/-- A worker of the second view starts at an epoch of the lease of the first, whose worker was
started at the same epoch. -/
theorem sharedStream_foreign_lease : ∃ log pool,
    Trace (Step (workerSystem fun _ => True)) (idle {}) log pool ∧
    carriedOut pool 0 = some (plainShard "a",
      [.acquireLease "w", .persistEpochRecord "w" 1, .startWorker "w" 1]) ∧
    carriedOut pool 2 = some (plainShard "b", [.startWorker "w" 1]) ∧
    (pool.shared.epochs.lookup ⟨"s", 0, 1⟩).map (·.leaseIdentity) =
      some (partitionLeaseIdentity ⟨"n", "a", "s", 0⟩) ∧
    partitionLeaseIdentity ⟨"n", "a", "s", 0⟩ ≠ partitionLeaseIdentity ⟨"n", "b", "s", 0⟩ := by
  obtain ⟨⟨outs, pool⟩, hfollow, hresult⟩ := (Option.any_eq_true _ _).mp sharedStream_starts
  obtain ⟨log, -, htrace⟩ := Driver.trace_of_follow hfollow
  exact ⟨log, pool, htrace, of_decide_eq_true hresult⟩

end Velorix.Worker
