import Velorix.Worker.Starts

/-! Reconciling a shard and carrying out its commands: every start and every new record is
justified by the calls before it. -/
namespace Velorix.Worker

open FallibleProgram Storage List

variable {progress : Progress}

variable {shard : VelorixWorkerShard} {input : WorkerShardReconcileInput} {cs : Made}
  {i : String × UInt32} {ownerId : String} {ownerEpoch : UInt64} {key : PartitionLeaseKey}

theorem lastListed_snoc (cs : Made) (sid : String) (p : UInt32)
    (epochs : List UInt64) : LastListed sid p epochs (cs ++ [⟨.listRecords sid p, .ok epochs⟩]) :=
  ⟨cs, [], rfl, by simp⟩

variable {op : Op}

theorem LastListed.snoc {sid : String} {p : UInt32} {epochs : List UInt64}
    (h : LastListed sid p epochs cs) {reply : Reply op}
    (hop : ¬ op.IsListing) : LastListed sid p epochs (cs ++ [⟨op, reply⟩]) := by
  refine h.append ?_
  intro made hm
  cases mem_singleton.mp hm
  exact hop

theorem does_readEpochRecord (sid : String) (p : UInt32) (ownerEpoch : UInt64) :
    Does shard input (fun read cs' => (Unrefused cs → Unrefused cs') ∧
      (∀ epochs, LastListed sid p epochs cs → LastListed sid p epochs cs') ∧ ∀ r, read = some r →
        ⟨.getRecord ⟨sid, p, ownerEpoch⟩, .ok r⟩ ∈ cs') (readEpochRecord sid p ownerEpoch) cs := by
  refine Tracks.bind (does_failEpochStore fun _ _ => tracks_call trivial ?_)
  intro reply hreply
  have hl (epochs : List UInt64) (h : LastListed sid p epochs cs) : LastListed sid p epochs (cs ++
        [⟨.getRecord ⟨sid, p, ownerEpoch⟩, reply⟩]) := h.snoc id
  have hk (h : Unrefused cs) : Unrefused (cs ++
      [⟨.getRecord ⟨sid, p, ownerEpoch⟩, reply⟩]) := h.snoc id
  match reply with
  | .ok r =>
    refine tracks_pure ⟨hk, hl, ?_⟩
    rintro _ ⟨⟩
    simp
  | .error .notFound => exact tracks_pure ⟨hk, hl, nofun⟩
  | .error .alreadyExists | .error (.notSupported _) | .error (.notImplemented _ _)
  | .error (.other _) => exact tracks_throw

theorem does_hasNewer (sid : String) (p : UInt32) (ownerEpoch : UInt64) :
    Does shard input (fun newer cs' => cs <+: cs' ∧ (Unrefused cs → Unrefused cs') ∧
      (newer = false → ∃ epochs,
        LastListed sid p epochs cs' ∧ ∀ epoch ∈ epochs, epoch ≤ ownerEpoch))
      (hasNewer sid p ownerEpoch) cs := by
  refine Tracks.bind (does_failEpochStore fun _ _ => tracks_call trivial fun reply _ => ?_)
  refine Tracks.bind (does_epochReply ?_)
  rintro epochs rfl
  refine Tracks.bind (Tracks.weaken (tracks_forEach
    (P := fun cs' => cs <+: cs' ∧ (Unrefused cs → Unrefused cs') ∧ LastListed sid p epochs cs')
    (R := fun epoch (r : OwnershipEpochRecord) => r.ownerEpoch = epoch) ?_ epochs
    ⟨prefix_append _ _, fun h => h.snoc id, lastListed_snoc cs sid p epochs⟩) ?_)
  · rintro epoch cs' ⟨hc, hk, hl⟩
    refine tracks_call trivial fun reply hreply => does_epochReply fun r hr => ?_
    refine ⟨⟨hc.trans (prefix_append _ _), fun h => (hk h).snoc id, hl.snoc id⟩, ?_⟩
    exact congrArg EpochRecordKey.ownerEpoch (hreply r hr)
  · rintro rs cs' ⟨⟨hc, hk, hl⟩, hrecs⟩
    refine tracks_pure ⟨hc, hk, ?_⟩
    intro hn
    refine ⟨epochs, hl, ?_⟩
    intro epoch he
    obtain ⟨r, hr, rfl⟩ := hrecs.exists_of_mem_left he
    simpa using any_eq_false.mp hn r hr

/-- A lease whose record is observed is backed. -/
def Observed (slot : String × UInt32) (facts : ObservedControlPlaneFacts) (calls : Made) : Prop :=
  ∀ lease ownerEpoch record, facts.lease = some lease → lease.ownerEpoch = some ownerEpoch →
    facts.epochRecord = some record → Backed slot record.ownerId ownerEpoch calls

variable {grant : PartitionLeaseGrant}

theorem observed_of_record {read : Option OwnershipEpochRecord}
    {worker : Option WorkerFact} (h : ∀ r, read = some r → Backed i r.ownerId grant.ownerEpoch cs) :
    Observed i (factsFromObservations (some grant) read worker) cs := by
  rintro _ _ _ ⟨⟩ ⟨⟩ hr
  obtain ⟨r, hread, rfl⟩ := Option.map_eq_some_iff.mp hr
  exact h r hread

theorem does_observeFacts (key : PartitionLeaseKey) :
    Does shard input (fun facts cs' => Observed (key.streamId, key.partitionId) facts cs' ∧
      facts.worker = input.runningWorker ∧ (Unrefused cs → Unrefused cs'))
      (observeFacts key input) cs := by
  refine Tracks.bind ((does_current key _).weaken fun lease calls₁ hk₁ => ?_)
  cases lease with
  | none => exact tracks_pure ⟨nofun, rfl, hk₁⟩
  | some grant =>
    refine Tracks.bind ((does_hasNewer _ _ _).weaken ?_)
    rintro newer calls₂ ⟨-, hk₂, hnewer⟩
    cases newer with
    | true => exact tracks_pure ⟨observed_of_record nofun, rfl, hk₂ ∘ hk₁⟩
    | false =>
      obtain ⟨epochs, hl, hnewest⟩ := hnewer rfl
      refine Tracks.bind ((does_readEpochRecord _ _ _).weaken ?_)
      rintro read calls₃ ⟨hk₃, hl₃, hread⟩
      refine tracks_pure ⟨observed_of_record fun r hr => ?_, rfl, hk₃ ∘ hk₂ ∘ hk₁⟩
      exact ⟨⟨r, hread r hr, rfl⟩, epochs, hl₃ epochs hl, hnewest⟩

/-- Every start that an output commands is backed, and comes with the stop of any other worker. -/
def Commanded (shard : VelorixWorkerShard) (input : WorkerShardReconcileInput)
    (output : WorkerShardReconcileOutput) (calls : Made) : Prop :=
  ∀ ownerId ownerEpoch, .startWorker ownerId ownerEpoch ∈ output.commands →
    output.commandError = none ∧ Unrefused calls ∧ ownerId = shard.desiredOwnerId ∧
    Backed (shard.streamId, shard.partitionId) ownerId ownerEpoch calls ∧
    ∀ worker, input.runningWorker = some worker → worker ≠ ⟨ownerId, ownerEpoch⟩ →
      .stopWorker worker.ownerId worker.ownerEpoch ∈ output.commands

variable {o : WorkerShardReconcileOutput}

theorem commanded_of_no_start
    (h : ∀ ownerId ownerEpoch, .startWorker ownerId ownerEpoch ∉ o.commands) :
    Commanded shard input o cs :=
  fun _ _ hstart => absurd hstart (h _ _)

theorem does_createEpochRecord {r : OwnershipEpochRecord} (h : RecordOf shard r) :
    Does shard input (fun _ cs' => Unrefused cs → Unrefused cs') (createEpochRecord r) cs := by
  refine Tracks.bind (does_failEpochStore fun _ _ => tracks_call h fun reply _ => ?_)
  match reply with
  | .ok () =>
    refine tracks_pure fun h => h.snoc ?_
    rintro ⟨error, he, -⟩
    cases he
  | .error .alreadyExists =>
    refine tracks_call trivial fun reply _ => Tracks.bind (does_epochReply fun existing _ => ?_)
    split_ifs
    · refine tracks_pure fun h => (h.snoc ?_).snoc id
      rintro ⟨error, he, hother⟩
      cases he
      exact hother rfl
    · exact tracks_throw
  | .error .notFound | .error (.notSupported _) | .error (.notImplemented _ _)
  | .error (.other _) => exact tracks_throw

theorem key_of_worker_shard (h : partitionLeaseKeyFromWorkerShard shard = .ok key) :
    key.streamId = shard.streamId ∧ key.partitionId = shard.partitionId := by
  rw [partitionLeaseKeyFromWorkerShard] at h
  split at h
  · cases h
  · cases h
    exact ⟨rfl, rfl⟩

theorem recordOf_grant (hkey : partitionLeaseKeyFromWorkerShard shard = .ok key)
    (hg : grant.key = key)
    (ho : grant.ownerId = shard.desiredOwnerId) (createdAt : String)
    (previousCheckpointVersion : Option UInt64) :
    RecordOf shard (ownershipEpochRecordFromGrant grant (partitionLeaseIdentity key) createdAt
      previousCheckpointVersion) := by
  obtain ⟨hstream, hp⟩ := key_of_worker_shard hkey
  subst hg
  exact ⟨hstream, hp, ho, grant.key, hkey, rfl⟩

variable {desiredOwner : String}

theorem backed_of_plan {facts : ObservedControlPlaneFacts}
    (hf : Observed i facts cs)
    (h : .startWorker ownerId ownerEpoch ∈ (planReconcile desiredOwner facts).actions) :
    ownerId = desiredOwner ∧ Backed i ownerId ownerEpoch cs := by
  rcases planReconcile_cases desiredOwner facts with
    ⟨-, ha⟩ | ha | ⟨epoch, hl, hr, ha⟩
  · simp [ha, startWorker_notMem_stops] at h
  · simp [ha, startWorker_notMem_stops] at h
  · rw [ha] at h
    obtain ⟨rfl, rfl, -⟩ := mem_planWorker h
    exact ⟨rfl, hf _ _ _ hl rfl hr⟩

theorem does_renewLeaseAction
    (hstarts : ∀ ownerId ownerEpoch, .startWorker ownerId ownerEpoch ∉ progress.output.commands) :
    Does shard input (fun next cs' => Commanded shard input next.output cs')
      (renewLeaseAction key input ownerId progress) cs := by
  refine Tracks.bind (tracks_attempt (Program.Tracks.weaken (does_acquireOrRenew _) ?_))
  rintro (error | grant) calls₁ -
  · simp only
    split
    · exact tracks_pure (commanded_of_no_start hstarts)
    · exact tracks_pure (commanded_of_no_start (by simp [WorkerShardReconcileOutput.push, hstarts]))
  · exact tracks_pure (commanded_of_no_start hstarts)

theorem does_applyPlanActions_cons {action : ReconcileAction} {rest : List ReconcileAction}
    {post : WorkerShardReconcileOutput → Made → Prop}
    (h : Does shard input (fun next cs' => (next.goesOn = false → post next.output cs') ∧
        (next.goesOn = true →
          Does shard input post (applyPlanActions desiredOwner key input rest next) cs'))
      (applyPlanAction desiredOwner key input progress action) cs) :
    Does shard input post (applyPlanActions desiredOwner key input (action :: rest) progress)
      cs := by
  refine Tracks.bind (h.weaken ?_)
  rintro next cs' ⟨hs, hg⟩
  split_ifs with hn
  · exact hg hn
  · exact tracks_pure (hs (Bool.not_eq_true _ ▸ hn))

section Acquire

variable (hkey : partitionLeaseKeyFromWorkerShard shard = .ok key) (hc : Unrefused cs)
  (hn : progress.output.commandError = none)
  (hstarts : ∀ ownerId ownerEpoch, .startWorker ownerId ownerEpoch ∉ progress.output.commands)
  (hs : ∀ worker, input.runningWorker = some worker →
    .stopWorker worker.ownerId worker.ownerEpoch ∈ progress.output.commands)
include hkey hc hn hstarts hs

/-- Acquiring the lease and recording its epoch leads to a start that is backed. -/
theorem does_acquireLeaseAction :
    Does shard input (fun next cs' => Commanded shard input next.output cs')
      (acquireLeaseAction shard.desiredOwnerId key input shard.desiredOwnerId progress) cs := by
  obtain ⟨hstream, hp⟩ := key_of_worker_shard hkey
  refine Tracks.bind (tracks_attempt (Program.Tracks.weaken (does_acquireOrRenew _) ?_))
  rintro (error | grant) calls₁ hg
  · exact tracks_pure (commanded_of_no_start (by simp [WorkerShardReconcileOutput.push, hstarts]))
  obtain ⟨hgk, ho, hk₁⟩ := hg grant rfl
  refine Tracks.bind (tracks_attempt (Program.Tracks.weaken (does_createEpochRecord
    (recordOf_grant hkey hgk ho _ _)) ?_))
  rintro (error | _) calls₂ hk₂
  · exact tracks_pure (commanded_of_no_start (by simp [WorkerShardReconcileOutput.push, hstarts]))
  refine Tracks.bind ((does_readEpochRecord _ _ _).weaken ?_)
  rintro readBack calls₃ ⟨hk₃, -, hread⟩
  refine Tracks.bind ((does_hasNewer _ _ _).weaken ?_)
  rintro newer calls₄ ⟨hlonger, hk₄, hnewer⟩
  have hobs : Observed (key.streamId, key.partitionId)
      (factsFromObservations (some grant) (if newer then none else readBack)
        progress.workerAfterStops) calls₄ := by
    refine observed_of_record fun r hr => ?_
    cases newer with
    | true => simp at hr
    | false =>
      obtain ⟨epochs, hl, hnewest⟩ := hnewer rfl
      exact ⟨⟨r, hlonger.subset (hread r hr), rfl⟩, epochs, hl, hnewest⟩
  refine tracks_pure ?_
  intro ownerId ownerEpoch hstart
  simp only [appendNonAcquireCommands, WorkerShardReconcileOutput.push, append_assoc,
    mem_append, hstarts, mem_cons, reduceCtorEq, not_mem_nil, or_false, false_or,
    mem_start_commands] at hstart
  obtain ⟨ho', hb⟩ := backed_of_plan hobs hstart
  refine ⟨hn, hk₄ (hk₃ (hk₂ _ rfl (hk₁ hc))), ho', ?_, ?_⟩
  · rwa [hstream, hp] at hb
  · intro worker hw _
    simp only [appendNonAcquireCommands, WorkerShardReconcileOutput.push, append_assoc,
      mem_append]
    exact .inl (hs worker hw)

theorem does_acquire_last :
    Does shard input (Commanded shard input)
      (applyPlanActions shard.desiredOwnerId key input [.acquireLease shard.desiredOwnerId]
        progress) cs := by
  refine does_applyPlanActions_cons ((does_acquireLeaseAction hkey hc hn hstarts hs).weaken ?_)
  exact fun next cs' h => ⟨fun _ => h, fun _ => tracks_pure h⟩

end Acquire

/-- Reconciling commands only starts that are backed. -/
theorem does_reconcileWorkerShard (shard : VelorixWorkerShard) (input : WorkerShardReconcileInput)
    {cs : Made} (hc : Unrefused cs) :
    Does shard input (Commanded shard input) (reconcileWorkerShard shard input) cs := by
  refine Tracks.bind (tracks_fromExcept fun key hkey => ?_)
  refine Tracks.bind ((does_observeFacts key).weaken ?_)
  rintro facts calls₁ ⟨hobs, hw, hk⟩
  have hc₁ := hk hc
  rw [(key_of_worker_shard hkey).1, (key_of_worker_shard hkey).2] at hobs
  rcases planReconcile_cases shard.desiredOwnerId facts with
    ⟨-, ha⟩ | ha | ⟨ownerEpoch, hl, hr, ha⟩
  · dsimp only
    rw [ha, hw]
    cases hrunning : input.runningWorker with
    | none =>
      refine does_acquire_last hkey hc₁ rfl (fun _ _ => not_mem_nil) ?_
      intro worker h
      rw [hrunning] at h
      cases h
    | some worker =>
      refine does_applyPlanActions_cons (tracks_pure ⟨by simp, fun _ => ?_⟩)
      refine does_acquire_last hkey hc₁ rfl
        (fun _ _ => by simp [WorkerShardReconcileOutput.push]) ?_
      intro worker' h
      cases hrunning.symm.trans h
      simp [WorkerShardReconcileOutput.push]
  · dsimp only
    rw [ha]
    cases facts.worker with
    | none => exact tracks_pure (commanded_of_no_start fun _ _ => not_mem_nil)
    | some worker =>
      refine does_applyPlanActions_cons (tracks_pure ⟨by simp, fun _ => tracks_pure ?_⟩)
      exact commanded_of_no_start (by simp [WorkerShardReconcileOutput.push])
  · have hb := hobs _ _ _ hl rfl hr
    dsimp only
    rw [ha, hw]
    cases hrunning : input.runningWorker with
    | none =>
      refine does_applyPlanActions_cons (tracks_pure ⟨by simp, fun _ => tracks_pure ?_⟩)
      intro ownerId ownerEpoch hstart
      simp only [WorkerShardReconcileOutput.push, nil_append, mem_singleton,
        WorkerShardCommand.startWorker.injEq] at hstart
      obtain ⟨rfl, rfl⟩ := hstart
      refine ⟨rfl, hc₁, rfl, hb, ?_⟩
      intro worker h
      rw [hrunning] at h
      cases h
    | some worker =>
      rw [planWorker]
      split_ifs with hs
      · refine does_applyPlanActions_cons ((does_renewLeaseAction
          fun _ _ => not_mem_nil).weaken ?_)
        exact fun next cs' h => ⟨fun _ => h, fun _ => tracks_pure h⟩
      · refine does_applyPlanActions_cons (tracks_pure ⟨by simp, fun _ => ?_⟩)
        refine does_applyPlanActions_cons (tracks_pure ⟨by simp, fun _ => tracks_pure ?_⟩)
        intro ownerId ownerEpoch hstart
        simp only [WorkerShardReconcileOutput.push, nil_append, mem_append,
          mem_singleton, reduceCtorEq, false_or, WorkerShardCommand.startWorker.injEq]
          at hstart
        obtain ⟨rfl, rfl⟩ := hstart
        refine ⟨rfl, hc₁, rfl, hb, ?_⟩
        intro worker' h _
        cases hrunning.symm.trans h
        simp [WorkerShardReconcileOutput.push]

def Extends (calls calls' : Made) : Prop :=
  ∃ more, calls' = calls ++ more ∧ ∀ made ∈ more, made.1.IsCommand

theorem Extends.refl (cs : Made) : Extends cs cs :=
  ⟨[], (append_nil cs).symm, by simp⟩

variable {cs' : Made}

theorem Extends.cons {reply : Reply op}
    (h : Extends (cs ++ [⟨op, reply⟩]) cs') (hop : op.IsCommand) : Extends cs cs' := by
  obtain ⟨more, rfl, hmore⟩ := h
  exact ⟨⟨op, reply⟩ :: more, by simp, forall_mem_cons.mpr ⟨hop, hmore⟩⟩

theorem Extends.subset (h : Extends cs cs') : cs ⊆ cs' := by
  obtain ⟨more, rfl, -⟩ := h
  exact subset_append_left _ _

variable (commands : List WorkerShardCommand)

/-- When no failure is kept, every worker that was to be stopped was. -/
theorem does_executeStops (deferred : Option String) (cs : Made) :
    Does shard input (fun deferred' cs' => Extends cs cs' ∧
      (deferred' = none → deferred = none ∧ ∀ ownerId ownerEpoch,
        .stopWorker ownerId ownerEpoch ∈ commands → ∃ stopped,
          runtimeIdentityFromWorkerShard shard ownerId ownerEpoch = .ok stopped ∧
          ⟨.stopWorker stopped, .ok ()⟩ ∈ cs')) (executeStops shard commands deferred) cs := by
  induction commands generalizing deferred cs with
  | nil => exact tracks_pure ⟨.refl cs, fun h => ⟨h, by simp⟩⟩
  | cons command rest ih =>
    cases command with
    | stopWorker ownerId ownerEpoch =>
      refine Tracks.bind (tracks_fromExcept fun identity hi => ?_)
      refine tracks_call trivial fun reply _ => ?_
      match reply with
      | .ok () =>
        refine (ih deferred _).weaken ?_
        rintro deferred' cs' ⟨he, hs⟩
        refine ⟨he.cons trivial, fun hn => ⟨(hs hn).1, ?_⟩⟩
        intro ownerId' ownerEpoch' hmem
        rcases mem_cons.mp hmem with heq | hmem
        · cases heq
          exact ⟨identity, hi, he.subset (by simp)⟩
        · exact (hs hn).2 _ _ hmem
      | .error message =>
        refine (ih _ _).weaken ?_
        rintro deferred' cs' ⟨he, hs⟩
        exact ⟨he.cons trivial, fun hn => nomatch (hs hn).1⟩
    | _ =>
      refine (ih deferred cs).weaken ?_
      rintro deferred' cs' ⟨he, hs⟩
      refine ⟨he, fun hn => ⟨(hs hn).1, ?_⟩⟩
      intro ownerId' ownerEpoch' hmem
      exact (hs hn).2 _ _ (by simpa using hmem)

theorem does_executeStarts (h : ∀ ownerId ownerEpoch, .startWorker ownerId ownerEpoch ∈ commands →
      ∀ identity, runtimeIdentityFromWorkerShard shard ownerId ownerEpoch = .ok identity →
        StartJustified shard input cs identity) :
    Does shard input (fun _ _ => True) (executeStarts shard commands) cs := by
  induction commands generalizing cs with
  | nil => exact tracks_pure trivial
  | cons command rest ih =>
    cases command with
    | startWorker ownerId ownerEpoch =>
      refine Tracks.bind (tracks_fromExcept fun identity hi => ?_)
      refine tracks_call (h ownerId ownerEpoch (by simp) identity hi) fun reply _ => ?_
      match reply with
      | .ok () =>
        refine ih fun ownerId' ownerEpoch' hmem identity' hi' => ?_
        refine (h ownerId' ownerEpoch' (by simp [hmem]) identity' hi').append ?_
        intro made hm
        cases mem_singleton.mp hm
        exact trivial
      | .error message => exact tracks_throw
    | _ => exact ih fun ownerId ownerEpoch hmem => h ownerId ownerEpoch (by simp [hmem])

theorem runtimeIdentity_fields {identity : WorkerShardRuntimeIdentity}
    (h : runtimeIdentityFromWorkerShard shard ownerId ownerEpoch = .ok identity) :
    identity.ownerId = ownerId ∧ identity.ownerEpoch = ownerEpoch ∧
      identity.streamId = shard.streamId ∧ identity.partitionId = shard.partitionId := by
  obtain ⟨key, hkey, hi⟩ := Result.bind_eq_ok.mp h
  cases hi
  exact ⟨rfl, rfl, key_of_worker_shard hkey⟩

/-- The commands of an output that was reconciled start only workers that are justified. -/
theorem does_executeCommands
    (expectedAuthority : Option ObjectStoreAuthorityRef) (hcommanded : Commanded shard input o cs)
    (hp : (reconcileWorkerShard shard input).run.Path cs (.done (.ok o))) :
    Does shard input (fun _ _ => True)
      (executeScopedWorkerShardCommandsWithAuthority shard o expectedAuthority) cs := by
  refine Tracks.bind (tracks_fromExcept fun _ _ => ?_)
  refine Tracks.bind ((does_executeStops o.commands none cs).weaken ?_)
  rintro deferred calls₁ ⟨⟨more, rfl, hmore⟩, hs⟩
  cases he : o.commandError with
  | some error => exact tracks_throw
  | none =>
    cases deferred with
    | some message => exact tracks_throw
    | none =>
      refine does_executeStarts o.commands ?_
      intro ownerId ownerEpoch hstart identity hi
      obtain ⟨-, hc, ho, hb, hother⟩ := hcommanded ownerId ownerEpoch hstart
      obtain ⟨rfl, rfl, -⟩ := runtimeIdentity_fields hi
      refine ⟨hi, ho, hb.append fun made hm => (hmore made hm).not_listing, ?_, ?_, ?_⟩
      · intro worker hw hd
        exact (hs rfl).2 _ _ (hother worker hw hd)
      · exact ⟨cs, more, o, rfl, hp, he⟩
      · intro made hm
        rcases mem_append.mp hm with hmem | hmem
        · exact hc made hmem
        · exact (hmore made hmem).not_refused made.2

def Guard (invocation : Invocation) (calls : Made) (op : Op) : Prop :=
  match invocation.reconciled with
  | some (shard, input) => ShardGuard shard input calls op
  | none => op.Free

/-- What is returned of a shard that was only reconciled. -/
def Returned (invocation : Invocation) (outcome : Outcome) (calls : Made) : Prop :=
  ∀ shard input output, invocation = .reconcile shard input → outcome = .reconciled (.ok output) →
    Commanded shard input output calls

theorem only_executeStops (deferred : Option String) :
    Only Op.Free (executeStops shard commands deferred) := by
  induction commands generalizing deferred with
  | nil => exact only_pure _
  | cons command rest ih =>
    cases command with
    | stopWorker ownerId ownerEpoch =>
      refine Only.bind (only_fromExcept _) fun identity => only_call trivial fun reply => ?_
      match reply with
      | .ok () => exact ih deferred
      | .error message => exact ih _
    | _ => exact ih deferred

theorem only_deleted
    (h : deletedWorkerShardOutput shard input = some o)
    (expectedAuthority : Option ObjectStoreAuthorityRef) :
    Only Op.Free (executeScopedWorkerShardCommandsWithAuthority shard o expectedAuthority) := by
  have hc : ∃ worker : WorkerFact, o.commands = [.stopWorker worker.ownerId worker.ownerEpoch] := by
    rw [deletedWorkerShardOutput] at h
    split at h
    · rename_i worker _ _ _
      split_ifs at h
      cases h
      exact ⟨worker, rfl⟩
    · cases h
  obtain ⟨worker, hc⟩ := hc
  refine Only.bind (only_fromExcept _) fun _ => Only.bind (only_executeStops _ _) fun deferred => ?_
  cases o.commandError with
  | some error => exact only_throw _
  | none =>
    cases deferred with
    | some message => exact only_throw _
    | none =>
      simp only [hc]
      exact only_pure _

theorem tracks_body (invocation : Invocation) :
    invocation.body.Tracks Op.Credible (Guard invocation) (Returned invocation) [] := by
  have hn : Unrefused [] := by simp [Unrefused]
  cases invocation with
  | reconcile shard input =>
    refine Program.Tracks.bind (Program.Tracks.weaken (does_reconcileWorkerShard shard input hn) ?_)
    intro result cs hr shard' input' o hi ho
    cases hi
    cases ho
    exact hr o rfl
  | handle e input expectedAuthority =>
    refine Program.Tracks.bind (Program.Tracks.weaken (?_ : Tracks Op.Credible
      (Guard (.handle e input expectedAuthority)) (fun _ _ => True)
      (handleWorkerShardEventWithScopedCommandExecutorAndAuthority e input expectedAuthority)
      []) fun _ _ _ _ _ _ hi => nomatch hi)
    cases e with
    | applied shard =>
      refine Tracks.bind (tracks_fromExcept fun _ _ => ?_)
      refine Tracks.bind (Program.Tracks.weaken
        (Program.Tracks.path (does_reconcileWorkerShard shard input hn)) ?_)
      rintro result cs ⟨hr, cs', rfl, hp⟩ o rfl
      refine Tracks.bind (Tracks.weaken (does_executeCommands expectedAuthority
        (hr o rfl) hp) fun _ _ _ => tracks_pure trivial)
    | deleted shard =>
      refine (tracks_of_only (?_ : Only Op.Free _) fun _ _ => id).weaken fun _ _ _ => trivial
      refine Only.bind (only_fromExcept _) fun _ => ?_
      split
      · exact only_pure _
      · rename_i o hout
        exact Only.bind (only_deleted hout expectedAuthority) fun _ => only_pure _

end Velorix.Worker
