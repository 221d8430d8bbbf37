import Velorix.Control.Retries

/-! The results about runs of publishers: what every interleaving guarantees, and which retries
succeed. -/
namespace Velorix.Control

open Meta Storage

section Runs
variable {external : External} {hash : Hash} {capability : RelationIngestCapability}
  {log : List (PoolEvent Invocation Op Reply Outcome Move)} {pool : Publishers}

theorem worldInv_run
    (ht : Trace (PublishersStep external hash) (Pool.idle { capability }) log pool) :
    WorldInv external hash pool.shared :=
  (Pool.Sound.run (publishers_respect external hash)
    (Pool.sound_idle (worldInv_start external hash capability)) ht).1.inv

/-- A publish begins, its calls are answered while the publisher keeps its authority, and it
returns. Calls of other publishers may come in between. -/
def RetryReturns (external : External) (hash : Hash) (task id : ℕ)
    (config : RelationIngestPublisherConfig) (token : AuthorityToken)
    (startOffset endOffset : UInt64) (payload : Bytes) (pool : Publishers)
    (result : Fallible PublishedRelationIngest) : Prop :=
  ∃ begun log last next,
    PublishersStep external hash pool
      (.began task ⟨id, config, .publish startOffset endOffset payload⟩) begun ∧
    Trace (Pool.Attended (publisherSystem external hash)
      (retrySetting external hash id config token) task) begun log last ∧
    PublishersStep external hash last
      (.returned task ⟨id, config, .publish startOffset endOffset payload⟩ (.published result)) next

section Retry
variable {task id : ℕ} {config : RelationIngestPublisherConfig} {token : AuthorityToken}
  {startOffset endOffset : UInt64} {payload : Bytes} {first : Prepared}

theorem body_retry (hi : RetryInv external hash id config token pool.shared)
    (hr : RetryOf hash config startOffset endOffset payload first pool.shared) :
    (retrySetting external hash id config token).Safe
      (fun outcome _ => ∃ result, outcome = .published result ∧ RetryResult first token result)
      (Invocation.body hash ⟨id, config, .publish startOffset endOffset payload⟩) pool.shared :=
  Setting.Safe.bind hi ((publish_retry hr).weaken
    fun result _ _ _ hres _ _ _ => ⟨result, rfl, hres⟩)

theorem RetryReturns.result {result : Fallible PublishedRelationIngest}
    (h : RetryReturns external hash task id config token startOffset endOffset payload pool result)
    (hi : RetryInv external hash id config token pool.shared)
    (hr : RetryOf hash config startOffset endOffset payload first pool.shared) :
    RetryResult first token result := by
  obtain ⟨begun, log, last, next, hb, ht, hreturned⟩ := h
  obtain ⟨hs, htask⟩ := hb.began_task
  rw [← hs] at hi hr
  obtain ⟨hlast, rest, hrest, hsafe⟩ :=
    Pool.safe_of_attended hi htask (body_retry hi hr) ht
  cases hreturned with
  | returned hd =>
    cases hrest.symm.trans hd
    obtain ⟨result', ho, hres⟩ := hsafe _ (WorldGrows.refl _) hlast
    cases ho
    exact hres

theorem exists_retryReturns (hidle : pool.tasks task = none)
    (hi : RetryInv external hash id config token pool.shared)
    (hr : RetryOf hash config startOffset endOffset payload first pool.shared) :
    ∃ result, RetryReturns external hash task id config token startOffset endOffset payload pool
      result := by
  obtain ⟨publisher, hl, hc, -⟩ := hi.holding.publisher
  obtain ⟨begun, hb⟩ : ∃ begun, PublishersStep external hash pool
      (.began task ⟨id, config, .publish startOffset endOffset payload⟩) begun :=
    ⟨_, .began hidle ⟨publisher, hl, hc⟩⟩
  obtain ⟨hs, htask⟩ := hb.began_task
  rw [← hs] at hi hr
  have hbody := body_retry hi hr
  have hsys (w : World) (op : Op) :
      (publisherSystem external hash).calls w op (w.answer op).1 (w.answer op).2 :=
    .delivered w op
  have hsetting (w : World) (op : Op) : (retrySetting external hash id config token).calls
      w op (w.answer op).1 (w.answer op).2 := ⟨rfl, rfl⟩
  obtain ⟨log, last, out, ht, hd⟩ :=
    Pool.exists_attended_end World.answer hsys hsetting hi htask hbody
  obtain ⟨hlast, rest, hrest, hsafe⟩ := Pool.safe_of_attended hi htask hbody ht
  cases hrest.symm.trans hd
  obtain ⟨result, rfl, -⟩ := hsafe _ (WorldGrows.refl _) hlast
  exact ⟨result, _, log, last, _, hb, ht, .returned hd⟩

def authorityAt (epoch : UInt64) : AuthorityToken := ⟨orders.authorityKey, "o", epoch, 100⟩

/-- The publish of the first ten offsets under the first authority. -/
def firstPublish : Prepared where
  reservation :=
    { streamId := "s"
      partitionId := 0
      startOffsetInclusive := 0
      endOffsetExclusive := 10
      batchKey := "v1/ingest/s/p=0000000000/00000000000000000000-00000000000000000010.batch"
      payloadDigest := "sha256:0000000000000000000000000000000000000000000000000000000000000000"
      relationId := "r"
      relationVersion := "1"
      schemaFingerprint := "f"
      writerEpoch := 1 }
  authority := authorityAt 1
  requestId :=
    "relation-ingest-v1-0000000000000000000000000000000000000000000000000000000000000280"
  requestDigest := "sha256:0000000000000000000000000000000000000000000000000000000000000280"
  stagingKey := ⟨"v1/ingest-staging/s/p=0000000000/00000000000000000000-00000000000000000010/" ++
    "relation-ingest-v1-0000000000000000000000000000000000000000000000000000000000000280.stage"⟩

theorem prepare_firstPublish :
    prepare lengthHash orders (authorityAt 1) 0 10 [] = .ok firstPublish := by decide +kernel

/-- A publisher is started, and stops after its publish has reserved its range. -/
def interrupted : List (Pool.Command Invocation Move) :=
  [.move (.created 0 orders), .start 0 ⟨0, orders, .start⟩, .advance 0 9, .finish 0,
    .start 0 ⟨0, orders, .publish 0 10 []⟩, .advance 0 3, .crash 0]

/-- Another publisher takes over for the same owner. -/
def restarted : List (Pool.Command Invocation Move) :=
  interrupted ++ [.move (.created 1 orders), .start 1 ⟨1, orders, .startAfterRestart⟩,
    .advance 1 9, .finish 1]

/-- The publisher holds the authority, and the first publish alone asked for a reservation. -/
def awaitsRetry (id : ℕ) (token : AuthorityToken) (pool : Publishers) : Bool :=
  (pool.tasks id).isNone &&
    (pool.shared.publishers id).any (fun publisher => publisher.config = orders &&
      publisher.capabilityValidated && publisher.token = some token) &&
    pool.shared.metadata.relationPartitionAuthorities.lookup orders.authorityKey = some token &&
    pool.shared.metadata.partitionAuthorityNowUnixMs < token.expiresAtUnixMs &&
    (pool.shared.requests.filterMap fun
      | .reserveRelationAuthoritativeIngestRange request result => some (request, result)
      | _ => none) = [(firstPublish.reserveRequest, .ok .reserved)]

def runOf (commands : List (Pool.Command Invocation Move)) :
    Option (List (ℕ × Outcome) × Publishers) :=
  (publisherDriver plainExternal lengthHash).follow commands (Pool.idle { capability := durable })

/-- What holds where a run of a schedule awaits a retry. -/
theorem exists_awaiting {cs : List (Pool.Command Invocation Move)}
    (h : (runOf cs).any (fun run => awaitsRetry id token run.2) = true) :
    ∃ log pool, Trace (PublishersStep plainExternal lengthHash)
        (Pool.idle { capability := durable }) log pool ∧
      RetryOf lengthHash orders 0 10 [] firstPublish pool.shared ∧
      Holding id orders token pool.shared ∧
      lengthHash.CollisionFree (hashedIdentities pool.shared) ∧ pool.tasks id = none := by
  obtain ⟨⟨outs, pool⟩, hrun, ha⟩ := (Option.any_eq_true _ _).mp h
  obtain ⟨log, -, ht⟩ := Pool.Driver.trace_of_follow hrun
  unfold awaitsRetry at ha
  simp only [Bool.and_eq_true, decide_eq_true_eq, Option.isNone_iff_eq_none] at ha
  obtain ⟨⟨⟨⟨hidle, hp⟩, hc⟩, hlive⟩, hreqs⟩ := ha
  obtain ⟨publisher, hl, hh⟩ := (Option.any_eq_true _ _).mp hp
  simp only [Bool.and_eq_true, decide_eq_true_eq] at hh
  have hr : ∀ q result, .reserveRelationAuthoritativeIngestRange q result ∈ pool.shared.requests ↔
        (q, result) = (firstPublish.reserveRequest, .ok .reserved) := by
    intro q result
    rw [← List.mem_singleton, ← hreqs, List.mem_filterMap]
    constructor
    · intro hm
      exact ⟨_, hm, rfl⟩
    · rintro ⟨e, hm, he⟩
      split at he <;> cases he
      exact hm
  refine ⟨log, pool, ht, ⟨rfl, prepare_firstPublish, (hr _ _).mpr rfl⟩,
    ⟨⟨publisher, hl, hh.1.1, hh.1.2, hh.2⟩, hc, hlive⟩, ?_, hidle⟩
  rintro i ⟨q, result, hm, hi⟩ j ⟨q', result', hm', hj⟩ -
  cases (hr q result).mp hm
  cases (hr q' result').mp hm'
  exact Except.ok.inj (hi.symm.trans hj)

theorem interrupted_awaitsRetry :
    (runOf interrupted).any (fun run => awaitsRetry 0 (authorityAt 1) run.2) = true := by
  decide +kernel

theorem restarted_awaitsRetry :
    (runOf restarted).any (fun run => awaitsRetry 1 (authorityAt 2) run.2) = true := by
  decide +kernel

/-- In every run of publishers, a retry of a publish that reserved its range returns, and it
succeeds exactly under the epoch that the range was reserved in. -/
theorem retry_succeeds_iff
    (htrace : Trace (PublishersStep external hash) (Pool.idle { capability }) log pool)
    (hretry : RetryOf hash config startOffset endOffset payload first pool.shared)
    (hholding : Holding id config token pool.shared)
    (hfree : hash.CollisionFree (hashedIdentities pool.shared)) (hidle : pool.tasks task = none) :
    (∃ result, RetryReturns external hash task id config token startOffset endOffset payload pool
      result) ∧
    ∀ result, RetryReturns external hash task id config token startOffset endOffset payload pool
      result → (result.isOk = true ↔ token.ownerEpoch = first.reservation.writerEpoch) := by
  have hinv : RetryInv external hash id config token pool.shared :=
    ⟨worldInv_run htrace, hholding, hfree⟩
  exact ⟨exists_retryReturns hidle hinv hretry,
    fun _ hreturns => (hreturns.result hinv hretry).isOk_iff⟩

theorem interrupted_retry_succeeds : ∃ log pool result,
    Trace (PublishersStep plainExternal lengthHash) (Pool.idle { capability := durable }) log pool ∧
    RetryReturns plainExternal lengthHash 0 0 orders (authorityAt 1) 0 10 [] pool result ∧
    result.isOk = true := by
  obtain ⟨log, pool, htrace, hretry, hholding, hfree, hidle⟩ :=
    exists_awaiting interrupted_awaitsRetry
  obtain ⟨⟨result, hreturns⟩, hiff⟩ := retry_succeeds_iff htrace hretry hholding hfree hidle
  exact ⟨log, pool, result, htrace, hreturns, (hiff result hreturns).mpr rfl⟩

/-- After a takeover the range stays reserved under the epoch before it, and its retry fails. -/
theorem restarted_retry_fails : ∃ log pool result,
    Trace (PublishersStep plainExternal lengthHash) (Pool.idle { capability := durable }) log pool ∧
    RetryOf lengthHash orders 0 10 [] firstPublish pool.shared ∧
    Holding 1 orders (authorityAt 2) pool.shared ∧
    lengthHash.CollisionFree (hashedIdentities pool.shared) ∧
    RetryReturns plainExternal lengthHash 1 1 orders (authorityAt 2) 0 10 [] pool result ∧
    result = .error (.rangeConflict (firstPublish.under (authorityAt 2)).reservation) := by
  obtain ⟨log, pool, htrace, hretry, hholding, hfree, hidle⟩ :=
    exists_awaiting restarted_awaitsRetry
  have hinv : RetryInv plainExternal lengthHash 1 orders (authorityAt 2) pool.shared :=
    ⟨worldInv_run htrace, hholding, hfree⟩
  obtain ⟨result, hreturns⟩ := exists_retryReturns hidle hinv hretry
  have hresult := hreturns.result hinv hretry
  unfold RetryResult at hresult
  rw [if_neg (by decide)] at hresult
  exact ⟨log, pool, result, htrace, hretry, hholding, hfree, hreturns, hresult⟩

end Retry

/-- What holds of the stores after any run of publishers, and of the calls that return. -/
structure PublicationSafety (external : External) (hash : Hash) (pool : Publishers) : Prop where
  staged : ∀ requestId publication,
    pool.shared.metadata.relationAuthoritativeIngestPublications.lookup requestId =
      some publication →
    ∃ payload, pool.shared.objects.lookup ⟨publication.objectKey⟩ = some payload ∧
      hash.digestBytes payload = publication.objectDigest
  described : ∀ id invocation startOffset endOffset payload published next,
    invocation.call = .publish startOffset endOffset payload →
    PublishersStep external hash pool (.returned id invocation (.published (.ok published))) next →
    published.reservation.slot = (invocation.config.streamId, invocation.config.partitionId) ∧
    published.reservation.startOffsetInclusive = startOffset ∧
    published.reservation.endOffsetExclusive = endOffset ∧
    published.objectDigest = hash.digestBytes payload ∧
    pool.shared.metadata.relationAuthoritativeIngestPublications.lookup published.requestId =
      some ⟨published.reservation, invocation.config.authorityKey, published.requestId,
        published.requestDigest, published.objectKey.value, published.objectDigest⟩
  apart : ∀ requestId publication requestId' publication', requestId ≠ requestId' →
    pool.shared.metadata.relationAuthoritativeIngestPublications.lookup requestId =
      some publication →
    pool.shared.metadata.relationAuthoritativeIngestPublications.lookup requestId' =
      some publication' →
    publication.reservation.slot = publication'.reservation.slot →
      publication.reservation.overlaps publication'.reservation = false
  fenced : ∀ log later key token, Trace (PublishersStep external hash) pool log later →
    pool.shared.metadata.relationPartitionAuthorities.lookup key = some token →
    ∃ requests, later.shared.requests = pool.shared.requests ++ requests ∧
      ∀ request, .publishRelationIngestReservation request (.ok .committed) ∈ requests →
        request.authority.key = key → token.ownerEpoch ≤ request.authority.ownerEpoch

theorem publications_safe
    (htrace : Trace (PublishersStep external hash) (Pool.idle { capability }) log pool) :
    PublicationSafety external hash pool := by
  obtain ⟨hsound, -⟩ := Pool.Sound.run (publishers_respect external hash)
    (Pool.sound_idle (worldInv_start external hash capability)) htrace
  have hinv : WorldInv external hash pool.shared := hsound.inv
  have hledger := ledger_of_trace hinv.run
  refine ⟨?_, ?_, ?_, ?_⟩
  · intro requestId publication hlookup
    obtain ⟨prepared, payload, -, rfl, staged, hobject, hdigest⟩ :=
      hinv.published publication (hledger.logged requestId publication hlookup)
    exact ⟨staged, hobject, hdigest⟩
  · intro id invocation startOffset endOffset payload published next hcall hstep
    cases hstep with
    | returned htask =>
      obtain ⟨prepared, outcome, hprepare, hkey, rfl, hrecorded⟩ :=
        hsound.returned htask startOffset endOffset payload _ hcall rfl published rfl
      obtain ⟨hslot, hstart, hend, hdigest⟩ := reservation_of_prepare hprepare
      refine ⟨hslot, hstart, hend, hdigest, ?_⟩
      rw [← hkey]
      exact hledger.recorded _ hrecorded
  · intro requestId publication requestId' publication' hne hlookup hlookup' hslot
    obtain ⟨-, hpublished, hkey⟩ := hledger.published requestId publication hlookup
    obtain ⟨-, hpublished', hkey'⟩ := hledger.published requestId' publication' hlookup'
    refine hledger.apart hkey hkey' ?_ hslot
    intro hsame
    rw [hsame, hpublished'] at hpublished
    exact hne (Option.some.inj hpublished).symm
  · intro log' later key token htrace' hlookup
    obtain ⟨-, hgrows⟩ := hsound.run (publishers_respect external hash) htrace'
    obtain ⟨requests, hrequests, hrun⟩ := WorldGrows.requests hgrows
    exact ⟨requests, hrequests, (authority_run hrun hlookup).2⟩

/-- The safety is that of a run that publishes. -/
theorem interrupted_publications_safe : ∃ log pool requestId publication,
    Trace (PublishersStep plainExternal lengthHash) (Pool.idle { capability := durable }) log pool ∧
    PublicationSafety plainExternal lengthHash pool ∧
    pool.shared.metadata.relationAuthoritativeIngestPublications.lookup requestId =
      some publication := by
  obtain ⟨log, pool, htrace, hretry, hholding, hfree, hidle⟩ :=
    exists_awaiting interrupted_awaitsRetry
  have hinv : RetryInv plainExternal lengthHash 0 orders (authorityAt 1) pool.shared :=
    ⟨worldInv_run htrace, hholding, hfree⟩
  obtain ⟨result, hreturns⟩ := exists_retryReturns hidle hinv hretry
  have hok := (hreturns.result hinv hretry).isOk_iff.mpr rfl
  obtain ⟨begun, log', last, next, hbegan, hattended, hreturned⟩ := hreturns
  have htrace' := (htrace.snoc hbegan).append (hattended.weaken fun h => h.step)
  have hsafe := publications_safe htrace'
  cases result with
  | error => cases hok
  | ok published =>
    obtain ⟨-, -, -, -, hlookup⟩ := hsafe.described _ _ _ _ _ _ _ rfl hreturned
    exact ⟨_, last, _, _, htrace', hsafe, hlookup⟩

end Runs

end Velorix.Control
