import Velorix.Control.PublishRequests

/-! Retrying a publish under the authority that is current: under the epoch that the range was
reserved in the retry succeeds, and under any other epoch it is refused. -/
namespace Velorix.Control

open Meta Storage PublishReservationRequest List

/-- The identity that the publish behind a reservation is hashed under. -/
def identityOf (request : ReserveAuthoritativeRequest) : Fallible Bytes :=
  requestIdentity
    { namespaceName := request.authority.key.namespaceName
      relationId := request.reservation.relationId
      relationVersion := request.reservation.relationVersion
      schemaFingerprint := request.reservation.schemaFingerprint
      streamId := request.reservation.streamId
      partitionId := request.reservation.partitionId
      ownerId := request.authority.ownerId
      authorityTtlMs := 0 }
    request.reservation.startOffsetInclusive request.reservation.endOffsetExclusive
    request.reservation.payloadDigest

/-- The identities of all publishes that asked for a reservation. -/
def hashedIdentities (world : World) : Set Bytes :=
  { identity | ∃ request result,
    .reserveRelationAuthoritativeIngestRange request result ∈ world.requests ∧
      identityOf request = .ok identity }

/-- The publisher was started, and the authority it holds is current and has not expired. -/
structure Holding (id : ℕ) (config : RelationIngestPublisherConfig) (token : AuthorityToken)
    (world : World) : Prop where
  publisher : ∃ publisher, world.publishers id = some publisher ∧ publisher.config = config ∧
    publisher.capabilityValidated = true ∧ publisher.token = some token
  current : world.metadata.relationPartitionAuthorities.lookup config.authorityKey = some token
  live : world.metadata.partitionAuthorityNowUnixMs < token.expiresAtUnixMs

structure RetryInv (external : External) (hash : Hash) (id : ℕ)
    (config : RelationIngestPublisherConfig) (token : AuthorityToken) (world : World) : Prop where
  inv : WorldInv external hash world
  holding : Holding id config token world
  free : hash.CollisionFree (hashedIdentities world)

/-- Calls are answered without faults, and the publisher keeps the authority meanwhile. -/
def retrySetting (external : External) (hash : Hash) (id : ℕ)
    (config : RelationIngestPublisherConfig) (token : AuthorityToken) : Setting Op Reply World where
  calls world op reply later := reply = (world.answer op).1 ∧ later = (world.answer op).2
  Inv := RetryInv external hash id config token
  Grows := WorldGrows external
  refl := WorldGrows.refl
  trans := WorldGrows.trans

section Retry
variable {x : External} {hash : Hash} {id : ℕ} {c : RelationIngestPublisherConfig}
  {t : AuthorityToken} {w later : World} {start stop : UInt64}
  {b : Bytes} {first prepared : Prepared}

theorem identityOf_prepare (hk : prepared.authority.key = c.authorityKey)
    (h : prepare hash c prepared.authority start stop b = .ok prepared) :
    identityOf prepared.reserveRequest = requestIdentity c start stop (hash.digestBytes b) := by
  obtain ⟨identity, batchKey, -, -, -, hp⟩ := prepare_ok h
  unfold identityOf Prepared.reserveRequest
  dsimp only
  rw [hk, hp]
  rfl

theorem Attempt.under_of_requestId {a b : Prepared} {p q : Bytes} (ha : Attempt hash w a p)
    (hb : Attempt hash w b q) (hf : hash.CollisionFree (hashedIdentities w))
    (hid : a.requestId = b.requestId) :
    b = a.under b.authority ∧ b.authority.key = a.authority.key := by
  obtain ⟨c, start, stop, hk, hp, result, hm⟩ := ha
  obtain ⟨config', start', stop', hk', hp', result', hm'⟩ := hb
  refine Control.under_of_requestId hp hp' hk hk' ?_ hid
  intro i j hi hj hh
  rw [← identityOf_prepare hk hp] at hi
  rw [← identityOf_prepare hk' hp'] at hj
  exact hf ⟨_, result, hm, hi⟩ ⟨_, result', hm', hj⟩ hh

/-- What a retry relies on: the range was reserved by a publish of the same range and payload. -/
structure RetryOf (hash : Hash) (config : RelationIngestPublisherConfig)
    (startOffset endOffset : UInt64) (payload : Bytes) (first : Prepared) (world : World) :
    Prop where
  key : first.authority.key = config.authorityKey
  prepared : prepare hash config first.authority startOffset endOffset payload = .ok first
  reserved : .reserveRelationAuthoritativeIngestRange first.reserveRequest (.ok .reserved) ∈
    world.requests

theorem RetryOf.grow (h : RetryOf hash c start stop b first w) (hg : WorldGrows x w later) :
    RetryOf hash c start stop b first later :=
  ⟨h.key, h.prepared, hg.subset h.reserved⟩

theorem retry_call {α : Type} {op : Op} {post : α → World → Prop}
    {next : Reply op → Program Op Reply α}
    (h : ∀ later, WorldGrows x w later → RetryInv x hash id c t later →
      RetryInv x hash id c t (later.answer op).2 ∧ WorldGrows x later (later.answer op).2 ∧
      (retrySetting x hash id c t).Safe post (next (later.answer op).1) (later.answer op).2) :
    (retrySetting x hash id c t).Safe post (op.ask >>= next) w := by
  rintro later hg hinv reply last ⟨rfl, rfl⟩
  exact h later hg hinv

theorem retry_read {α : Type} {op : Op} {post : α → World → Prop}
    {next : Reply op → Program Op Reply α} (hread : ∀ w : World, (w.answer op).2 = w)
    (h : ∀ later, WorldGrows x w later → RetryInv x hash id c t later →
      (retrySetting x hash id c t).Safe post (next (later.answer op).1) later) :
    (retrySetting x hash id c t).Safe post (op.ask >>= next) w := by
  refine retry_call fun later hg hinv => ?_
  rw [hread]
  exact ⟨hinv, .refl later, h later hg hinv⟩

theorem RetryInv.record (h : RetryInv x hash id c t w)
    {next : InMemoryMetaState} {e : Event} (hinv : WorldInv x hash (w.record next e))
    (hc : next.relationPartitionAuthorities = w.metadata.relationPartitionAuthorities)
    (hclock : next.partitionAuthorityNowUnixMs = w.metadata.partitionAuthorityNowUnixMs)
    (hi : ∀ q result, e = .reserveRelationAuthoritativeIngestRange q result →
      ∀ identity, identityOf q = .ok identity → identity ∈ hashedIdentities w) :
    RetryInv x hash id c t (w.record next e) := by
  refine ⟨hinv, ⟨h.holding.publisher, ?_, ?_⟩, h.free.mono ?_⟩
  · show next.relationPartitionAuthorities.lookup _ = _
    rw [hc]
    exact h.holding.current
  · show next.partitionAuthorityNowUnixMs < _
    rw [hclock]
    exact h.holding.live
  · rintro identity ⟨q, result, hm, hok⟩
    rcases mem_append.mp hm with hm | hm
    · exact ⟨q, result, hm, hok⟩
    · exact hi q result (mem_singleton.mp hm).symm identity hok

/-- What the metadata store knows of a retry. -/
structure RetryFacts (hash : Hash) (config : RelationIngestPublisherConfig)
    (token : AuthorityToken) (startOffset endOffset : UInt64) (payload : Bytes) (first : Prepared)
    (world : World) : Prop where
  key : token.key = config.authorityKey
  prepared : prepare hash config token startOffset endOffset payload = .ok (first.under token)
  valid : (first.under token).reserveRequest.validateRelation = .ok ()
  current : world.metadata.relationPartitionAuthorities.lookup token.key = some token
  held : world.metadata.relationAuthorityReservationKeys.lookup first.reservation = some token.key
  nonempty : first.reservation.startOffsetInclusive < first.reservation.endOffsetExclusive

section
variable (hinv : RetryInv x hash id c t w) (hr : RetryOf hash c start stop b first w)
include hinv hr

theorem retry_facts : RetryFacts hash c t start stop b first w := by
  have hl := ledger_of_trace hinv.inv.run
  obtain ⟨hk, ht⟩ := hl.tokens _ _ hinv.holding.current
  obtain ⟨hv, hh⟩ := (reserved_of_trace hinv.inv.run).reserved _ hr.reserved
  have hs : first.authority.key = t.key := hr.key.trans hk.symm
  refine ⟨hk, prepare_under t hr.prepared, validateRelation_under hv ht hs.symm, ?_, ?_, ?_⟩
  · rw [hk]
    exact hinv.holding.current
  · rw [← hs]
    exact hh
  · exact nonempty_of_validateRelation hv

theorem reserve_retry :
    w.metadata.reserveRelationAuthoritativeIngestRange (first.under t).reserveRequest =
      (w.metadata, .ok (if t.ownerEpoch = first.reservation.writerEpoch then .duplicate
        else .conflict)) := by
  have hl := ledger_of_trace hinv.inv.run
  have hf := retry_facts hinv hr
  split_ifs with he
  · refine reserve_again hf.valid hf.current hinv.holding.live ?_
    have hs : (first.under t).reserveRequest.reservation = first.reservation := by
      show { first.reservation with writerEpoch := t.ownerEpoch } = first.reservation
      rw [he]
    rw [hs]
    exact hf.held
  · have hne : first.reservation ≠ (first.under t).reservation := by
      intro hs
      exact he (congrArg IngestRangeReservation.writerEpoch hs).symm
    have hoverlaps : first.reservation.overlaps (first.under t).reservation = true :=
      IngestRangeReservation.overlaps_iff.mpr ⟨hf.nonempty, hf.nonempty⟩
    refine reserve_clash hf.valid hf.current hinv.holding.live ?_
      (hl.authorized _ _ hf.held).2.2 hoverlaps
    by_contra ho
    obtain ⟨key, hk⟩ := Option.ne_none_iff_exists'.mp ho
    have ha := hl.apart hf.held hk hne rfl
    exact Bool.noConfusion (ha.symm.trans hoverlaps)

theorem RetryInv.reserve : RetryInv x hash id c t (w.answer
      (.reserveRelationAuthoritativeIngestRange (first.under t).reserveRequest)).2 := by
  have hallowed : (Op.reserveRelationAuthoritativeIngestRange
    (first.under t).reserveRequest).Allowed hash w := trivial
  have hn := (hinv.inv.answer hallowed).1
  have ha := reserve_retry hinv hr
  refine hinv.record hn ?_ ?_ ?_
  · rw [ha]
  · rw [ha]
  · rintro q result heq identity hi
    cases heq
    refine ⟨first.reserveRequest, _, hr.reserved, ?_⟩
    rw [← hi]
    have hf := retry_facts hinv hr
    rw [identityOf_prepare hr.key hr.prepared]
    exact (identityOf_prepare (by exact hf.key) hf.prepared).symm

end

theorem refuseRange_retry (hr : RetryOf hash c start stop b first w) :
    (retrySetting x hash id c t).Safe
      (fun result _ => result = .error (.rangeConflict (first.under t).reservation))
      (refuseRange id (first.under t)) w := by
  refine retry_read (fun _ => rfl) ?_
  intro later hg hinv
  have hf := retry_facts hinv (hr.grow hg)
  have hread : (later.answer (.readRelationPartitionAuthority (first.under t).authority.key)).1 =
      .ok (some t) := by
    have hv : t.key.validate "relation_id" = .ok () := by
      have ht := ((ledger_of_trace hinv.inv.run).tokens _ _ hf.current).2
      unfold AuthorityToken.validate at ht
      exact (checks_ok.mp ht).1
    show later.metadata.readRelationPartitionAuthority t.key = _
    unfold InMemoryMetaState.readRelationPartitionAuthority
    rw [hv, hf.current]
    have hlive := hinv.holding.live
    simp [Option.filter, hlive]
  rw [hread]
  dsimp only
  rw [if_neg (by exact not_not.mpr rfl)]
  intro _ _ _
  rfl

theorem digest_of_staged (hinv : RetryInv x hash id c t w)
    (ha : Attempt hash w prepared b) {existing : Bytes}
    (hlookup : w.objects.lookup prepared.stagingKey = some existing) :
    hash.digestBytes existing = prepared.reservation.payloadDigest := by
  obtain ⟨other, ho, hk⟩ := hinv.inv.attempted _ _ hlookup
  have hid : other.requestId = prepared.requestId := by
    obtain ⟨config₁, start₁, end₁, -, hp₁, -⟩ := ho
    obtain ⟨config₂, start₂, end₂, -, hp₂, -⟩ := ha
    obtain ⟨i, _, -, -, hstaging₁, ho'⟩ := prepare_ok hp₁
    obtain ⟨j, _, -, -, hstaging₂, hp'⟩ := prepare_ok hp₂
    have hparts₁ := parseIngestStaging_ingestStaging hstaging₁
    rw [hk, parseIngestStaging_ingestStaging hstaging₂] at hparts₁
    simp only [Except.ok.injEq, Prod.mk.injEq, IngestStagingKeyParts.mk.injEq] at hparts₁
    rw [ho', hp']
    exact hparts₁.2.2.2.2.2.symm
  have hs := (ho.under_of_requestId ha hinv.free hid).1
  obtain ⟨config₁, start₁, end₁, -, hp₁, -⟩ := ho
  obtain ⟨-, -, -, hd⟩ := reservation_of_prepare hp₁
  rw [hs, ← hd]
  rfl

theorem checkStagingRecord_ok {start stop : UInt64}
    (hp : prepare hash c prepared.authority start stop b = .ok prepared) :
    checkStagingRecord hash prepared.stagingKey b prepared.reservation.payloadDigest = .ok () := by
  obtain ⟨_, _, -, -, hstaging, -⟩ := prepare_ok hp
  obtain ⟨-, -, -, hd⟩ := reservation_of_prepare hp
  unfold checkStagingRecord
  rw [parseIngestStaging_ingestStaging hstaging, hd, isSha256Digest_digestBytes]
  simp

theorem RetryInv.put (hinv : RetryInv x hash id c t w) (ha : Attempt hash w prepared b) :
    RetryInv x hash id c t (w.answer (.put prepared.stagingKey b)).2 := by
  have hallowed : (Op.put prepared.stagingKey b).Allowed hash w :=
    ⟨prepared, ha, rfl⟩
  have hn := (hinv.inv.answer hallowed).1
  simp only [World.answer] at hn ⊢
  split
  · exact hinv
  · rename_i hf
    rw [hf] at hn
    exact ⟨hn, ⟨hinv.holding.publisher, hinv.holding.current, hinv.holding.live⟩, hinv.free⟩

theorem stageWrite_retry (ha : Attempt hash w prepared b) :
    (retrySetting x hash id c t).Safe
      (fun result last => (result = .ok .created ∨ result = .ok .duplicate) ∧
        Staged hash last prepared.stagingKey prepared.reservation.payloadDigest)
      (stageWrite hash prepared.stagingKey.value b prepared.reservation.payloadDigest) w := by
  have ⟨config', start', end', _, hp, _⟩ := ha
  obtain ⟨_, _, -, -, hstaging, -⟩ := prepare_ok hp
  have hc := checkStagingRecord_ok hp
  obtain ⟨-, -, -, hd⟩ := reservation_of_prepare hp
  unfold stageWrite
  rw [parseIngestStaging_ingestStaging hstaging]
  dsimp only
  rw [hc]
  unfold stageIngestRecord
  dsimp only
  rw [hc]
  refine retry_call fun later hg hinv => ?_
  have ha' := ha.grow hg
  have hallowed : (Op.put prepared.stagingKey b).Allowed hash later :=
    ⟨prepared, ha', rfl⟩
  refine ⟨hinv.put ha', (hinv.inv.answer hallowed).2, ?_⟩
  simp only [World.answer]
  cases hlookup : later.objects.lookup prepared.stagingKey with
  | none =>
    intro last hl _
    exact ⟨.inl rfl, b, hl.objects _ _ (AList.lookup_insert _), hd.symm⟩
  | some existing =>
    refine retry_read ?_ ?_
    · intro w
      simp only [World.answer]
      split <;> rfl
    intro later' hg' hinv'
    have ho := hg'.objects _ _ hlookup
    have hs := digest_of_staged hinv' (ha'.grow hg') ho
    have hget : (later'.answer (.get prepared.stagingKey)).1 = .ok existing := by
      simp only [World.answer]
      rw [ho]
    rw [hget]
    dsimp only
    rw [if_pos hs]
    intro last hl _
    exact ⟨.inr rfl, existing, hl.objects _ _ ho, hs⟩

/-- A retry whose reservation was answered as a duplicate. -/
structure Resumed (hash : Hash) (world : World) (prepared : Prepared) (payload : Bytes) :
    Prop where
  attempt : Attempt hash world prepared payload
  valid : prepared.reserveRequest.validateRelation = .ok ()
  held : world.metadata.relationAuthorityReservationKeys.lookup prepared.reservation =
    some prepared.authority.key

section
variable (h : Resumed hash w prepared b) (hinv : RetryInv x hash id c t w)
include h hinv

theorem Resumed.sameRequest {existing : IngestPublication}
    (hlookup : w.metadata.relationAuthoritativeIngestPublications.lookup prepared.requestId =
      some existing) : existing = prepared.publishRequest.publication := by
  have hl := ledger_of_trace hinv.inv.run
  obtain ⟨hid, -, hk⟩ := hl.published _ _ hlookup
  obtain ⟨other, b', ho, rfl, -⟩ :=
    hinv.inv.published _ (hl.logged _ _ hlookup)
  obtain ⟨hs, hauth⟩ := ho.under_of_requestId h.attempt hinv.free hid
  have hn := nonempty_of_validateRelation h.valid
  have hoverlaps : other.reservation.overlaps prepared.reservation = true := by
    rw [hs] at hn ⊢
    exact IngestRangeReservation.overlaps_iff.mpr ⟨hn, hn⟩
  have hr : other.reservation = prepared.reservation := by
    by_contra hne
    have ha : other.reservation.overlaps prepared.reservation = false :=
      hl.apart hk h.held hne (by rw [hs]; rfl)
    exact Bool.noConfusion (ha.symm.trans hoverlaps)
  unfold Prepared.publishRequest publication
  dsimp only
  rw [hr, ← hauth]
  rw [hs]
  rfl

theorem Resumed.sameRange {rid : String}
    (hlookup : w.metadata.relationReservationPublications.lookup prepared.reservation = some rid) :
    rid = prepared.requestId := by
  have hl := ledger_of_trace hinv.inv.run
  obtain ⟨p, hf, hr⟩ := (reserved_of_trace hinv.inv.run).traced _ _ hlookup
  obtain ⟨hid, -, hk⟩ := hl.published _ _ hf
  obtain ⟨other, b', ho, rfl, -⟩ :=
    hinv.inv.published _ (hl.logged _ _ hf)
  rw [hr, h.held, Option.some.injEq] at hk
  obtain ⟨config₁, start₁, end₁, hk₁, hp₁, -⟩ := ho
  obtain ⟨config₂, start₂, end₂, hk₂, hp₂, -⟩ := h.attempt
  have hs : identityOf other.reserveRequest = identityOf prepared.reserveRequest := by
    show identityOf ⟨other.reservation, other.authority⟩ =
      identityOf ⟨prepared.reservation, prepared.authority⟩
    rw [show other.reservation = prepared.reservation from hr]
    unfold identityOf requestIdentity
    dsimp only
    rw [show prepared.authority.key = other.authority.key from hk]
  rw [identityOf_prepare hk₁ hp₁, identityOf_prepare hk₂ hp₂] at hs
  obtain ⟨i, _, hi, -, -, ho'⟩ := prepare_ok hp₁
  obtain ⟨j, _, hj, -, -, hp'⟩ := prepare_ok hp₂
  rw [hi, hj, Except.ok.injEq] at hs
  have hid₁ : other.requestId = rid := hid
  rw [← hid₁, ho', hp', hs]

theorem Resumed.publish (ht : prepared.authority = t)
    (hs : Staged hash w prepared.stagingKey prepared.reservation.payloadDigest) :
    let op := Op.publishRelationIngestReservation prepared.publishRequest
    RetryInv x hash id c t (w.answer op).2 ∧ WorldGrows x w (w.answer op).2 ∧
      Recorded prepared.publishRequest (w.answer op).2 ∧
      ((w.answer op).1 = .ok .committed ∨ (w.answer op).1 = .ok .duplicate) := by
  intro op
  have hl := ledger_of_trace hinv.inv.run
  have hallowed : op.Allowed hash w := ⟨prepared, b, h.attempt, rfl, hs⟩
  obtain ⟨hn, hg⟩ := hinv.inv.answer hallowed
  obtain ⟨config', start', end', hk, hp, -⟩ := h.attempt
  have hc : w.metadata.relationPartitionAuthorities.lookup prepared.authority.key =
      some prepared.authority := by
    obtain ⟨hk, -⟩ := hl.tokens _ _ hinv.holding.current
    rw [ht, hk]
    exact hinv.holding.current
  have hlive : w.metadata.partitionAuthorityNowUnixMs < prepared.authority.expiresAtUnixMs := by
    rw [ht]
    exact hinv.holding.live
  have hb := hl.filed.relationIndexed _ _ (hl.authorized _ _ h.held).2.2
  have ha := @publish_again w.metadata prepared.publishRequest
    (validateRelation_publish hp h.valid) hc hlive
    (fun existing => h.sameRequest hinv) (fun rid => h.sameRange hinv) h.held hb
  refine ⟨hinv.record hn ?_ ?_ nofun, hg, ?_, ?_⟩
  · rcases ha with ⟨ha, -⟩ | ha
    · rw [ha]
    · rw [ha]
      rfl
  · rcases ha with ⟨ha, -⟩ | ha
    · rw [ha]
    · rw [ha]
      rfl
  · rcases ha with ⟨-, hr⟩ | ha
    · exact Recorded.grow (hl.logged _ _ hr) hg
    · show _ ∈ relationPublications (w.requests ++ [_])
      rw [relationPublications_snoc, ha]
      exact mem_append_right _ (mem_singleton_self _)
  · rcases ha with ⟨ha, -⟩ | ha
    · exact .inr (congrArg Prod.snd ha)
    · exact .inl (congrArg Prod.snd ha)

end

theorem verifyPublication_retry {q : PublishReservationRequest}
    (hri : requireNonEmpty "request_id" q.requestId = .ok ()) (hr : Recorded q w) :
    (retrySetting x hash id c t).Safe
      (fun result _ => result = .ok q.publication) (verifyPublication id q) w := by
  refine retry_read (fun _ => rfl) ?_
  intro later hg hinv
  have hlookup := (ledger_of_trace hinv.inv.run).recorded _ (hr.grow hg)
  have hread : (later.answer (.readRelationAuthoritativeIngestPublication q.requestId)).1 =
      .ok (some q.publication) := by
    show later.metadata.readRelationAuthoritativeIngestPublication q.requestId = _
    unfold InMemoryMetaState.readRelationAuthoritativeIngestPublication
    rw [hri]
    exact congrArg Except.ok hlookup
  rw [hread]
  unfold verifyFound validatePublicationMatch publication
  simp only [ne_eq, not_true_eq_false, or_self, if_false]
  intro _ _ _
  rfl

section
variable (hresumed : ∀ later, WorldGrows x w later → RetryInv x hash id c t later →
    Resumed hash later prepared b) (ht : prepared.authority = t)
include hresumed ht

theorem publishReserved_retry
    (hs : Staged hash w prepared.stagingKey prepared.reservation.payloadDigest) :
    (retrySetting x hash id c t).Safe (fun result _ => result.isOk = true)
      (publishReserved id prepared) w := by
  refine retry_call fun later hg hinv => ?_
  have h := hresumed later hg hinv
  obtain ⟨hinv', hg', hr, ha⟩ := h.publish hinv ht (hs.grow hg)
  have hri : requireNonEmpty "request_id" prepared.publishRequest.requestId = .ok () := by
    obtain ⟨config', start', end', -, hp, -⟩ := h.attempt
    exact requestId_nonEmpty hp
  refine ⟨hinv', hg', ?_⟩
  rcases ha with ha | ha
  all_goals
    rw [ha]
    refine Setting.Safe.bind hinv' ((verifyPublication_retry hri hr).weaken ?_)
    rintro result last - - rfl _ _ _
    rfl

theorem stageAndPublish_retry (hinv : RetryInv x hash id c t w) :
    (retrySetting x hash id c t).Safe (fun result _ => result.isOk = true)
      (stageAndPublish hash id prepared b) w := by
  have ha := (hresumed w (.refl w) hinv).attempt
  refine Setting.Safe.bind hinv ((stageWrite_retry ha).weaken ?_)
  rintro result last hg - ⟨hres, hs⟩
  have hp := publishReserved_retry
    (fun later hg' => hresumed later (hg.trans hg')) ht hs
  rcases hres with rfl | rfl
  · exact hp
  · exact hp

end

/-- With the epoch that the range was reserved under a retry succeeds, and with any other epoch
its range is refused. -/
def RetryResult (first : Prepared) (token : AuthorityToken)
    (result : Fallible PublishedRelationIngest) : Prop :=
  if token.ownerEpoch = first.reservation.writerEpoch then result.isOk = true
  else result = .error (.rangeConflict (first.under token).reservation)

theorem RetryResult.isOk_iff {result : Fallible PublishedRelationIngest}
    (h : RetryResult first t result) :
    result.isOk = true ↔ t.ownerEpoch = first.reservation.writerEpoch := by
  unfold RetryResult at h
  split_ifs at h with he
  · exact iff_of_true h he
  · rw [h]
    exact iff_of_false Bool.false_ne_true he

theorem publish_retry (hr : RetryOf hash c start stop b first w) :
    (retrySetting x hash id c t).Safe (fun result _ => RetryResult first t result)
      (publish hash id c start stop b) w := by
  refine retry_read (fun _ => rfl) fun world₁ hg₁ hinv₁ => ?_
  obtain ⟨publisher, hlookup, -, hv, ht⟩ := hinv₁.holding.publisher
  have hc : (world₁.answer (.loadCapabilityValidated id)).1 = true := by
    simp [World.answer, hlookup, hv]
  rw [hc, if_pos rfl]
  refine retry_read (fun _ => rfl) fun world₂ hg₂ hinv₂ => ?_
  obtain ⟨publisher, hlookup, -, hv, ht⟩ := hinv₂.holding.publisher
  have hl : (world₂.answer (.loadToken id)).1 = some t := by
    simp [World.answer, hlookup, ht]
  rw [hl]
  dsimp only
  rw [prepare_under t hr.prepared]
  refine retry_call fun world₃ hg₃ hinv₃ => ?_
  have hr₃ := hr.grow ((hg₁.trans hg₂).trans hg₃)
  have ha := reserve_retry hinv₃ hr₃
  have hinv₄ := hinv₃.reserve hr₃
  have hallowed : (Op.reserveRelationAuthoritativeIngestRange
    (first.under t).reserveRequest).Allowed hash world₃ := trivial
  have hg₄ := (hinv₃.inv.answer hallowed).2
  have hreply : (world₃.answer (.reserveRelationAuthoritativeIngestRange
      (first.under t).reserveRequest)).1 = _ := congrArg Prod.snd ha
  refine ⟨hinv₄, hg₄, ?_⟩
  rw [hreply]
  split_ifs with he
  · have hauth : (first.under t).authority = t := rfl
    refine (stageAndPublish_retry ?_ hauth hinv₄).weaken
      fun result _ _ _ hok => (if_pos he).mpr hok
    intro later hg hinv'
    have hf := retry_facts hinv' ((hr₃.grow hg₄).grow hg)
    have hs : (first.under t).reservation = first.reservation := by
      show { first.reservation with writerEpoch := t.ownerEpoch } = first.reservation
      rw [he]
    refine ⟨⟨c, start, stop, hf.key, hf.prepared, _,
      hg.subset (mem_append_right _ (mem_singleton_self _))⟩, hf.valid, ?_⟩
    rw [hs]
    exact hf.held
  · exact (refuseRange_retry (hr₃.grow hg₄)).weaken
      fun result _ _ _ hres => (if_neg he).mpr hres

end Retry

end Velorix.Control
