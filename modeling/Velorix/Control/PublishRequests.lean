import Velorix.Control.Publications

/-! The request that a publish makes is determined by its range and payload, except for the epoch
of the writer that its reservation names. What the metadata store answers to it follows. -/
namespace Velorix.Control

open Meta Storage Result ReserveAuthoritativeRequest InMemoryMetaState

section Requests
variable {hash : Hash} {c c' : RelationIngestPublisherConfig}
  {authority : AuthorityToken} {start stop start' stop' : UInt64}
  {b : Bytes} {p : Prepared} {digest digest' : String} {identity : Bytes}

/-- The same request under another authority. -/
def Prepared.under (prepared : Prepared) (authority : AuthorityToken) : Prepared :=
  { prepared with
    authority
    reservation := { prepared.reservation with writerEpoch := authority.ownerEpoch } }

theorem prepare_under (authority' : AuthorityToken)
    (h : prepare hash c authority start stop b = .ok p) :
    prepare hash c authority' start stop b =
      .ok (p.under authority') := by
  unfold prepare at h ⊢
  simp only [bind_eq_ok] at h ⊢
  obtain ⟨rid, hid, requestDigest, hd, batchKey, hbatch, stagingKey, hs, h⟩ := h
  cases h
  exact ⟨rid, hid, requestDigest, hd, batchKey, hbatch, stagingKey, hs, rfl⟩

theorem requestIdentity_inj (h : requestIdentity c start stop digest = .ok identity)
    (h' : requestIdentity c' start' stop' digest' = .ok identity) :
    c.namespaceName = c'.namespaceName ∧ c.relationId = c'.relationId ∧
      c.relationVersion = c'.relationVersion ∧
      c.schemaFingerprint = c'.schemaFingerprint ∧
      c.streamId = c'.streamId ∧ c.partitionId = c'.partitionId ∧
      start = start' ∧ stop = stop' ∧ digest = digest' := by
  unfold requestIdentity at h h'
  split_ifs at h h'
  rw [Except.ok.injEq] at h h'
  have ht := Json.structText_injective (Json.utf8Bytes_injective (h.trans h'.symm))
  simp only [List.cons.injEq, Prod.mk.injEq, Json.Scalar.text.injEq, Json.Scalar.number.injEq,
    true_and, and_true] at ht
  obtain ⟨hn, hr, hv, hschema, hstream, hp, hstart, he, hd⟩ :=
    ht
  exact ⟨hn, hr, hv, hschema, hstream,
    UInt32.toUInt64_inj.mp hp, hstart, he, hd⟩

/-- What a publish has computed when it starts to call. -/
theorem prepare_ok (h : prepare hash c authority start stop b = .ok p) :
    ∃ identity batchKey,
      requestIdentity c start stop (hash.digestBytes b) = .ok identity ∧
      ObjectKey.ingestBatch c.streamId c.partitionId start stop =
        .ok batchKey ∧
      ObjectKey.ingestStaging c.streamId c.partitionId start stop
        ("relation-ingest-v1-" ++ hash.hex identity) = .ok p.stagingKey ∧
      p =
        { reservation :=
            { streamId := c.streamId
              partitionId := c.partitionId
              startOffsetInclusive := start
              endOffsetExclusive := stop
              batchKey := batchKey.value
              payloadDigest := hash.digestBytes b
              relationId := c.relationId
              relationVersion := c.relationVersion
              schemaFingerprint := c.schemaFingerprint
              writerEpoch := authority.ownerEpoch }
          authority
          requestId := "relation-ingest-v1-" ++ hash.hex identity
          requestDigest := "sha256:" ++ hash.hex identity
          stagingKey := p.stagingKey } := by
  unfold prepare at h
  simp only [bind_eq_ok] at h
  obtain ⟨rid, hid, requestDigest, hd, batchKey, hbatch, stagingKey, hs, h⟩ := h
  obtain ⟨digest, hd', hid⟩ := bind_eq_ok.mp hid
  cases hd'.symm.trans hd
  obtain ⟨identity, hi, hd⟩ := bind_eq_ok.mp hd
  cases hd
  cases hid
  cases h
  have hri : trimStartMatches "sha256:" ("sha256:" ++ hash.hex identity) =
      hash.hex identity := trimStartMatches_hex hash identity
  rw [hri] at hs
  refine ⟨identity, batchKey, hi, ?_, ?_, ?_⟩
  · unfold fromObjectKey at hbatch
    split at hbatch <;> cases hbatch
    assumption
  · unfold fromObjectKey at hs
    split at hs <;> cases hs
    assumption
  · rw [hri]

/-- Two publishes under authorities over one namespace that make the same request. -/
theorem under_of_requestId {a b : Prepared} {p q : Bytes}
    (ha : prepare hash c a.authority start stop p = .ok a)
    (hb : prepare hash c' b.authority start' stop' q = .ok b)
    (hk : a.authority.key = c.authorityKey) (hk' : b.authority.key = c'.authorityKey)
    (hf : ∀ i j, requestIdentity c start stop (hash.digestBytes p) = .ok i →
      requestIdentity c' start' stop' (hash.digestBytes q) = .ok j →
      hash.hex i = hash.hex j → i = j)
    (hid : a.requestId = b.requestId) :
    b = a.under b.authority ∧ b.authority.key = a.authority.key := by
  obtain ⟨i, batchKey, hi, hbatch, hs, ha'⟩ := prepare_ok ha
  obtain ⟨j, batchKey', hj, hbatch', hs', hb'⟩ := prepare_ok hb
  rw [ha', hb'] at hid
  have hh : hash.hex i = hash.hex j := by
    have ht := congrArg String.toList hid
    simp only [String.toList_append] at ht
    exact String.toList_inj.mp (List.append_cancel_left ht)
  cases hf i j hi hj hh
  obtain ⟨hn, hr, hv, hschema, hstream, hp, hstart, he, hd⟩ :=
    requestIdentity_inj hi hj
  subst hstart he
  rw [hstream, hp] at hbatch hs
  cases hbatch.symm.trans hbatch'
  have hsame : a.stagingKey = b.stagingKey := Except.ok.inj (hs.symm.trans hs')
  constructor
  · rw [hb', ha']
    simp only [Prepared.under, hr, hv, hschema, hstream, hp, hd, hsame]
  · rw [hk, hk']
    simp only [RelationIngestPublisherConfig.authorityKey, hn, hr, hstream,
      hp]

end Requests

section Answers
variable {q : ReserveAuthoritativeRequest}

variable {s : InMemoryMetaState}

section
variable (hv : q.validateRelation = .ok ())
  (hc : s.relationPartitionAuthorities.lookup q.authority.key = some q.authority)
  (hl : s.partitionAuthorityNowUnixMs < q.authority.expiresAtUnixMs)
include hv hc hl

theorem reserve_again (hh : s.relationAuthorityReservationKeys.lookup q.reservation =
      some q.authority.key) :
    s.reserveRelationAuthoritativeIngestRange q = (s, .ok .duplicate) := by
  unfold reserveRelationAuthoritativeIngestRange guarded
  rw [hv]
  dsimp only
  rw [hc, isOk_of_current hl, if_neg (by decide), hh]
  exact if_pos rfl

theorem reserve_clash {held : IngestRangeReservation}
    (hn : s.relationAuthorityReservationKeys.lookup q.reservation = none)
    (hh : held ∈ s.relationReservationsAt q.reservation.slot)
    (ho : held.overlaps q.reservation = true) :
    s.reserveRelationAuthoritativeIngestRange q = (s, .ok .conflict) := by
  have ha : (s.relationReservationsAt q.reservation.slot).any
      (·.overlaps q.reservation) = true := List.any_eq_true.mpr ⟨held, hh, ho⟩
  unfold reserveRelationAuthoritativeIngestRange guarded
  rw [hv]
  dsimp only
  rw [hc, isOk_of_current hl, if_neg (by decide), hn]
  exact if_pos (.inr (.inl ha))

end

def withPublication (state : InMemoryMetaState) (request : PublishReservationRequest) :
    InMemoryMetaState :=
  { state with
    relationAuthoritativeIngestPublications :=
      state.relationAuthoritativeIngestPublications.insert request.requestId request.publication
    relationReservationPublications :=
      state.relationReservationPublications.insert request.reservation request.requestId }

theorem publish_again {q : PublishReservationRequest}
    (hv : q.validateRelation = .ok ())
    (hc : s.relationPartitionAuthorities.lookup q.authority.key =
      some q.authority)
    (hl : s.partitionAuthorityNowUnixMs < q.authority.expiresAtUnixMs)
    (hsame : ∀ existing, s.relationAuthoritativeIngestPublications.lookup q.requestId =
      some existing → existing = q.publication)
    (ho : ∀ rid, s.relationReservationPublications.lookup q.reservation =
      some rid → rid = q.requestId)
    (hh : s.relationAuthorityReservationKeys.lookup q.reservation =
      some q.authority.key)
    (hbatch : s.relationBatchKeys.lookup q.reservation.batchKey =
      some q.reservation) :
    (s.publishRelationIngestReservation q = (s, .ok .duplicate) ∧
      s.relationAuthoritativeIngestPublications.lookup q.requestId =
        some q.publication) ∨
    s.publishRelationIngestReservation q =
      (withPublication s q, .ok .committed) := by
  unfold publishRelationIngestReservation guarded
  rw [hv]
  dsimp only
  rw [hc, isOk_of_current hl, if_neg (by decide)]
  cases hget : s.relationAuthoritativeIngestPublications.lookup q.requestId with
  | some existing =>
    cases hsame existing hget
    exact .inl ⟨if_pos rfl, rfl⟩
  | none =>
    refine .inr ?_
    have hu : (s.relationReservationPublications.lookup q.reservation).any
        (fun rid => decide (rid ≠ q.requestId)) = false := by
      cases hp : s.relationReservationPublications.lookup q.reservation with
      | none => rfl
      | some rid => simp [ho rid hp]
    dsimp only
    rw [hu, if_neg (by decide), if_neg (not_not.mpr hh), hbatch]
    simp [withPublication]

theorem validateRelation_under {p : Prepared} {authority : AuthorityToken}
    (hv : p.reserveRequest.validateRelation = .ok ())
    (ht : authority.validate "relation_id" = .ok ())
    (hk : authority.key = p.authority.key) :
    (p.under authority).reserveRequest.validateRelation = .ok () := by
  unfold validateRelation at hv ⊢
  simp only [checks_ok] at hv ⊢
  obtain ⟨hr, -, hscope⟩ := hv
  refine ⟨hr, ht, ?_⟩
  show require (authority.key.overRelation _) _ = _
  rw [hk]
  exact hscope

theorem requireNonEmpty_ok (field : String) {value : String} (h : value.isEmpty = false) :
    requireNonEmpty field value = .ok () := by
  unfold requireNonEmpty
  rw [h]
  rfl

theorem nonempty_of_validateRelation (h : q.validateRelation = .ok ()) :
    q.reservation.startOffsetInclusive < q.reservation.endOffsetExclusive := by
  unfold validateRelation IngestRangeReservation.validate at h
  simp only [checks_ok] at h
  exact of_decide_eq_true (require_ok h.1.2.2.2.2.2.2)

theorem requestId_nonEmpty {hash : Hash} {c : RelationIngestPublisherConfig}
    {authority : AuthorityToken} {start stop : UInt64} {b : Bytes}
    {p : Prepared}
    (hprep : prepare hash c authority start stop b = .ok p) :
    requireNonEmpty "request_id" p.requestId = .ok () := by
  obtain ⟨identity, batchKey, -, -, -, hp⟩ := prepare_ok hprep
  refine requireNonEmpty_ok _ ?_
  rw [hp]
  simp

theorem validateRelation_publish {hash : Hash} {c : RelationIngestPublisherConfig}
    {start stop : UInt64} {b : Bytes} {p : Prepared}
    (hprep : prepare hash c p.authority start stop b =
      .ok p)
    (hv : p.reserveRequest.validateRelation = .ok ()) :
    p.publishRequest.validateRelation = .ok () := by
  obtain ⟨identity, batchKey, -, -, hs, hp⟩ := prepare_ok hprep
  have ho : p.stagingKey.value.isEmpty = false := by
    obtain ⟨-, -, -, hl, -⟩ := ingestStaging_ok hs
    by_contra he
    rw [Bool.not_eq_false, String.isEmpty_iff] at he
    rw [he] at hl
    exact absurd hl (by decide)
  unfold validateRelation at hv
  unfold PublishReservationRequest.validateRelation PublishReservationRequest.validateFields
  simp only [checks_ok] at hv ⊢
  obtain ⟨hr, ht, hscope⟩ := hv
  refine ⟨⟨hr, ht, requestId_nonEmpty hprep, requireNonEmpty_ok _ ?_,
    requireNonEmpty_ok _ ho, requireNonEmpty_ok _ ?_⟩, hscope⟩
  · rw [show p.publishRequest.requestDigest = p.requestDigest from rfl, hp]
    simp
  · rw [show p.publishRequest.objectDigest = p.reservation.payloadDigest from rfl,
      hp]
    simp [Hash.digestBytes]

end Answers

end Velorix.Control
