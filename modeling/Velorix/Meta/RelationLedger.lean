import Velorix.Meta.RelationCuts

/-! The ledger of relation ingest: reservations under authorities, and at most one publication
of each. -/
namespace Velorix.Meta

open List HashMap AList

variable {request : PublishReservationRequest}

/-- The publication that an event was answered to have committed. -/
def Event.publication : Event → Option IngestPublication
  | .publishRelationIngestReservation request (.ok .committed) => some request.publication
  | _ => none

def relationPublications (log : List Event) : List IngestPublication :=
  log.filterMap Event.publication

/-- The relation reservation that an event was answered to have made, and under which key. -/
def Event.relationReservation : Event → Option AuthorizedReservation
  | .reserveRelationAuthoritativeIngestRange request (.ok .reserved) =>
    some (request.authority.key, request.reservation)
  | _ => none

def relationReservations (log : List Event) : List AuthorizedReservation :=
  log.filterMap Event.relationReservation

/-- What the tables of relation ingest say of a run. -/
structure LedgerOf (log : List Event) (state : InMemoryMetaState) : Prop where
  filed : Filed state
  tokens : ∀ key token, state.relationPartitionAuthorities.lookup key = some token →
    token.isFor "relation_id" key
  authorized : ∀ range key, state.relationAuthorityReservationKeys.lookup range = some key →
    (key, range) ∈ relationReservations log ∧ key.overRelation range = true ∧
      range ∈ state.relationReservationsAt range.slot
  logged : ∀ requestId publication,
    state.relationAuthoritativeIngestPublications.lookup requestId = some publication →
      publication ∈ relationPublications log
  valid : ∀ publication ∈ relationPublications log, ∃ request : PublishReservationRequest,
    request.publication = publication ∧ request.validateRelation = .ok ()
  published : ∀ requestId publication,
    state.relationAuthoritativeIngestPublications.lookup requestId = some publication →
      publication.requestId = requestId ∧
      state.relationReservationPublications.lookup publication.reservation = some requestId ∧
      state.relationAuthorityReservationKeys.lookup publication.reservation =
        some publication.authorityKey
  recorded : ∀ publication ∈ relationPublications log,
    state.relationAuthoritativeIngestPublications.lookup publication.requestId = some publication
  once : (relationPublications log).Pairwise fun a b =>
    a.requestId ≠ b.requestId ∧ a.reservation ≠ b.reservation

section Steps
variable {external : External} {state next : InMemoryMetaState} {e : Event} {log : List Event}

@[simp]
theorem relationPublications_snoc (log : List Event) (e : Event) :
    relationPublications (log ++ [e]) = relationPublications log ++ e.publication.toList := by
  rw [relationPublications, filterMap_append]
  cases h : e.publication <;> simp [relationPublications, h]

theorem relationReservations_mono {ent : AuthorizedReservation} (e : Event)
    (h : ent ∈ relationReservations log) : ent ∈ relationReservations (log ++ [e]) := by
  rw [relationReservations, filterMap_append]
  exact mem_append_left _ h

/-- A step that leaves the tables of relation ingest alone. -/
theorem LedgerOf.keep (h : LedgerOf log state) (hf : Filed next) (hpub : e.publication = none)
    (ht : ∀ key t, next.relationPartitionAuthorities.lookup key = some t →
      t.isFor "relation_id" key) (hr : next.relationReservationsAt = state.relationReservationsAt)
    (hk : next.relationAuthorityReservationKeys = state.relationAuthorityReservationKeys)
    (hpublications : ∀ rid, next.relationAuthoritativeIngestPublications.lookup rid =
        state.relationAuthoritativeIngestPublications.lookup rid)
    (hp : next.relationReservationPublications = state.relationReservationPublications) :
    LedgerOf (log ++ [e]) next := by
  have hs : relationPublications (log ++ [e]) = relationPublications log := by
    rw [relationPublications_snoc, hpub]
    exact append_nil _
  refine ⟨hf, ht, ?_, ?_, ?_, ?_, ?_, ?_⟩
  · intro r key hl
    rw [hk] at hl
    rw [hr]
    obtain ⟨hmem, hrest⟩ := h.authorized r key hl
    exact ⟨relationReservations_mono e hmem, hrest⟩
  · intro rid publication hl
    rw [hpublications] at hl
    rw [hs]
    exact h.logged rid publication hl
  · rw [hs]
    exact h.valid
  · intro rid publication hl
    rw [hpublications] at hl
    rw [hp, hk]
    exact h.published rid publication hl
  · intro publication hmem
    rw [hs] at hmem
    rw [hpublications]
    exact h.recorded publication hmem
  · rw [hs]
    exact h.once

theorem publication_of_refused (h : e.Refused) : e.publication = none := by
  unfold Event.publication
  split
  · exact absurd rfl h
  · rfl

/-- One more reservation, of a range that was not reserved. -/
theorem LedgerOf.reserve (h : LedgerOf log state) {request : ReserveAuthoritativeRequest}
    (hv : request.validateRelation = .ok ()) (hf : Filed next)
    (hnew : state.relationAuthorityReservationKeys.lookup request.reservation = none)
    (hn : next = { withRelationReservation state request.reservation with
      relationAuthorityReservationKeys := state.relationAuthorityReservationKeys.insert
        request.reservation request.authority.key }) :
    LedgerOf (log ++ [.reserveRelationAuthoritativeIngestRange request (.ok .reserved)]) next := by
  have hs : relationPublications
      (log ++ [.reserveRelationAuthoritativeIngestRange request (.ok .reserved)]) =
        relationPublications log := by
    rw [relationPublications_snoc]
    exact append_nil _
  subst hn
  refine ⟨hf, h.tokens, ?_, ?_, ?_, ?_, ?_, ?_⟩
  · intro r key hl
    rcases of_lookup_insert hl with ⟨rfl, rfl⟩ | hl
    · obtain ⟨-, -, hscope⟩ := by
        unfold ReserveAuthoritativeRequest.validateRelation at hv
        simpa only [checks_ok] using hv
      refine ⟨?_, require_ok hscope, mem_relationReservationsAt_push.mpr (.inr ⟨rfl, rfl⟩)⟩
      rw [relationReservations, filterMap_append]
      exact mem_append_right _ (mem_singleton.mpr rfl)
    · obtain ⟨hmem, hscope, hh⟩ := h.authorized r key hl
      exact ⟨relationReservations_mono _ hmem, hscope,
        mem_relationReservationsAt_push.mpr (.inl hh)⟩
  · intro rid publication hl
    rw [hs]
    exact h.logged rid publication hl
  · rw [hs]
    exact h.valid
  · intro rid publication hl
    obtain ⟨hid, hr, hk⟩ := h.published rid publication hl
    exact ⟨hid, hr, lookup_insert_of_some hnew hk⟩
  · intro publication hmem
    rw [hs] at hmem
    exact h.recorded publication hmem
  · rw [hs]
    exact h.once

/-- One more publication, under a request id that was not used, of a range that was reserved
under the same authority and not published yet. -/
theorem LedgerOf.publish (h : LedgerOf log state) (hv : request.validateRelation = .ok ())
    (hf : Filed next)
    (hnew : state.relationAuthoritativeIngestPublications.lookup request.requestId = none)
    (ho : ∀ rid, state.relationReservationPublications.lookup request.reservation = some rid →
        rid = request.requestId)
    (hr : state.relationAuthorityReservationKeys.lookup request.reservation =
      some request.authority.key)
    (hn : next = { state with
      relationAuthoritativeIngestPublications :=
        state.relationAuthoritativeIngestPublications.insert request.requestId request.publication
      relationReservationPublications := state.relationReservationPublications.insert
        request.reservation request.requestId }) :
    LedgerOf (log ++ [.publishRelationIngestReservation request (.ok .committed)]) next := by
  have hfresh (rid : String) (publication : IngestPublication)
      (hl : state.relationAuthoritativeIngestPublications.lookup rid = some publication) :
      rid ≠ request.requestId ∧ publication.reservation ≠ request.reservation := by
    have hid : rid ≠ request.requestId := by
      rintro rfl
      rw [hnew] at hl
      cases hl
    refine ⟨hid, ?_⟩
    intro hs
    obtain ⟨-, hp, -⟩ := h.published rid publication hl
    rw [hs] at hp
    exact hid (ho rid hp)
  have hsnoc : relationPublications
      (log ++ [.publishRelationIngestReservation request (.ok .committed)]) =
        relationPublications log ++ [request.publication] := relationPublications_snoc _ _
  subst hn
  refine ⟨hf, h.tokens, ?_, ?_, ?_, ?_, ?_, ?_⟩
  · intro r key hl
    obtain ⟨hmem, hrest⟩ := h.authorized r key hl
    exact ⟨relationReservations_mono _ hmem, hrest⟩
  · intro rid publication hl
    rw [hsnoc, mem_append, mem_singleton]
    rcases of_lookup_insert hl with ⟨-, rfl⟩ | hl
    · exact .inr rfl
    · exact .inl (h.logged rid publication hl)
  · intro publication hmem
    rw [hsnoc, mem_append, mem_singleton] at hmem
    rcases hmem with hmem | rfl
    · exact h.valid publication hmem
    · exact ⟨request, rfl, hv⟩
  · intro rid publication hl
    rcases of_lookup_insert hl with ⟨rfl, rfl⟩ | hl
    · exact ⟨rfl, lookup_insert _, hr⟩
    · obtain ⟨hid, hp, hk⟩ := h.published rid publication hl
      refine ⟨hid, ?_, hk⟩
      rw [← hp]
      exact lookup_insert_ne (hfresh rid publication hl).2
  · intro publication hmem
    rw [hsnoc, mem_append, mem_singleton] at hmem
    rcases hmem with hmem | rfl
    · exact lookup_insert_of_some hnew (h.recorded publication hmem)
    · exact lookup_insert _
  · rw [hsnoc, pairwise_append]
    refine ⟨h.once, pairwise_singleton _ _, ?_⟩
    intro publication hmem new hnm
    rw [mem_singleton.mp hnm]
    exact hfresh _ publication (h.recorded publication hmem)

theorem LedgerOf.step (h : LedgerOf log state) (heffect : Effect external state e next) :
    LedgerOf (log ++ [e]) next := by
  have hf := h.filed.step heffect
  cases heffect with
  | refused hrefused =>
    exact h.keep hf (publication_of_refused hrefused) h.tokens rfl rfl (fun _ => rfl) rfl
  | relationAuthority t ht hrank hres =>
    refine h.keep hf rfl ?_ rfl rfl (fun _ => rfl) rfl
    intro key found hl
    rcases of_lookup_insert hl with ⟨rfl, rfl⟩ | hl
    · exact ht (h.tokens _)
    · exact h.tokens key found hl
  | reservedRelation hv hc hlive hnew hlegacy hrel hlk hrk =>
    exact h.reserve hv hf hnew rfl
  | publishedRelation hv hc hlive hnew ho hr =>
    exact h.publish hv hf hnew ho hr rfl
  | rehashed hrehash =>
    have hrest := hrehash.rest
    refine h.keep hf rfl ?_ (relationReservationsAt_rehashed hrehash) ?_ ?_ ?_
    · rw [hrest]
      exact h.tokens
    · rw [hrest]
    · intro rid
      exact (hrehash.relationPublications.lookup_eq rid).symm
    · rw [hrest]
  | owned he hscope hm | activated control he hold hs =>
    refine h.keep hf ?_ h.tokens rfl rfl (fun _ => rfl) rfl
    cases e <;> first | rfl | cases he
  | _ => exact h.keep hf rfl h.tokens rfl rfl (fun _ => rfl) rfl

theorem ledger_of_trace (h : Trace (Step external) {} log state) : LedgerOf log state := by
  apply h.invariant (P := LedgerOf)
  · refine ⟨filed_empty, ?_, ?_, ?_, ?_, ?_, ?_, List.Pairwise.nil⟩
    · intro key t hl
      cases hl
    · intro r key hl
      cases hl
    · intro rid publication hl
      cases hl
    · exact fun _ hmem => absurd hmem not_mem_nil
    · intro rid publication hl
      cases hl
    · exact fun _ hmem => absurd hmem not_mem_nil
  · intro log state e next hledger hstep
    exact hledger.step (effect_of_step hstep)

end Steps

section Authorities
variable {external : External} {state next : InMemoryMetaState} {e : Event} {log : List Event}
  {key : AuthorityKey} {t : AuthorityToken}

theorem authority_step (hstep : Step external state e next)
    (hl : state.relationPartitionAuthorities.lookup key = some t) :
    ∃ t', next.relationPartitionAuthorities.lookup key = some t' ∧
      t.ownerEpoch ≤ t'.ownerEpoch := by
  cases effect_of_step hstep with
  | relationAuthority t' ht hrank hres =>
    rename_i request explicitReacquire result
    show ∃ token'', (state.relationPartitionAuthorities.insert request.key t').lookup key =
      some token'' ∧ _
    rw [lookup_insert_eq]
    split_ifs with hk
    · subst hk
      refine ⟨t', rfl, ?_⟩
      rcases hrank t hl with hlt | ⟨heq, -⟩
      · exact hlt.le
      · exact heq.le
    · exact ⟨t, hl, le_rfl⟩
  | rehashed hrehash =>
    rw [hrehash.rest]
    exact ⟨t, hl, le_rfl⟩
  | _ => exact ⟨t, hl, le_rfl⟩

theorem authority_of_committed (hstep : Step external state e next)
    (he : e = .publishRelationIngestReservation request (.ok .committed)) :
    state.relationPartitionAuthorities.lookup request.authority.key = some request.authority ∧
    state.partitionAuthorityNowUnixMs < request.authority.expiresAtUnixMs ∧
    state.relationAuthorityReservationKeys.lookup request.reservation =
      some request.authority.key := by
  subst he
  cases effect_of_step hstep with
  | refused hrefused => exact absurd rfl hrefused
  | publishedRelation hv hc hlive hnew ho hr =>
    exact ⟨hc, hlive, hr⟩
  | owned he hscope hm | activated control he hold hs => cases he

theorem authority_run (ht : Trace (Step external) state log next)
    (hl : state.relationPartitionAuthorities.lookup key = some t) :
    (∃ t', next.relationPartitionAuthorities.lookup key = some t' ∧ t.ownerEpoch ≤ t'.ownerEpoch) ∧
    ∀ request : PublishReservationRequest,
      .publishRelationIngestReservation request (.ok .committed) ∈ log →
      request.authority.key = key → t.ownerEpoch ≤ request.authority.ownerEpoch := by
  induction ht with
  | nil => exact ⟨⟨t, hl, le_rfl⟩, fun _ hmem => absurd hmem not_mem_nil⟩
  | snoc _ hstep ih =>
    obtain ⟨⟨current, hc, hle⟩, hb⟩ := ih
    constructor
    · obtain ⟨t', hl', hle'⟩ := authority_step hstep hc
      exact ⟨t', hl', hle.trans hle'⟩
    · intro request hmem hk
      rcases mem_append.mp hmem with hmem | hmem
      · exact hb request hmem hk
      · have hh := (authority_of_committed hstep (mem_singleton.mp hmem).symm).1
        rw [hk, hc] at hh
        rw [← Option.some.inj hh]
        exact hle

end Authorities

/-- The tables remember every reservation that was made, and which publication a published
range has. -/
structure ReservedOf (log : List Event) (state : InMemoryMetaState) : Prop where
  reserved : ∀ request : ReserveAuthoritativeRequest,
    .reserveRelationAuthoritativeIngestRange request (.ok .reserved) ∈ log →
      request.validateRelation = .ok () ∧
      state.relationAuthorityReservationKeys.lookup request.reservation =
        some request.authority.key
  traced : ∀ range requestId,
    state.relationReservationPublications.lookup range = some requestId →
      ∃ publication,
        state.relationAuthoritativeIngestPublications.lookup requestId = some publication ∧
        publication.reservation = range

section Reserved
variable {external : External} {state next : InMemoryMetaState} {e : Event} {log : List Event}

theorem ReservedOf.keep (h : ReservedOf log state)
    (he : ∀ request, e ≠ .reserveRelationAuthoritativeIngestRange request (.ok .reserved))
    (hk : next.relationAuthorityReservationKeys = state.relationAuthorityReservationKeys)
    (hpublications : ∀ rid, next.relationAuthoritativeIngestPublications.lookup rid =
        state.relationAuthoritativeIngestPublications.lookup rid)
    (hp : next.relationReservationPublications = state.relationReservationPublications) :
    ReservedOf (log ++ [e]) next := by
  constructor
  · intro request hmem
    rw [hk]
    rcases mem_append.mp hmem with hmem | hmem
    · exact h.reserved request hmem
    · exact absurd (mem_singleton.mp hmem).symm (he request)
  · intro r rid hl
    rw [hp] at hl
    rw [hpublications]
    exact h.traced r rid hl

theorem ReservedOf.step (h : ReservedOf log state) (heffect : Effect external state e next) :
    ReservedOf (log ++ [e]) next := by
  cases heffect with
  | refused hrefused =>
    refine h.keep ?_ rfl (fun _ => rfl) rfl
    rintro request rfl
    exact hrefused rfl
  | owned he hscope hm | activated control he hold hs =>
    refine h.keep ?_ rfl (fun _ => rfl) rfl
    rintro request rfl
    cases he
  | reservedRelation hv hc hlive hnew hlegacy hrel hlk hrk =>
    rename_i request
    refine ⟨?_, h.traced⟩
    intro request' hmem
    rcases mem_append.mp hmem with hmem | hmem
    · obtain ⟨hv', hl⟩ := h.reserved request' hmem
      exact ⟨hv', lookup_insert_of_some hnew hl⟩
    · cases mem_singleton.mp hmem
      exact ⟨hv, lookup_insert _⟩
  | publishedRelation hv hc hlive hnew ho hr =>
    rename_i request
    constructor
    · intro request' hmem
      rcases mem_append.mp hmem with hmem | hmem
      · exact h.reserved request' hmem
      · cases mem_singleton.mp hmem
    · intro r rid hl
      rcases of_lookup_insert hl with ⟨rfl, rfl⟩ | hl
      · exact ⟨request.publication, lookup_insert _, rfl⟩
      · obtain ⟨publication, hf, hs⟩ := h.traced r rid hl
        exact ⟨publication, lookup_insert_of_some hnew hf, hs⟩
  | rehashed hrehash =>
    have hrest := hrehash.rest
    refine h.keep nofun ?_ (fun rid =>
      (hrehash.relationPublications.lookup_eq rid).symm) ?_
    · rw [hrest]
    · rw [hrest]
  | _ => exact h.keep nofun rfl (fun _ => rfl) rfl

theorem reserved_of_trace (h : Trace (Step external) {} log state) : ReservedOf log state := by
  apply h.invariant (P := ReservedOf)
  · refine ⟨fun _ hmem => absurd hmem not_mem_nil, ?_⟩
    intro r rid hl
    cases hl
  · intro log state e next hr hstep
    exact hr.step (effect_of_step hstep)

end Reserved

section Guarantees
variable {external : External} {state next : InMemoryMetaState} {log : List Event}

/-- The reservations and the publications of the state agree. -/
theorem LedgerOf.consistent (h : LedgerOf log state) :
    Consistent state.authorizedReservations
      state.relationAuthoritativeIngestPublications.values := by
  have he (ent : AuthorizedReservation) (hmem : ent ∈ state.authorizedReservations) :
      state.relationAuthorityReservationKeys.lookup ent.2 = some ent.1 := by
    obtain ⟨r, -, hm⟩ := mem_filterMap.mp hmem
    obtain ⟨key, hk, rfl⟩ := Option.map_eq_some_iff.mp hm
    exact hk
  constructor
  · intro ent hmem
    have hh := (h.authorized ent.2 ent.1 (he ent hmem)).2.2
    exact (h.filed.relation.valid _ ent.2 hh).2
  · intro ent hmem
    exact (h.authorized ent.2 ent.1 (he ent hmem)).2.1
  · unfold InMemoryMetaState.authorizedReservations
    rw [pairwise_filterMap]
    apply (apart_flatten_values h.filed.relation).imp
    intro a b hab ent he ent' he'
    obtain ⟨key, -, rfl⟩ := Option.map_eq_some_iff.mp he
    obtain ⟨key', -, rfl⟩ := Option.map_eq_some_iff.mp he'
    exact hab
  · intro publication hmem
    obtain ⟨rid, hl⟩ := mem_values_iff.mp hmem
    obtain ⟨-, -, hk⟩ := h.published rid publication hl
    have hh := (h.authorized _ _ hk).2.2
    exact mem_filterMap.mpr ⟨publication.reservation,
      mem_flatten_values.mpr ⟨_, hh⟩, Option.map_eq_some_iff.mpr ⟨_, hk, rfl⟩⟩
  · unfold HashMap.values
    rw [pairwise_map]
    apply (nodupKeys_iff_pairwise.mp
      state.relationAuthoritativeIngestPublications.nodupKeys).imp_of_mem
    rintro ⟨rid, publication⟩ ⟨rid', publication'⟩ hmem hmem' hne hs
    have hp := h.published rid publication (mem_lookup_iff.mpr hmem)
    have hp' := h.published rid' publication' (mem_lookup_iff.mpr hmem')
    have hs : publication.reservation = publication'.reservation := hs
    have hl := hp.2.1
    rw [hs, hp'.2.1] at hl
    exact hne (Option.some.inj hl).symm

theorem LedgerOf.apart (h : LedgerOf log state) {a b : IngestRangeReservation}
    {key key' : AuthorityKey} (ha : state.relationAuthorityReservationKeys.lookup a = some key)
    (hb : state.relationAuthorityReservationKeys.lookup b = some key') (hne : a ≠ b)
    (hs : a.slot = b.slot) : a.overlaps b = false := by
  have hh := (h.authorized a key ha).2.2
  have hh' := (h.authorized b key' hb).2.2
  rw [hs] at hh
  have : Std.Symm Apart := ⟨fun _ _ => Apart.symm⟩
  exact (h.filed.relation.apart b.slot).forall hh hh' hne hs

theorem validateRelation_of_publication {retry : PublishReservationRequest}
    (hv : request.validateRelation = .ok ()) (hs : retry.publication = request.publication)
    (ht : retry.authority.validate "relation_id" = .ok ()) : retry.validateRelation = .ok () := by
  obtain ⟨r, t, rid, digest, objectKey, objectDigest⟩ := request
  obtain ⟨r', t', rid', digest', objectKey', objectDigest'⟩ := retry
  simp only [PublishReservationRequest.publication, IngestPublication.mk.injEq] at hs
  obtain ⟨rfl, hk, rfl, rfl, rfl, rfl⟩ := hs
  unfold PublishReservationRequest.validateRelation
    PublishReservationRequest.validateFields at hv ⊢
  simp only [checks_ok] at hv ht ⊢
  obtain ⟨⟨hr, -, hrest⟩, hscope⟩ := hv
  rw [hk]
  exact ⟨⟨hr, ht, hrest⟩, hscope⟩

theorem isOk_of_current {auth : AuthorityToken} {now : UInt64}
    (hlive : now < auth.expiresAtUnixMs) :
    (validateCurrentAuthority (some auth) auth now).isOk = true := by
  unfold validateCurrentAuthority require
  simp [not_le.mpr hlive]
  rfl

theorem LedgerOf.retry (h : LedgerOf log state)
    (hp : request.publication ∈ relationPublications log)
    (hc : state.relationPartitionAuthorities.lookup request.authority.key = some request.authority)
    (hlive : state.partitionAuthorityNowUnixMs < request.authority.expiresAtUnixMs) :
    state.publishRelationIngestReservation request = (state, .ok .duplicate) := by
  obtain ⟨original, hs, hv⟩ := h.valid _ hp
  have hretry := validateRelation_of_publication hv hs.symm
    (h.tokens _ _ hc).2
  have hr : state.relationAuthoritativeIngestPublications.lookup request.requestId =
      some request.publication := h.recorded _ hp
  unfold InMemoryMetaState.publishRelationIngestReservation guarded
  rw [hretry]
  dsimp only
  rw [hc, isOk_of_current hlive, if_neg (by decide), hr]
  exact if_pos rfl

/-- What holds of relation ingest after any run. -/
structure RelationIngestSound (external : External) (log : List Event)
    (state : InMemoryMetaState) : Prop where
  once : (relationPublications log).Pairwise fun a b =>
    a.requestId ≠ b.requestId ∧ a.reservation ≠ b.reservation
  logged : ∀ requestId publication,
    state.relationAuthoritativeIngestPublications.lookup requestId = some publication →
      publication.requestId = requestId ∧ publication ∈ relationPublications log
  unchanged : ∀ publication ∈ relationPublications log,
    state.relationAuthoritativeIngestPublications.lookup publication.requestId = some publication
  authorized : ∀ request next,
    Step external state (.publishRelationIngestReservation request (.ok .committed)) next →
      state.relationPartitionAuthorities.lookup request.authority.key = some request.authority ∧
      state.partitionAuthorityNowUnixMs < request.authority.expiresAtUnixMs ∧
      (request.authority.key, request.reservation) ∈ relationReservations log
  retried : ∀ request : PublishReservationRequest,
    request.publication ∈ relationPublications log →
    state.relationPartitionAuthorities.lookup request.authority.key = some request.authority →
    state.partitionAuthorityNowUnixMs < request.authority.expiresAtUnixMs →
      state.publishRelationIngestReservation request = (state, .ok .duplicate)
  captured : ∀ request error, request.validate = .ok () →
    state.captureRelationIngestSourceCuts request = .error error → error.IsIncomplete

theorem relation_ingest_sound (h : Trace (Step external) {} log state) :
    RelationIngestSound external log state := by
  have hledger := ledger_of_trace h
  constructor
  · exact hledger.once
  · intro requestId publication hlookup
    exact ⟨(hledger.published requestId publication hlookup).1,
      hledger.logged requestId publication hlookup⟩
  · exact hledger.recorded
  · intro request next hstep
    obtain ⟨hcurrent, hlive, hreserved⟩ := authority_of_committed hstep rfl
    exact ⟨hcurrent, hlive, (hledger.authorized _ _ hreserved).1⟩
  · intro request hpublished hcurrent hlive
    exact hledger.retry hpublished hcurrent hlive
  · intro request error hvalid hcapture
    rcases Result.bind_eq_error.mp hcapture with hinvalid | ⟨⟨⟩, -, hbuild⟩
    · rw [hvalid] at hinvalid
      cases hinvalid
    · exact buildRelationIngestSourceCuts_error hledger.consistent hvalid hbuild

end Guarantees

section Published

def publishRequest : PublishReservationRequest :=
  ⟨rangeOf 0 10 "k", writerToken, "q", "d", "o", "e"⟩

def relationPublished : Answer PublishIngestReservationOutcome :=
  relationReserved.1.publishRelationIngestReservation publishRequest

def publishedLog : List Event :=
  [.acquireRelationPartitionAuthority writerRequest false writerAcquired.2,
    .reserveRelationAuthoritativeIngestRange ⟨rangeOf 0 10 "k", writerToken⟩ relationReserved.2,
    .publishRelationIngestReservation publishRequest relationPublished.2]

theorem publishedLog_sound :
    relationPublications publishedLog = [publishRequest.publication] ∧
      RelationIngestSound plainExternal publishedLog relationPublished.1 := by
  refine ⟨by decide +kernel, ?_⟩
  have htrace : Trace (Step plainExternal) {} publishedLog relationPublished.1 :=
    ((Trace.nil.snoc (.acquireRelationPartitionAuthority
      (Prod.mk.eta (p := writerAcquired)).symm)).snoc (.reserveRelationAuthoritativeIngestRange
      (Prod.mk.eta (p := relationReserved)).symm)).snoc (.publishRelationIngestReservation
      (Prod.mk.eta (p := relationPublished)).symm)
  exact relation_ingest_sound htrace

end Published

end Velorix.Meta
