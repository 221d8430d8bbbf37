import Velorix.Meta.Machine

/-! What a request can do to the state: one effect for each way in which it may write, and the
requests that were refused. -/
namespace Velorix.Meta

open InMemoryMetaState

/-- The request returned without having done anything. -/
@[simp] def Event.Refused : Event → Prop
  | .acquireStandingRuntimeOwner _ _ result => ∀ claim, result ≠ .ok (.acquired claim) ∧
      result ≠ .ok (.renewed claim)
  | .acquireStandingRuntimeOwnerWithEndpoint _ _ _ result => ∀ claim,
      result ≠ .ok (.acquired claim) ∧ result ≠ .ok (.renewed claim)
  | .reacquireStandingRuntimeOwner _ _ result => ∀ claim, result ≠ .ok (.acquired claim)
  | .renewStandingRuntimeOwner _ _ _ result => ∀ claim, result ≠ .ok claim
  | .publishStandingRuntimeCheckpoint _ _ result => result ≠ .ok .published
  | .acquirePartitionAuthority _ _ => True
  | .acquireRelationPartitionAuthority _ _ result => ∀ token, result ≠ .ok (.acquired token) ∧
      result ≠ .ok (.renewed token)
  | .reserveIngestRange _ result => result ≠ .ok .reserved
  | .reserveAuthoritativeIngestRange _ result => result ≠ .ok .reserved
  | .reserveRelationAuthoritativeIngestRange _ result => result ≠ .ok .reserved
  | .commitIngestRange _ result => result ≠ .ok .committed
  | .commitIngestRanges _ result => ∀ outcomes, result = .ok outcomes → .committed ∉ outcomes
  | .publishIngestReservation _ result => result ≠ .ok .committed
  | .publishRelationIngestReservation _ result => result ≠ .ok .committed
  | .beginViewBootstrap _ result => ∀ control, result ≠ .ok (.created control)
  | .fixViewBootstrapActivationCut _ _ result => ∀ control, result ≠ .ok (.fixed control)
  | .promoteViewBootstrap _ _ result => ∀ control, result ≠ .ok (.promoted control)
  | .promoteViewBootstrapWithActiveViewRecord _ _ _ result =>
      ∀ control, result ≠ .ok (.promoted control)
  | .partitionAuthorityClock _ => False
  | .rehashed => False

/-- A request about owners that may write a claim. -/
def Event.concernsOwner : Event → Bool
  | .acquireStandingRuntimeOwner .. => true
  | .acquireStandingRuntimeOwnerWithEndpoint .. => true
  | .reacquireStandingRuntimeOwner .. => true
  | .renewStandingRuntimeOwner .. => true
  | _ => false

/-- A request that may activate a bootstrap. -/
def Event.concernsActivation : Event → Bool
  | .fixViewBootstrapActivationCut .. => true
  | .promoteViewBootstrap .. => true
  | .promoteViewBootstrapWithActiveViewRecord .. => true
  | _ => false

/-- The claim may replace the current one: a new owner comes with a new epoch. -/
def Supersedes (claim : StandingRuntimeOwnerClaim) (current : Option StandingRuntimeOwnerClaim) :
    Prop :=
  ∀ old, current = some old → old.ownerEpoch ≤ claim.ownerEpoch ∧
    (old.ownerEpoch = claim.ownerEpoch → old.ownerId = claim.ownerId)

def Outranks (token : AuthorityToken) (current : Option AuthorityToken) : Prop :=
  ∀ old, current = some old → old.ownerEpoch < token.ownerEpoch ∨
    (old.ownerEpoch = token.ownerEpoch ∧ old.ownerId = token.ownerId)

def AuthorityToken.isFor (subjectField : String) (key : AuthorityKey) (token : AuthorityToken) :
    Prop :=
  token.key = key ∧ token.validate subjectField = .ok ()

inductive Effect (external : External) (state : InMemoryMetaState) :
    Event → InMemoryMetaState → Prop
  | refused {event} (h : event.Refused) : Effect external state event state
  | owned {event scope claim} (hevent : event.concernsOwner = true)
      (hscope : claim.scope = scope)
      (hmove : Supersedes claim (state.standingRuntimeOwners.lookup scope)) :
      Effect external state event (state.storeClaim scope claim)
  | published {now request} (hvalid : request.validate external = .ok ())
      (howner : ∃ claim, state.standingRuntimeOwners.lookup request.candidate.scope = some claim ∧
        claim.token = request.owner)
      (hnew : state.standingRuntimeCheckpoints.lookup request.candidate.scope ≠
        some request.candidate)
      (hprevious : state.standingRuntimeCheckpoints.lookup request.candidate.scope =
        request.expectedPrevious)
      (hprogress : progressFollows request.expectedPrevious request.candidate) :
      Effect external state (.publishStandingRuntimeCheckpoint now request (.ok .published))
        { state with
          standingRuntimeCheckpoints := state.standingRuntimeCheckpoints.insert
            request.candidate.scope request.candidate }
  | partitionAuthority {request result} (authorities : HashMap AuthorityKey AuthorityToken) :
      Effect external state (.acquirePartitionAuthority request result)
        { state with partitionAuthorities := authorities }
  | relationAuthority {request explicitReacquire result} (token : AuthorityToken)
      (htoken : (∀ old, state.relationPartitionAuthorities.lookup request.key = some old →
        old.isFor "relation_id" request.key) → token.isFor "relation_id" request.key)
      (hrank : Outranks token (state.relationPartitionAuthorities.lookup request.key))
      (hresult : result = .ok (.acquired token) ∨ result = .ok (.renewed token)) :
      Effect external state (.acquireRelationPartitionAuthority request explicitReacquire result)
        { state with
          relationPartitionAuthorities :=
            state.relationPartitionAuthorities.insert request.key token }
  | reserved {reservation epoch} (hvalid : reservation.validate = .ok ())
      (hseal : state.belowSealedBase reservation = false)
      (hfresh : (state.reservationsAt reservation.slot).any (·.overlaps reservation) = false)
      (hepoch : state.ingestCatalogEpoch < epoch) :
      Effect external state (.reserveIngestRange reservation (.ok .reserved))
        { state.pushReservation reservation with ingestCatalogEpoch := epoch }
  | overflowed {reservation} (hvalid : reservation.validate = .ok ())
      (hseal : state.belowSealedBase reservation = false)
      (hfresh : (state.reservationsAt reservation.slot).any (·.overlaps reservation) = false)
      (hepoch : state.ingestCatalogEpoch.checkedAdd 1 = none) :
      Effect external state (.reserveIngestRange reservation (.error .timestampOverflow))
        (state.pushReservation reservation)
  | reservedAuthoritative {request} (hvalid : request.reservation.validate = .ok ())
      (hfresh : (state.reservationsAt request.reservation.slot).any
        (·.overlaps request.reservation) = false) :
      Effect external state (.reserveAuthoritativeIngestRange request (.ok .reserved))
        { state.pushReservation request.reservation with
          authoritativeIngestReservationKeys := state.authoritativeIngestReservationKeys.insert
            request.reservation request.authority.key }
  | reservedRelation {request} (hvalid : request.validateRelation = .ok ())
      (hcurrent : state.relationPartitionAuthorities.lookup request.authority.key =
        some request.authority)
      (hlive : state.partitionAuthorityNowUnixMs < request.authority.expiresAtUnixMs)
      (hnew : state.relationAuthorityReservationKeys.lookup request.reservation = none)
      (hlegacy : (state.reservationsAt request.reservation.slot).any
        (·.overlaps request.reservation) = false)
      (hrelation : (state.relationReservationsAt request.reservation.slot).any
        (·.overlaps request.reservation) = false)
      (hlegacyKey : state.legacyBatchKeys.lookup request.reservation.batchKey = none)
      (hrelationKey : state.relationBatchKeys.lookup request.reservation.batchKey = none) :
      Effect external state (.reserveRelationAuthoritativeIngestRange request (.ok .reserved))
        { state with
          relationBatchKeys := state.relationBatchKeys.insert request.reservation.batchKey
            request.reservation
          relationIngestReservations := state.relationIngestReservations.insert
            request.reservation.slot
            (state.relationReservationsAt request.reservation.slot ++ [request.reservation])
          relationAuthorityReservationKeys := state.relationAuthorityReservationKeys.insert
            request.reservation request.authority.key }
  | committed {reservation} (hreserved : reservation ∈ state.reservationsAt reservation.slot) :
      Effect external state (.commitIngestRange reservation (.ok .committed))
        { state with
          committedIngestBatchKeys :=
            insert reservation.batchKey state.committedIngestBatchKeys }
  | committedAll {reservations outcomes}
      (hreserved : ∀ reservation ∈ reservations,
        reservation ∈ state.reservationsAt reservation.slot)
      (houtcomes : outcomes =
        (commitAll state.committedIngestBatchKeys reservations).2) :
      Effect external state (.commitIngestRanges reservations (.ok outcomes))
        { state with
          committedIngestBatchKeys :=
            (commitAll state.committedIngestBatchKeys reservations).1 }
  | publishedReservation {request}
      (hreserved : request.reservation ∈ state.reservationsAt request.reservation.slot) :
      Effect external state (.publishIngestReservation request (.ok .committed))
        { state with
          committedIngestBatchKeys :=
            insert request.reservation.batchKey state.committedIngestBatchKeys
          authoritativeIngestPublications := state.authoritativeIngestPublications.insert
            request.requestId request.publication }
  | publishedRelation {request} (hvalid : request.validateRelation = .ok ())
      (hcurrent : state.relationPartitionAuthorities.lookup request.authority.key =
        some request.authority)
      (hlive : state.partitionAuthorityNowUnixMs < request.authority.expiresAtUnixMs)
      (hnew : state.relationAuthoritativeIngestPublications.lookup request.requestId = none)
      (honce : ∀ requestId,
        state.relationReservationPublications.lookup request.reservation = some requestId →
          requestId = request.requestId)
      (hreserved : state.relationAuthorityReservationKeys.lookup request.reservation =
        some request.authority.key) :
      Effect external state (.publishRelationIngestReservation request (.ok .committed))
        { state with
          relationAuthoritativeIngestPublications :=
            state.relationAuthoritativeIngestPublications.insert request.requestId
              request.publication
          relationReservationPublications := state.relationReservationPublications.insert
            request.reservation request.requestId }
  | began {request cut} (revisions : HashMap String UInt64)
      (hnew : state.viewBootstraps.lookup request.scope = none)
      (hcut : state.buildCut request.relations = .ok cut) :
      Effect external state
        (.beginViewBootstrap request (.ok (.created (bootstrapControl request cut))))
        { state with
          viewBootstraps :=
            state.viewBootstraps.insert request.scope (bootstrapControl request cut)
          viewDependencyGraphRevisions := revisions }
  | unbuilt {request error} (revisions : HashMap String UInt64) :
      Effect external state (.beginViewBootstrap request (.error error))
        { state with viewDependencyGraphRevisions := revisions }
  | activated {event scope control} (control' : ViewBootstrapControlV1)
      (hevent : event.concernsActivation = true)
      (hold : state.viewBootstraps.lookup scope = some control)
      (hsame : control'.bootstrapCut = control.bootstrapCut) :
      Effect external state event
        { state with viewBootstraps := state.viewBootstraps.insert scope control' }
  | clock (now : UInt64) : Effect external state (.partitionAuthorityClock now)
      { state with partitionAuthorityNowUnixMs := now }
  | rehashed {next} (h : Rehashed state next) : Effect external state .rehashed next

/-- A request ends in a state and with a result that are related by `P`. -/
def Answer.Ends {β : Type} (answer : Answer β)
    (P : InMemoryMetaState → Except MetaStoreError β → Prop) : Prop :=
  P answer.1 answer.2

section Guards
variable {α β : Type} {s next : InMemoryMetaState} {result : Except MetaStoreError β}
  {P : InMemoryMetaState → Except MetaStoreError β → Prop}

theorem Answer.Ends.of_eq {answer : Answer β} (h : answer.Ends P)
    (ha : answer = (next, result)) : P next result := by
  subst ha
  exact h

theorem ends_guarded {check : Except MetaStoreError α} {proceed : α → Answer β}
    (hf : ∀ error, P s (.error error))
    (h : ∀ a, check = .ok a → (proceed a).Ends P) : (guarded s check proceed).Ends P := by
  cases check with
  | error error => exact hf error
  | ok a => exact h a rfl

theorem checks_ok {first : Except MetaStoreError Unit} {rest : Unit → Except MetaStoreError α}
    {a : α} : (first >>= rest) = .ok a ↔ first = .ok () ∧ rest () = .ok a := by
  constructor
  · intro h
    obtain ⟨⟨⟩, hf, hr⟩ := Result.bind_eq_ok.mp h
    exact ⟨hf, hr⟩
  · intro ⟨hf, hr⟩
    exact Result.bind_eq_ok.mpr ⟨(), hf, hr⟩

theorem require_ok {condition : Bool} {error : MetaStoreError}
    (h : require condition error = .ok ()) : condition = true := by
  unfold require at h
  split_ifs at h with hc
  exact hc

end Guards

section Effects
open InMemoryMetaState
variable {x : External} {s next : InMemoryMetaState}

/-- A request has one of the effects, as the event that its result makes it. -/
def Answer.Effective {β : Type} (answer : Answer β) (external : External)
    (state : InMemoryMetaState) (event : Except MetaStoreError β → Event) : Prop :=
  answer.Ends fun next result => Effect external state (event result) next

theorem effective_guarded {α β : Type} {e : Except MetaStoreError β → Event}
    {check : Except MetaStoreError α} {proceed : α → Answer β}
    (hf : ∀ error, (e (.error error)).Refused)
    (h : ∀ a, check = .ok a → (proceed a).Effective x s e) :
    (guarded s check proceed).Effective x s e :=
  ends_guarded (fun error => .refused (hf error)) h

/-- A request about the claim of a scope: what `Refused` says, or a claim that supersedes. -/
def Claims {β : Type} (state : InMemoryMetaState) (Refused : Except MetaStoreError β → Prop)
    (next : InMemoryMetaState) (result : Except MetaStoreError β) : Prop :=
  (next = state ∧ Refused result) ∨
    ∃ scope claim, next = state.storeClaim scope claim ∧ claim.scope = scope ∧
      Supersedes claim (state.standingRuntimeOwners.lookup scope)

theorem supersedes_next {scope : Scope} {current c : StandingRuntimeOwnerClaim}
    (hl : s.standingRuntimeOwners.lookup scope = some current)
    (he : current.ownerEpoch.checkedAdd 1 = some c.ownerEpoch) :
    Supersedes c (s.standingRuntimeOwners.lookup scope) := by
  intro old hold
  cases hl.symm.trans hold
  have hlt := UInt64.lt_of_checkedAdd_one he
  exact ⟨hlt.le, fun heq => absurd heq hlt.ne⟩

variable (now : Except MetaStoreError UInt64)

theorem acquireOwnerClaim_effect
    (q : AcquireStandingRuntimeOwnerRequest) (ownerEndpoint : Option String) :
    (s.acquireOwnerClaim now q ownerEndpoint).Ends (Claims s fun result =>
      ∀ c, result ≠ .ok (.acquired c) ∧ result ≠ .ok (.renewed c)) := by
  unfold acquireOwnerClaim
  refine ends_guarded ?_ fun _ _ => ends_guarded ?_ fun now _ =>
    ends_guarded ?_ fun expiresAtUnixMs _ => ?_
  iterate 3
    · intro error
      exact .inl ⟨rfl, by simp⟩
  split
  · rename_i hl
    refine .inr ⟨_, _, rfl, rfl, ?_⟩
    intro old hold
    cases hl.symm.trans hold
  · rename_i current hl
    split_ifs with hlive ho
    · exact .inl ⟨rfl, by simp⟩
    · refine .inr ⟨_, _, rfl, rfl, ?_⟩
      intro old hold
      cases hl.symm.trans hold
      exact ⟨le_rfl, fun _ => not_not.mp ho⟩
    · split
      · exact .inl ⟨rfl, by simp⟩
      · rename_i oe he
        exact .inr ⟨_, _, rfl, rfl, supersedes_next hl he⟩

theorem token_of_currentOwner {current : Option StandingRuntimeOwnerClaim}
    {owner : StandingRuntimeOwnerToken} {now : UInt64}
    (h : validateCurrentStandingRuntimeOwner current owner now = .ok ()) :
    ∃ c, current = some c ∧ c.token = owner := by
  unfold validateCurrentStandingRuntimeOwner at h
  split at h
  · cases h
  · rename_i c
    have hok := require_ok h
    simp only [Bool.not_eq_eq_eq_not, Bool.not_true, Bool.or_eq_false_iff, bne_eq_false_iff_eq]
      at hok
    exact ⟨c, rfl, hok.2⟩

variable {current : Option AuthorityToken}

theorem authority_of_current {auth : AuthorityToken}
    {now : UInt64} (h : (validateCurrentAuthority current auth now).isOk = true) :
    current = some auth ∧ now < auth.expiresAtUnixMs := by
  unfold validateCurrentAuthority at h
  split at h
  · cases h
  · rename_i t
    unfold require at h
    split_ifs at h with hok
    · simp only [Bool.not_eq_eq_eq_not, Bool.not_true, Bool.or_eq_false_iff,
        bne_eq_false_iff_eq, decide_eq_false_iff_not, not_le] at hok
      exact ⟨by rw [hok.2], hok.2 ▸ hok.1⟩
    · cases h

theorem reacquireOwnerClaim_effect (q : ReacquireStandingRuntimeOwnerRequest) :
    (s.reacquireOwnerClaim x now q).Ends fun next result =>
      (next = s ∧ ∀ c, result ≠ .ok (.acquired c)) ∨
        (s.standingRuntimeOwners.lookup q.expectedCurrent.scope = some q.expectedCurrent ∧
          Claims s (fun _ => False) next result) := by
  unfold reacquireOwnerClaim
  refine ends_guarded ?_ fun _ _ => ends_guarded ?_ fun now _ =>
    ends_guarded ?_ fun expiresAtUnixMs _ => ?_
  iterate 3
    · intro error
      exact .inl ⟨rfl, by simp⟩
  dsimp only
  split
  · exact .inl ⟨rfl, by simp⟩
  · rename_i current hl
    split_ifs with hexpected
    · exact .inl ⟨rfl, by simp⟩
    have hexpected := not_not.mp hexpected
    split
    · exact .inl ⟨rfl, by simp⟩
    · rename_i oe he
      refine .inr ⟨hexpected ▸ hl, .inr ⟨_, _, rfl, ?_, supersedes_next hl he⟩⟩
      exact congrArg (fun c => c.scope) hexpected

theorem renewStandingRuntimeOwner_effect (owner : StandingRuntimeOwnerToken) (ttlMs : UInt64) :
    (s.renewStandingRuntimeOwner now owner ttlMs).Ends
      (Claims s fun result => ∀ c, result ≠ .ok c) := by
  have hf (error : MetaStoreError) : Claims s
      (fun result => ∀ c : StandingRuntimeOwnerClaim, result ≠ .ok c) s
      (.error error) := .inl ⟨rfl, by simp⟩
  unfold renewStandingRuntimeOwner
  refine ends_guarded hf fun _ _ => ends_guarded hf fun now _ =>
    ends_guarded hf fun ⟨⟩ ho => ?_
  split
  · exact hf _
  · rename_i c hl
    refine ends_guarded hf fun expiresAtUnixMs _ => ?_
    obtain ⟨current, hc, ht⟩ := token_of_currentOwner ho
    cases hl.symm.trans hc
    refine .inr ⟨_, _, rfl, congrArg StandingRuntimeOwnerToken.scope ht, ?_⟩
    intro old hold
    cases hl.symm.trans hold
    exact ⟨le_rfl, fun _ => rfl⟩

theorem publishStandingRuntimeCheckpoint_effect (q : PublishStandingRuntimeCheckpointRequest) :
    (s.publishStandingRuntimeCheckpoint x now q).Effective x s
      (.publishStandingRuntimeCheckpoint now q) := by
  unfold publishStandingRuntimeCheckpoint
  refine effective_guarded (fun _ => nofun) fun ⟨⟩ hv => ?_
  refine effective_guarded (fun _ => nofun) fun now _ => ?_
  refine effective_guarded (fun _ => nofun) fun ⟨⟩ ho => ?_
  dsimp only
  split
  · exact .refused nofun
  rename_i hd
  refine effective_guarded (fun _ => nofun) fun cutsCurrent _ => ?_
  split_ifs with hcuts hp ha hf
  any_goals exact .refused nofun
  have hc := not_not.mp hp
  refine .published hv (token_of_currentOwner ho) hd hc ?_
  rw [← hc]
  simpa using hf

variable {q : AcquireAuthorityRequest} {subjectField : String}

theorem isFor_of_request
    (h : q.validate subjectField = .ok ()) {oe : UInt64} (he : oe ≠ 0) (expiresAtUnixMs : UInt64) :
    AuthorityToken.isFor subjectField q.key ⟨q.key, q.ownerId, oe, expiresAtUnixMs⟩ := by
  unfold AcquireAuthorityRequest.validate at h
  simp only [checks_ok] at h
  obtain ⟨hk, ho, -⟩ := h
  unfold requireNonEmpty at ho
  split_ifs at ho with hempty
  refine ⟨rfl, ?_⟩
  unfold AuthorityToken.validate
  rw [checks_ok]
  refine ⟨hk, ?_⟩
  unfold require
  rw [if_pos]
  simp only [Bool.not_eq_true'] at hempty ⊢
  rw [Bool.or_eq_false_iff]
  exact ⟨Bool.eq_false_iff.mpr hempty, beq_eq_false_iff_ne.mpr he⟩

/-- What acquiring an authority may put into its table. -/
structure Acquired (current : Option AuthorityToken) (request : AcquireAuthorityRequest)
    (subjectField : String) (token : AuthorityToken)
    (result : Except MetaStoreError AcquireAuthorityOutcome) : Prop where
  isFor : (∀ old, current = some old → old.isFor subjectField request.key) →
    token.isFor subjectField request.key
  outranks : Outranks token current
  answer : result = .ok (.acquired token) ∨ result = .ok (.renewed token)

theorem acquireAuthority_cases {now expiresAtUnixMs : UInt64} {explicitReacquire : Bool}
    {overflow : MetaStoreError} {stored : Option AuthorityToken}
    {result : Except MetaStoreError AcquireAuthorityOutcome} (hv : q.validate subjectField = .ok ())
    (h : acquireAuthority current now q explicitReacquire overflow
      expiresAtUnixMs = (stored, result)) :
    (stored = none ∧ ∀ t, result ≠ .ok (.acquired t) ∧ result ≠ .ok (.renewed t)) ∨
      ∃ t, stored = some t ∧ Acquired current q subjectField t result := by
  unfold acquireAuthority at h
  have hf {old : AuthorityToken} {oe : UInt64} (hold : current = some old)
      (he : old.ownerEpoch.checkedAdd 1 = some oe) :
      Acquired current q subjectField ⟨q.key, q.ownerId, oe, expiresAtUnixMs⟩
        (.ok (.acquired ⟨q.key, q.ownerId, oe, expiresAtUnixMs⟩)) := by
    have hlt := UInt64.lt_of_checkedAdd_one he
    refine ⟨?_, ?_, .inl rfl⟩
    · intro _
      exact isFor_of_request hv (ne_of_gt (lt_of_le_of_lt UInt64.zero_le hlt)) _
    · intro other ho
      cases hold.symm.trans ho
      exact .inl hlt
  dsimp only at h
  split at h
  · cases h
    refine .inr ⟨_, rfl, ?_, ?_, .inl rfl⟩
    · intro _
      exact isFor_of_request hv (by decide) _
    · intro old hold
      cases hold
  · rename_i old
    split_ifs at h with hlive hown hexplicit hs
    · split at h
      · cases h
        exact .inl ⟨rfl, by simp⟩
      · rename_i he
        cases h
        exact .inr ⟨_, rfl, hf rfl he⟩
    · cases h
      refine .inr ⟨_, rfl, ?_, ?_, .inr rfl⟩
      · intro hc
        exact hc old rfl
      · intro other ho
        cases ho
        exact .inr ⟨rfl, rfl⟩
    · cases h
      exact .inl ⟨rfl, by simp⟩
    · cases h
      exact .inl ⟨rfl, by simp⟩
    · split at h
      · cases h
        exact .inl ⟨rfl, by simp⟩
      · rename_i he
        cases h
        exact .inr ⟨_, rfl, hf rfl he⟩

theorem reserveIngestRange_effect (r : IngestRangeReservation) :
    (s.reserveIngestRange r).Effective x s (.reserveIngestRange r) := by
  unfold reserveIngestRange
  refine effective_guarded (fun _ => nofun) fun ⟨⟩ hv => ?_
  split_ifs with hs hexact ho
  any_goals exact .refused nofun
  have hs := Bool.eq_false_iff.mpr hs
  have ho := Bool.eq_false_iff.mpr ho
  dsimp only
  split
  · rename_i he
    exact .overflowed hv hs ho he
  · rename_i epoch he
    exact .reserved hv hs ho (UInt64.lt_of_checkedAdd_one he)

theorem reserveAuthoritativeIngestRange_effect (q : ReserveAuthoritativeRequest) :
    (s.reserveAuthoritativeIngestRange q).Effective x s (.reserveAuthoritativeIngestRange q) := by
  unfold reserveAuthoritativeIngestRange
  refine effective_guarded (fun _ => nofun) fun ⟨⟩ hv => ?_
  dsimp only
  split_ifs with ha hexact hk ho
  any_goals exact .refused nofun
  exact .reservedAuthoritative (checks_ok.mp hv).1 (Bool.eq_false_iff.mpr ho)

theorem reserveRelationAuthoritativeIngestRange_effect (q : ReserveAuthoritativeRequest) :
    (s.reserveRelationAuthoritativeIngestRange q).Effective x s
      (.reserveRelationAuthoritativeIngestRange q) := by
  unfold reserveRelationAuthoritativeIngestRange
  refine effective_guarded (fun _ => nofun) fun ⟨⟩ hv => ?_
  dsimp only
  split
  · exact .refused nofun
  rename_i ha
  obtain ⟨hc, hlive⟩ := authority_of_current (Bool.eq_true_of_not_eq_false ha)
  split
  · split_ifs <;> exact .refused nofun
  · rename_i hn
    split_ifs with hconflict
    · exact .refused nofun
    · simp only [not_or, Bool.not_eq_true, Option.isSome_eq_false_iff, Option.isNone_iff_eq_none]
        at hconflict
      obtain ⟨hl, hr, hlk, hrk⟩ := hconflict
      exact .reservedRelation hv hc hlive hn hl hr hlk hrk

theorem commitIngestRange_effect (r : IngestRangeReservation) :
    (s.commitIngestRange r).Effective x s (.commitIngestRange r) := by
  unfold commitIngestRange
  refine effective_guarded (fun _ => nofun) fun ⟨⟩ _ => ?_
  split_ifs with hr hc
  any_goals exact .refused nofun
  exact .committed hr

theorem commitRefusal_ne_committed (rs : List IngestRangeReservation) (r : IngestRangeReservation) :
    s.commitRefusal rs r ≠ some .committed := by
  unfold commitRefusal
  split_ifs <;> simp

theorem reserved_of_commitRefusal {rs : List IngestRangeReservation} {r : IngestRangeReservation}
    (h : s.commitRefusal rs r = none) : r ∈ s.reservationsAt r.slot := by
  unfold commitRefusal at h
  split_ifs at h with hr
  exact hr

theorem commitIngestRanges_effect (rs : List IngestRangeReservation) :
    (s.commitIngestRanges rs).Effective x s (.commitIngestRanges rs) := by
  unfold commitIngestRanges
  refine effective_guarded (fun _ => nofun) fun ⟨⟩ _ => ?_
  split
  · rename_i refusal hr
    apply Effect.refused
    intro outcomes ho hm
    cases ho
    obtain ⟨-, -, rfl⟩ := List.mem_map.mp hm
    obtain ⟨r, -, hs⟩ := List.exists_of_findSome?_eq_some hr
    exact commitRefusal_ne_committed rs r hs
  · rename_i hn
    refine .committedAll ?_ rfl
    intro r hm
    exact reserved_of_commitRefusal (List.findSome?_eq_none_iff.mp hn r hm)

theorem publishIngestReservation_effect (q : PublishReservationRequest) :
    (s.publishIngestReservation q).Effective x s (.publishIngestReservation q) := by
  unfold publishIngestReservation
  refine effective_guarded (fun _ => nofun) fun ⟨⟩ _ => ?_
  dsimp only
  split
  · split_ifs <;> exact .refused nofun
  · split_ifs with ha hk hr hc
    any_goals exact .refused nofun
    exact .publishedReservation hr

theorem publishRelationIngestReservation_effect (q : PublishReservationRequest) :
    (s.publishRelationIngestReservation q).Effective x s (.publishRelationIngestReservation q) := by
  unfold publishRelationIngestReservation
  refine effective_guarded (fun _ => nofun) fun ⟨⟩ hv => ?_
  dsimp only
  split
  · exact .refused nofun
  rename_i ha
  obtain ⟨hc, hlive⟩ := authority_of_current (Bool.eq_true_of_not_eq_false ha)
  split
  · split_ifs <;> exact .refused nofun
  · rename_i hn
    split_ifs with ho hr hb
    any_goals exact .refused nofun
    refine .publishedRelation hv hc hlive hn ?_ (not_not.mp hr)
    intro rid hl
    rw [hl, Option.any_some, decide_eq_true_eq, not_not] at ho
    exact ho

theorem beginViewBootstrap_effect (q : BeginViewBootstrapRequest) :
    (s.beginViewBootstrap q).Effective x s (.beginViewBootstrap q) := by
  unfold beginViewBootstrap
  refine effective_guarded (by simp) fun ⟨⟩ _ => ?_
  split
  · split_ifs <;> exact .refused (by simp)
  · rename_i hn
    dsimp only
    split
    · exact .refused (by simp)
    have hm : ∃ revisions, (if q.viewInputs.isEmpty = true then s
        else { s with
          viewDependencyGraphRevisions :=
            s.viewDependencyGraphRevisions.insert q.tenantId
              ((s.viewDependencyGraphRevisions.lookup q.tenantId).getD 0 + 1) }) =
        { s with viewDependencyGraphRevisions := revisions } := by
      split_ifs
      · exact ⟨s.viewDependencyGraphRevisions, rfl⟩
      · exact ⟨_, rfl⟩
    obtain ⟨revisions, hm⟩ := hm
    rw [hm]
    exact ends_guarded (fun error => .unbuilt revisions) fun cut hc => .began revisions hn hc

theorem fixViewBootstrapActivationCut_effect (q : ActivationRequest) :
    (s.fixViewBootstrapActivationCut now q).Effective x s
      (.fixViewBootstrapActivationCut now q) := by
  unfold fixViewBootstrapActivationCut
  iterate 3 refine effective_guarded (by simp) fun _ _ => ?_
  split
  · exact .refused (by simp)
  rename_i control hc
  split_ifs
  any_goals exact .refused (by simp)
  split
  · exact .refused (by simp)
  split_ifs
  · exact .refused (by simp)
  refine effective_guarded (by simp) fun cut _ => ?_
  split_ifs
  · exact .refused (by simp)
  · exact .activated _ rfl hc rfl

theorem promoteViewBootstrap_effect (q : PromoteViewBootstrapRequest) :
    (s.promoteViewBootstrap x now q).Effective x s (.promoteViewBootstrap now q) := by
  unfold promoteViewBootstrap
  iterate 3 refine effective_guarded (by simp) fun _ _ => ?_
  split
  · exact .refused (by simp)
  rename_i control hc
  split_ifs
  any_goals exact .refused (by simp)
  split
  · exact .refused (by simp)
  split_ifs
  · exact .refused (by simp)
  · exact .activated _ rfl hc rfl

theorem promoteViewBootstrapWithActiveViewRecord_effect
    (q : PromoteViewBootstrapRequest) (registry : RegistryReply) :
    (s.promoteViewBootstrapWithActiveViewRecord x now q registry).Effective
      x s (.promoteViewBootstrapWithActiveViewRecord now q registry) := by
  unfold promoteViewBootstrapWithActiveViewRecord
  iterate 4 refine effective_guarded (by simp) fun _ _ => ?_
  split
  · exact .refused (by simp)
  rename_i control hc
  split_ifs
  any_goals exact .refused (by simp)
  split
  · exact .refused (by simp)
  split_ifs
  · exact .refused (by simp)
  refine effective_guarded (by simp) fun updated _ => ?_
  split_ifs
  · exact .refused (by simp)
  · exact .activated _ rfl hc rfl

theorem acquirePartitionAuthority_effect (q : AcquireAuthorityRequest) :
    (s.acquirePartitionAuthority q).Effective x s (.acquirePartitionAuthority q) :=
  effective_guarded (fun _ => trivial) fun _ _ =>
    effective_guarded (fun _ => trivial) fun _ _ => .partitionAuthority _

theorem acquireRelationPartitionAuthority_effect (q : AcquireAuthorityRequest)
    (explicitReacquire : Bool) :
    (s.acquireRelationPartitionAuthority q explicitReacquire).Effective x s
      (.acquireRelationPartitionAuthority q explicitReacquire) := by
  unfold acquireRelationPartitionAuthority
  refine effective_guarded (by simp) fun ⟨⟩ hv => ?_
  refine effective_guarded (by simp) fun expiresAtUnixMs _ => ?_
  dsimp only
  generalize ha : acquireAuthority _ _ _ _ _ _ = acquired
  obtain ⟨stored, outcome⟩ := acquired
  rcases acquireAuthority_cases hv ha with
    ⟨rfl, hr⟩ | ⟨t, rfl, hs⟩
  · exact .refused hr
  · exact .relationAuthority t hs.isFor hs.outranks hs.answer

/-- Every request has one of the effects. -/
theorem effect_of_step {e : Event} (h : Step x s e next) : Effect x s e next := by
  cases h with
  | acquireStandingRuntimeOwner h =>
    rcases (acquireOwnerClaim_effect _ _ _).of_eq h with
      ⟨rfl, hr⟩ | ⟨scope, c, rfl, hs, hm⟩
    · exact .refused hr
    · exact .owned rfl hs hm
  | acquireStandingRuntimeOwnerWithEndpoint h =>
    rcases (ends_guarded (fun error => .inl ⟨rfl, by simp⟩) fun _ _ =>
        acquireOwnerClaim_effect _ _ _).of_eq h with
      ⟨rfl, hr⟩ | ⟨scope, c, rfl, hs, hm⟩
    · exact .refused hr
    · exact .owned rfl hs hm
  | reacquireStandingRuntimeOwner h =>
    rcases (reacquireOwnerClaim_effect _ _).of_eq h with
      ⟨rfl, hr⟩ | ⟨-, ⟨-, ⟨⟩⟩ | ⟨scope, c, rfl, hs, hm⟩⟩
    · exact .refused hr
    · exact .owned rfl hs hm
  | renewStandingRuntimeOwner h =>
    rcases (renewStandingRuntimeOwner_effect _ _ _).of_eq h with
      ⟨rfl, hr⟩ | ⟨scope, c, rfl, hs, hm⟩
    · exact .refused hr
    · exact .owned rfl hs hm
  | publishStandingRuntimeCheckpoint h =>
    exact (publishStandingRuntimeCheckpoint_effect _ _).of_eq h
  | acquirePartitionAuthority h =>
    exact (acquirePartitionAuthority_effect _).of_eq h
  | acquireRelationPartitionAuthority h =>
    exact (acquireRelationPartitionAuthority_effect _ _).of_eq h
  | reserveIngestRange h => exact (reserveIngestRange_effect _).of_eq h
  | reserveAuthoritativeIngestRange h => exact (reserveAuthoritativeIngestRange_effect _).of_eq h
  | reserveRelationAuthoritativeIngestRange h =>
    exact (reserveRelationAuthoritativeIngestRange_effect _).of_eq h
  | commitIngestRange h => exact (commitIngestRange_effect _).of_eq h
  | commitIngestRanges h => exact (commitIngestRanges_effect _).of_eq h
  | publishIngestReservation h => exact (publishIngestReservation_effect _).of_eq h
  | publishRelationIngestReservation h => exact (publishRelationIngestReservation_effect _).of_eq h
  | beginViewBootstrap h => exact (beginViewBootstrap_effect _).of_eq h
  | fixViewBootstrapActivationCut h => exact (fixViewBootstrapActivationCut_effect _ _).of_eq h
  | promoteViewBootstrap h => exact (promoteViewBootstrap_effect _ _).of_eq h
  | promoteViewBootstrapWithActiveViewRecord h =>
    exact (promoteViewBootstrapWithActiveViewRecord_effect _ _ _).of_eq h
  | partitionAuthorityClock now => exact .clock now
  | rehashed h => exact .rehashed h

end Effects

end Velorix.Meta
