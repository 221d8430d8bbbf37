import Velorix.Control.PublisherInvariant

/-! What every interleaving of publishers guarantees: a publication is visible only with its
bytes, a publish that succeeds left its publication behind, and superseded authorities publish
nothing. -/
namespace Velorix.Control

open Meta Storage Program Result

section Programs
variable {q : PublishReservationRequest} {p : IngestPublication} {lo hi : UInt64}

variable {x : External} {hash : Hash} {w later : World} {id : ℕ}
  {c : RelationIngestPublisherConfig} {prepared : Prepared} {b : Bytes}

/-- A program of publishers that keeps the invariant and returns what satisfies `post`. -/
abbrev Keeps {α : Type} (external : External) (hash : Hash) (post : α → World → Prop)
    (program : Program Op Reply α) (world : World) : Prop :=
  (publisherSetting external hash).Safe post program world

variable {α : Type}

theorem keeps_return {post : α → World → Prop} {a : α} (h : ∀ w, post a w) :
    Keeps x hash post (pure a) w := fun later _ _ => h later

variable {op : Op}

theorem keeps_call {post : α → World → Prop}
    {next : Reply op → Program Op Reply α}
    (hop : ∀ later, WorldGrows x w later → WorldInv x hash later → op.Allowed hash later)
    (hn : ∀ later, WorldGrows x w later → WorldInv x hash later →
      ∀ reply last, Calls later op reply last → WorldGrows x w last →
        WorldInv x hash last → Keeps x hash post (next reply) last) :
    Keeps x hash post (op.ask >>= next) w := by
  intro later hg hinv reply last hc
  obtain ⟨hinv', hg'⟩ := hinv.calls (hop later hg hinv) hc
  exact ⟨hinv', hg', hn later hg hinv reply last hc (hg.trans hg') hinv'⟩

theorem keeps_call_any {post : α → World → Prop}
    {next : Reply op → Program Op Reply α} (hop : ∀ later, op.Allowed hash later)
    (hn : ∀ reply last, WorldGrows x w last → WorldInv x hash last →
      Keeps x hash post (next reply) last) : Keeps x hash post (op.ask >>= next) w :=
  keeps_call (fun later _ _ => hop later) fun _ _ _ reply last _ => hn reply last

theorem keeps_clear {post : α → World → Prop} {a : α} (h : ∀ w, post a w) :
    Keeps x hash post ((Op.storeToken id none).ask >>= fun _ => pure a) w :=
  keeps_call_any (fun _ => nofun) fun _ _ _ _ => keeps_return h

/-- The publication of the request is in the ledger. -/
def Recorded (request : PublishReservationRequest) (world : World) : Prop :=
  request.publication ∈ relationPublications world.requests

theorem Recorded.grow (h : Recorded q w) (hg : WorldGrows x w later) : Recorded q later := by
  obtain ⟨log, hl, -⟩ := hg.requests
  unfold Recorded relationPublications
  rw [hl, List.filterMap_append]
  exact List.mem_append_left _ h

theorem publication_of_match (h : validatePublicationMatch p q = .ok ()) : p = q.publication := by
  unfold validatePublicationMatch at h
  split_ifs at h with hm
  simp only [not_or, not_not] at hm
  obtain ⟨h₁, h₂, h₃, h₄, h₅, h₆⟩ := hm
  cases p
  simp_all [PublishReservationRequest.publication]

theorem recorded_of_read (hinv : WorldInv x hash w) {rid : String}
    (hc : Calls w (.readRelationAuthoritativeIngestPublication rid) (.ok (some p)) later) :
    p ∈ relationPublications later.requests := by
  rcases Unreliable.calls_cases hc with ⟨hr, rfl⟩ | ⟨⟨error, he⟩, -⟩
  · obtain ⟨⟨⟩, -, hread⟩ := bind_eq_ok.mp hr.symm
    exact (ledger_of_trace hinv.run).logged rid p (Except.ok.inj hread)
  · cases he

variable {key : ObjectKey} {digest : String}

theorem staged_of_put
    (hcheck : checkStagingRecord hash key b digest = .ok ())
    (hc : Calls w (.put key b) (.ok ()) later) : Staged hash later key digest := by
  rcases Unreliable.calls_cases hc with ⟨hr, rfl⟩ | ⟨⟨error, he, -⟩, -⟩
  · unfold checkStagingRecord at hcheck
    split at hcheck
    · cases hcheck
    split_ifs at hcheck with hv hd
    refine ⟨b, ?_, not_not.mp hd⟩
    simp only [World.answer] at hr ⊢
    split at hr
    · cases hr
    · exact AList.lookup_insert _
  · cases he

theorem object_of_get {existing : Bytes}
    (hc : Calls w (.get key) (.ok existing) later) : later.objects.lookup key = some existing := by
  rcases Unreliable.calls_cases hc with ⟨hr, rfl⟩ | ⟨⟨error, he, -⟩, -⟩
  · simp only [World.answer] at hr ⊢
    split at hr
    · rename_i b hl
      cases hr
      exact hl
    · cases hr
  · cases he

theorem parse_value {value : String} (h : ObjectKey.parse value = .ok key) :
    key = ⟨value⟩ := by
  unfold ObjectKey.parse at h
  split_ifs at h
  obtain ⟨⟨⟩, -, h⟩ := bind_eq_ok.mp h
  cases h
  rfl

theorem verifyFound_keeps (hp : p ∈ relationPublications w.requests) :
    Keeps x hash (fun result last => ∀ found, result = .ok found → Recorded q last)
      (verifyFound id p q) w := by
  unfold verifyFound
  split
  · exact keeps_return fun _ => nofun
  · rename_i hm
    have hrecorded : Recorded q w := by
      unfold Recorded
      rw [← publication_of_match hm]
      exact hp
    split_ifs
    · exact keeps_clear fun _ => nofun
    · intro later hg _ found _
      exact hrecorded.grow hg

theorem verifyPublication_keeps :
    Keeps x hash (fun result last => ∀ found, result = .ok found → Recorded q last)
      (verifyPublication id q) w := by
  refine keeps_call (fun _ _ _ => trivial) ?_
  intro later _ hinv reply last hc _ _
  match reply, hc with
  | .error _, _ => exact keeps_return fun _ => nofun
  | .ok none, _ => exact keeps_return fun _ => nofun
  | .ok (some p), hc => exact verifyFound_keeps (recorded_of_read hinv hc)

theorem verifyAfterUncertainPublish_keeps {firstError : MetaStoreError}
    (hallowed : (Op.publishRelationIngestReservation q).Allowed hash w) :
    Keeps x hash (fun result last => ∀ found, result = .ok found → Recorded q last)
      (verifyAfterUncertainPublish id q firstError) w := by
  obtain ⟨prepared, b, ha, rfl, hs⟩ := hallowed
  refine keeps_call (fun _ _ _ => trivial) ?_
  intro later _ hinv reply last hc hg _
  match reply, hc with
  | .error _, _ => exact keeps_return fun _ => nofun
  | .ok (some p), hc => exact verifyFound_keeps (recorded_of_read hinv hc)
  | .ok none, _ =>
    refine keeps_call ?_ ?_
    · intro later' hg' _
      have hg'' := hg.trans hg'
      exact ⟨prepared, b, ha.grow hg'', rfl, hs.grow hg''⟩
    intro later' _ _ reply last' _ _ hinv'
    match reply with
    | .ok .committed => exact verifyPublication_keeps
    | .ok .duplicate => exact verifyPublication_keeps
    | .ok .invalidAuthority => exact keeps_clear fun _ => nofun
    | .ok .conflict => exact keeps_return fun _ => nofun
    | .error _ =>
      refine Setting.Safe.bind hinv' (verifyPublication_keeps.weaken ?_)
      intro result last'' _ _ hres
      match result with
      | .ok p =>
        intro later'' hg'' _ found _
        exact (hres p rfl).grow hg''
      | .error error =>
        cases error <;> exact keeps_return fun _ => nofun

/-- What a publish that succeeded left behind. -/
def Succeeded (prepared : Prepared) (result : Fallible PublishedRelationIngest) (world : World) :
    Prop :=
  ∀ published, result = .ok published →
    (∃ outcome, published = prepared.published outcome) ∧ Recorded prepared.publishRequest world

theorem succeeded_error {e : RelationIngestPublisherError} : Succeeded prepared (.error e) w := by
  intro published h
  cases h

theorem publishReserved_keeps (ha : Attempt hash w prepared b)
    (hs : Staged hash w prepared.stagingKey prepared.reservation.payloadDigest) :
    Keeps x hash (Succeeded prepared) (publishReserved id prepared) w := by
  have hallowed (later : World) (hg : WorldGrows x w later) :
      (Op.publishRelationIngestReservation prepared.publishRequest).Allowed hash later :=
    ⟨prepared, b, ha.grow hg, rfl, hs.grow hg⟩
  refine keeps_call (fun later hg _ => hallowed later hg) ?_
  intro later _ _ reply last _ hg hinv'
  cases reply with
  | ok outcome =>
    cases outcome with
    | conflict => exact keeps_return fun _ => succeeded_error
    | invalidAuthority => exact keeps_clear fun _ => succeeded_error
    | committed | duplicate =>
      refine Setting.Safe.bind hinv' (verifyPublication_keeps.weaken ?_)
      intro result last' _ _ hres
      cases result with
      | error => exact keeps_return fun _ => succeeded_error
      | ok p =>
        intro later' hg' _ published hp
        cases hp
        exact ⟨⟨_, rfl⟩, (hres p rfl).grow hg'⟩
  | error source =>
    refine Setting.Safe.bind hinv'
      ((verifyAfterUncertainPublish_keeps (hallowed last hg)).weaken ?_)
    intro result last' _ _ hres
    cases result with
    | error => exact keeps_return fun _ => succeeded_error
    | ok p =>
      intro later' hg' _ published hp
      cases hp
      exact ⟨⟨.committed, rfl⟩, (hres p rfl).grow hg'⟩

theorem stageIngestRecord_keeps (ha : Attempt hash w prepared b) :
    Keeps x hash (fun result last => ∀ outcome, result = .ok outcome →
        (∀ existing requested, outcome ≠ .conflict existing requested) →
        Staged hash last prepared.stagingKey digest)
      (stageIngestRecord hash prepared.stagingKey b digest) w := by
  unfold stageIngestRecord
  split
  · exact keeps_return fun _ => nofun
  rename_i hcheck
  refine keeps_call (fun later hg _ => ⟨prepared, ha.grow hg, rfl⟩) ?_
  intro later _ _ reply last hc _ _
  match reply, hc with
  | .ok (), hc =>
    intro later' hg' _ _ _ _
    exact (staged_of_put hcheck hc).grow hg'
  | .error .alreadyExists, _ =>
    refine keeps_call (fun _ _ _ => trivial) ?_
    intro later' _ _ reply last' hc' _ _
    match reply, hc' with
    | .error _, _ => exact keeps_return fun _ => nofun
    | .ok existing, hc' =>
      dsimp only
      split_ifs with hd
      · intro later'' hg'' _ _ _ _
        exact Staged.grow ⟨existing, object_of_get hc', hd⟩ hg''
      · refine keeps_return fun _ => ?_
        intro outcome ho hne
        cases ho
        exact absurd rfl (hne _ _)
  | .error (.notSupported _), _ => exact keeps_return fun _ => nofun
  | .error (.notImplemented _ _), _ => exact keeps_return fun _ => nofun
  | .error .notFound, _ => exact keeps_return fun _ => nofun
  | .error (.other _), _ => exact keeps_return fun _ => nofun

theorem stageWrite_keeps (ha : Attempt hash w prepared b) :
    Keeps x hash (fun result last => ∀ outcome, result = .ok outcome →
        (∀ existing requested, outcome ≠ .conflict existing requested) →
        Staged hash last prepared.stagingKey digest)
      (stageWrite hash prepared.stagingKey.value b digest) w := by
  unfold stageWrite
  split
  · exact keeps_return fun _ => nofun
  · rename_i key parts hp
    have hk : key = prepared.stagingKey := by
      obtain ⟨key', hk', h⟩ := bind_eq_ok.mp hp
      obtain ⟨parts', -, h⟩ := bind_eq_ok.mp h
      cases h
      exact parse_value hk'
    subst hk
    split
    · exact keeps_return fun _ => nofun
    · exact stageIngestRecord_keeps ha

theorem stageAndPublish_keeps (hinv : WorldInv x hash w) (ha : Attempt hash w prepared b) :
    Keeps x hash (Succeeded prepared) (stageAndPublish hash id prepared b) w := by
  refine Setting.Safe.bind hinv ((stageWrite_keeps ha).weaken ?_)
  intro result last hg _ hres
  match result with
  | .error source => exact keeps_return fun _ => nofun
  | .ok (.conflict existing requested) => exact keeps_return fun _ => nofun
  | .ok .created => exact publishReserved_keeps (ha.grow hg) (hres _ rfl nofun)
  | .ok .duplicate => exact publishReserved_keeps (ha.grow hg) (hres _ rfl nofun)

theorem refuseRange_keeps : Keeps x hash (Succeeded prepared) (refuseRange id prepared) w := by
  refine keeps_call_any (fun _ => trivial) ?_
  intro reply last _ _
  match reply with
  | .error source => exact keeps_return fun _ => nofun
  | .ok current =>
    dsimp only
    split_ifs
    · exact keeps_clear fun _ => nofun
    · exact keeps_return fun _ => nofun

theorem publishPrepared_keeps (hk : prepared.authority.key = c.authorityKey)
    (hprep : prepare hash c prepared.authority lo hi b = .ok prepared) :
    Keeps x hash (Succeeded prepared) (publishPrepared hash id prepared b) w := by
  refine keeps_call (fun _ _ _ => trivial) ?_
  intro later _ _ reply last hc _ hinv
  have ha (outcome : ReserveIngestRangeOutcome) (hr : reply = .ok outcome) :
      Attempt hash last prepared b := by
    subst hr
    rcases Unreliable.calls_cases hc with ⟨-, rfl⟩ | ⟨⟨error, he⟩, -⟩
    · exact ⟨c, lo, hi, hk, hprep, _, List.mem_append_right _ (List.mem_singleton.mpr rfl)⟩
    · cases he
  match reply with
  | .error source => exact keeps_return fun _ => nofun
  | .ok .conflict => exact refuseRange_keeps
  | .ok .reserved => exact stageAndPublish_keeps hinv (ha _ rfl)
  | .ok .duplicate => exact stageAndPublish_keeps hinv (ha _ rfl)

/-- The publisher exists, with this configuration. -/
def Registered (id : ℕ) (config : RelationIngestPublisherConfig) (world : World) : Prop :=
  ∃ publisher, world.publishers id = some publisher ∧ publisher.config = config

theorem Registered.grow (h : Registered id c w) (hg : WorldGrows x w later) :
    Registered id c later := by
  obtain ⟨publisher, hl, hc⟩ := h
  obtain ⟨publisher', hl', hc'⟩ := hg.publishers id publisher hl
  exact ⟨publisher', hl', hc'.trans hc⟩

variable {t : AuthorityToken}

theorem Registered.key_of_load (h : Registered id c w)
    (hinv : WorldInv x hash w) (hc : Calls w (.loadToken id) (some t) later) :
    t.key = c.authorityKey := by
  obtain ⟨publisher, hl, rfl⟩ := h
  rcases Unreliable.calls_cases hc with ⟨hr, -⟩ | ⟨hf, -⟩
  · have hr : some t = (w.publishers id).bind (·.token) := hr
    rw [hl] at hr
    exact hinv.tokens id publisher t hl hr.symm
  · exact hf.elim

/-- What a publish of the range and the payload promises. -/
def PublishPromise (hash : Hash) (config : RelationIngestPublisherConfig)
    (startOffset endOffset : UInt64) (payload : Bytes) (result : Fallible PublishedRelationIngest)
    (world : World) : Prop :=
  ∀ published, result = .ok published → ∃ prepared outcome,
    prepare hash config prepared.authority startOffset endOffset payload = .ok prepared ∧
    prepared.authority.key = config.authorityKey ∧ published = prepared.published outcome ∧
    Recorded prepared.publishRequest world

variable {auth : AuthorityToken}

theorem authority_of_prepare
    (h : prepare hash c auth lo hi b = .ok prepared) : prepared.authority = auth := by
  unfold prepare at h
  simp only [bind_eq_ok] at h
  obtain ⟨_, -, _, -, _, -, _, -, h⟩ := h
  cases h
  rfl

theorem reservation_of_prepare
    (h : prepare hash c auth lo hi b = .ok prepared) :
    prepared.reservation.slot = (c.streamId, c.partitionId) ∧
      prepared.reservation.startOffsetInclusive = lo ∧
      prepared.reservation.endOffsetExclusive = hi ∧
      prepared.reservation.payloadDigest = hash.digestBytes b := by
  unfold prepare at h
  simp only [bind_eq_ok] at h
  obtain ⟨_, -, _, -, _, -, _, -, h⟩ := h
  cases h
  exact ⟨rfl, rfl, rfl, rfl⟩

theorem publish_keeps (hr : Registered id c w) :
    Keeps x hash (PublishPromise hash c lo hi b) (publish hash id c lo hi b) w := by
  refine keeps_call_any (fun _ => trivial) ?_
  intro reply last hg _
  split_ifs
  · refine keeps_call (fun _ _ _ => trivial) ?_
    intro later hg' hinv reply last' hc _ _
    match reply, hc with
    | none, _ => exact keeps_return fun _ => nofun
    | some auth, hc =>
      have hk := ((hr.grow hg).grow hg').key_of_load hinv hc
      dsimp only
      split
      · exact keeps_return fun _ => nofun
      · rename_i prepared hprep
        have ha := authority_of_prepare hprep
        subst ha
        refine (publishPrepared_keeps hk hprep).weaken ?_
        intro result last'' _ _ hres published hp
        obtain ⟨⟨outcome, ho⟩, hrecorded⟩ := hres published hp
        exact ⟨prepared, outcome, hprep, hk, ho, hrecorded⟩
  · exact keeps_return fun _ => nofun

/-- A token that was granted is of the key it was asked for. -/
theorem key_of_acquire (hinv : WorldInv x hash w) {q : AcquireAuthorityRequest}
    {explicitReacquire : Bool} {outcome : AcquireAuthorityOutcome}
    (ho : outcome = .acquired t ∨ outcome = .renewed t)
    (hc : Calls w (.acquireRelationPartitionAuthority q explicitReacquire)
      (.ok outcome) later) : t.key = q.key := by
  rcases Unreliable.calls_cases hc with ⟨hr, -⟩ | ⟨⟨error, he⟩, -⟩
  · have hs : Step x w.metadata
        (.acquireRelationPartitionAuthority q explicitReacquire (.ok outcome))
        (w.metadata.acquireRelationPartitionAuthority q explicitReacquire).1 :=
      .acquireRelationPartitionAuthority (Prod.ext rfl hr.symm)
    have htokens := (ledger_of_trace hinv.run).tokens q.key
    generalize hn : (w.metadata.acquireRelationPartitionAuthority q
      explicitReacquire).1 = next at hs
    cases effect_of_step hs with
    | refused hrefused =>
      rcases ho with rfl | rfl
      · exact absurd rfl (hrefused t).1
      · exact absurd rfl (hrefused t).2
    | relationAuthority t' ht hrank hres =>
      have hsame : t' = t := by
        rcases ho with rfl | rfl <;> rcases hres with h | h <;> cases h <;> rfl
      subst hsame
      exact (ht htokens).1
    | owned hevent _ _ => cases hevent
    | activated _ hevent _ _ => cases hevent
  · cases he

variable {reacquire : Bool}

theorem settleAuthority_keeps (hr : Registered id c w)
    {observed : Option AuthorityToken} {result : Except MetaStoreError AcquireAuthorityOutcome}
    (hk : ∀ t, result = .ok (.acquired t) ∨ result = .ok (.renewed t) → t.key = c.authorityKey) :
    Keeps x hash (fun _ _ => True) (settleAuthority id c reacquire observed result) w := by
  have hs (t : AuthorityToken) (ht : t.key = c.authorityKey) : Keeps x hash (fun _ _ => True)
        (do
          (Op.storeToken id (some t)).ask
          return (.ok t : Fallible AuthorityToken)) w := by
    refine keeps_call ?_ fun _ _ _ _ _ _ _ _ => keeps_return fun _ => trivial
    intro later hg _ found publisher hf hl
    cases hf
    obtain ⟨publisher', hl', hc⟩ := hr.grow hg
    cases hl.symm.trans hl'
    rw [hc]
    exact ht
  unfold settleAuthority
  split
  · split_ifs
    · exact keeps_clear fun _ => trivial
    · exact hs _ (hk _ (.inl rfl))
  · split_ifs
    · exact keeps_clear fun _ => trivial
    · exact hs _ (hk _ (.inr rfl))
  · exact keeps_clear fun _ => trivial
  · exact keeps_clear fun _ => trivial

theorem requestAuthority_keeps (hr : Registered id c w)
    {current : Option AuthorityToken} :
    Keeps x hash (fun _ _ => True) (requestAuthority id c reacquire current) w := by
  refine keeps_call (fun _ _ _ => trivial) ?_
  intro later _ hinv reply last hc hg _
  refine settleAuthority_keeps (hr.grow hg) ?_
  rintro t (rfl | rfl)
  · exact key_of_acquire hinv (.inl rfl) hc
  · exact key_of_acquire hinv (.inr rfl) hc

theorem acquireOrRenew_keeps (hr : Registered id c w) :
    Keeps x hash (fun _ _ => True) (acquireOrRenew id c) w :=
  keeps_call_any (fun _ => trivial) fun _ _ hg _ =>
    requestAuthority_keeps (hr.grow hg)

theorem reacquireAfterRestart_keeps (hr : Registered id c w) :
    Keeps x hash (fun _ _ => True) (reacquireAfterRestart id c) w := by
  refine keeps_call_any (fun _ => trivial) ?_
  intro reply last hg _
  split_ifs
  · exact keeps_return fun _ => trivial
  · refine keeps_call_any (fun _ => trivial) ?_
    intro reply last' hg' _
    match reply with
    | .error source => exact keeps_return fun _ => trivial
    | .ok current => exact requestAuthority_keeps ((hr.grow hg).grow hg')

theorem startWith_keeps {acquire : Program Op Reply (Fallible AuthorityToken)}
    (h : ∀ last, WorldGrows x w last → Keeps x hash (fun _ _ => True) acquire last) :
    Keeps x hash (fun _ _ => True) (startWith id acquire) w := by
  refine keeps_call_any (fun _ => trivial) ?_
  intro reply last hg _
  split_ifs
  · exact h last hg
  · refine keeps_call_any (fun _ => trivial) ?_
    intro reply last' hg' _
    match reply with
    | .error source => exact keeps_return fun _ => trivial
    | .ok capability =>
      dsimp only
      split
      · exact keeps_return fun _ => trivial
      · refine keeps_call_any (fun _ => trivial) ?_
        intro _ last'' hg'' _
        exact h last'' ((hg.trans hg').trans hg'')

theorem renew_keeps (hr : Registered id c w) : Keeps x hash (fun _ _ => True) (renew id c) w := by
  refine keeps_call_any (fun _ => trivial) ?_
  intro reply last hg _
  split_ifs
  · exact acquireOrRenew_keeps (hr.grow hg)
  · exact keeps_return fun _ => trivial

end Programs

section Runs
variable {x : External} {hash : Hash} {w : World}

/-- The pool of the calls under way over a world. -/
abbrev Publishers := Pool Invocation Op Reply Outcome World

abbrev PublishersStep (external : External) (hash : Hash) :=
  Pool.Step (publisherSystem external hash)

def promise (hash : Hash) (invocation : Invocation) (_ : World) (outcome : Outcome)
    (world : World) : Prop :=
  ∀ startOffset endOffset payload result,
    invocation.call = .publish startOffset endOffset payload → outcome = .published result →
      PublishPromise hash invocation.config startOffset endOffset payload result world

theorem body_keeps {invocation : Invocation} (hinv : WorldInv x hash w)
    (hr : Registered invocation.publisher invocation.config w) :
    Keeps x hash (promise hash invocation w) (invocation.body hash) w := by
  have ha {p : Program Op Reply (Fallible AuthorityToken)}
      (h : Keeps x hash (fun _ _ => True) p w) :
      Keeps x hash (promise hash invocation w)
        (p >>= fun result => pure (.authority result)) w :=
    Setting.Safe.bind hinv (h.weaken fun _ _ _ _ _ => keeps_return fun _ _ _ _ _ _ => nofun)
  obtain ⟨id, c, call⟩ := invocation
  cases call with
  | start =>
    exact ha
      (startWith_keeps fun _ hg => acquireOrRenew_keeps (hr.grow hg))
  | startAfterRestart =>
    exact ha
      (startWith_keeps fun _ hg => reacquireAfterRestart_keeps (hr.grow hg))
  | renew => exact ha (renew_keeps hr)
  | publish lo hi b =>
    refine Setting.Safe.bind hinv ((publish_keeps hr).weaken ?_)
    intro result last _ _ hres later hg _ lo' hi' b' result' hc ho
    cases hc
    cases ho
    intro published hp
    obtain ⟨prepared, outcome, hprep, hk, hp', hrecorded⟩ :=
      hres published hp
    exact ⟨prepared, outcome, hprep, hk, hp', hrecorded.grow hg⟩

theorem moves_keep {move : Move} {later : World} (hinv : WorldInv x hash w)
    (hm : Moves x w move later) : WorldInv x hash later ∧ WorldGrows x w later := by
  cases hm with
  | created hfree hv =>
    rename_i id c
    refine ⟨⟨hinv.run, ?_, hinv.attempted, hinv.published⟩, (WorldGrows.refl w).requests,
      fun _ _ h => h, ?_⟩
    · intro id' publisher t hl ht
      have hl : Function.update w.publishers id _ id' = some publisher := hl
      rw [Function.update_apply] at hl
      split_ifs at hl
      · cases hl
        cases ht
      · exact hinv.tokens id' publisher t hl ht
    · intro id' publisher hl
      refine ⟨publisher, ?_, rfl⟩
      show Function.update w.publishers id _ id' = _
      rw [Function.update_apply, if_neg, hl]
      rintro rfl
      rw [hfree] at hl
      cases hl
  | metadata hf hs =>
    rename_i e next
    refine ⟨hinv.record hs ?_, grows_record hs⟩
    intro p hp
    unfold Event.publication at hp
    split at hp
    · cases hf
    · cases hp

theorem publishers_respect (x : External) (hash : Hash) :
    Pool.Respects (publisherSetting x hash) (promise hash)
      (publisherSystem x hash) where
  calls h := h
  moves hinv hm := moves_keep hinv hm
  body hinv ha := body_keeps hinv ha

theorem worldInv_start (x : External) (hash : Hash) (capability : RelationIngestCapability) :
    WorldInv x hash { capability } := by
  refine ⟨.nil, ?_, ?_, fun _ hm => absurd hm List.not_mem_nil⟩
  · intro id publisher t hl
    cases hl
  · intro key b hl
    cases hl

end Runs

end Velorix.Control
