import Velorix.Meta.Effects

/-! Owners of standing runtimes are fenced by their epochs, and the checkpoints that they
publish form one chain. -/
namespace Velorix.Meta

open Storage StandingRuntimeCheckpointPointer List InMemoryMetaState AList

variable {request : PublishStandingRuntimeCheckpointRequest}

section Validation
variable {external : External} {pointer expected candidate : StandingRuntimeCheckpointPointer}

/-- A pointer without a generation has no plan either. -/
theorem planHash_of_generation_zero (h : pointer.validate external = .ok ())
    (hz : pointer.bootstrapGeneration = 0) : pointer.planHash = "" := by
  unfold StandingRuntimeCheckpointPointer.validate at h
  simp only [checks_ok] at h
  obtain ⟨hp, -, -, -, -, -, hc, -⟩ := h
  unfold validateCoverage at hc
  split at hc
  · obtain ⟨hm, -⟩ := checks_ok.mp hc
    have hm := require_ok hm
    rw [decide_eq_true_eq] at hm
    exact absurd hz hm.1
  · have hn := require_ok hc
    simp only [Bool.and_eq_true, Bool.or_eq_true, beq_iff_eq] at hn
    rcases hn.2 with hsome | ⟨hplan, -⟩
    · -- progress is only valid for a generation
      unfold validateProgress at hp
      obtain ⟨progress, hps⟩ := Option.isSome_iff_exists.mp hsome
      rw [hps] at hp
      simp only [checks_ok] at hp
      obtain ⟨hv, -, hi⟩ := hp
      have hi := require_ok hi
      rw [decide_eq_true_eq] at hi
      unfold PublishedInputBootstrapProgressV1.validate at hv
      split_ifs at hv with hb
      exact absurd (.inr (.inl (hi.1.trans hz))) hb
    · rw [hz, beq_self_eq_true] at hplan
      exact String.isEmpty_iff.mp hplan.symm

structure Names (previous candidate : StandingRuntimeCheckpointPointer) : Prop where
  key : candidate.previousCheckpointKey = previous.checkpointKey
  manifest : candidate.previousManifestHash = previous.manifestHash

/-- Every input stands where it stood or further on, with the same captured cursor. -/
structure NotBehind (previous next : PublishedInputBootstrapProgressV1) : Prop where
  count : next.inputs.length = previous.inputs.length
  inputs : ∀ old ∈ previous.inputs, ∃ new ∈ next.inputs, new.inputEdge = old.inputEdge ∧
    new.capturedCursor = old.capturedCursor ∧ new.totalPages = old.totalPages ∧
    new.totalRows = old.totalRows ∧ old.nextPageIndex ≤ new.nextPageIndex ∧
    old.appliedRows ≤ new.appliedRows

/-- What never goes back along a chain of checkpoints. -/
structure Advances (previous candidate : StandingRuntimeCheckpointPointer) : Prop where
  logicalEpoch : previous.logicalEpoch < candidate.logicalEpoch
  generation : previous.bootstrapGeneration ≠ 0 →
    candidate.bootstrapGeneration = previous.bootstrapGeneration
  plan : previous.planHash ≠ "" → candidate.planHash = previous.planHash
  progress : ∀ old, previous.publishedInputBootstrap = some old →
    ∃ new, candidate.publishedInputBootstrap = some new ∧ NotBehind old new

theorem NotBehind.trans {a b c : PublishedInputBootstrapProgressV1} (hab : NotBehind a b)
    (hbc : NotBehind b c) : NotBehind a c where
  count := hbc.count.trans hab.count
  inputs := by
    intro old hold
    obtain ⟨mid, hm, he, hc, hp, hr, hpage, hrow⟩ := hab.inputs old hold
    obtain ⟨new, hnew, he', hc', hp', hr', hpage', hrow'⟩ := hbc.inputs mid hm
    exact ⟨new, hnew, he'.trans he, hc'.trans hc, hp'.trans hp,
      hr'.trans hr, hpage.trans hpage', hrow.trans hrow'⟩

theorem Advances.trans {a b c : StandingRuntimeCheckpointPointer} (hab : Advances a b)
    (hbc : Advances b c) : Advances a c where
  logicalEpoch := hab.logicalEpoch.trans hbc.logicalEpoch
  generation := by
    intro hset
    have hs := hab.generation hset
    rw [hbc.generation (hs ▸ hset), hs]
  plan := by
    intro hset
    have hs := hab.plan hset
    rw [hbc.plan (hs ▸ hset), hs]
  progress := by
    intro old hold
    obtain ⟨mid, hm, hb⟩ := hab.progress old hold
    obtain ⟨new, hnew, hb'⟩ := hbc.progress mid hm
    exact ⟨new, hnew, hb.trans hb'⟩

theorem notBehind_of_follows {previous next : PublishedInputBootstrapProgressV1}
    (h : next.follows previous = true) : NotBehind previous next := by
  simp only [PublishedInputBootstrapProgressV1.follows, Bool.and_eq_true, beq_iff_eq,
    all_eq_true, any_eq_true] at h
  refine ⟨h.1.2, ?_⟩
  intro old hold
  obtain ⟨new, hnew, hf⟩ := h.2 old hold
  simp only [PublishedInputBootstrapCursorV1.follows, Bool.and_eq_true, beq_iff_eq,
    decide_eq_true_eq] at hf
  obtain ⟨⟨⟨⟨⟨⟨⟨⟨⟨he, hc⟩, -⟩, -⟩, -⟩, hp⟩, hr⟩, hpage⟩, hrow⟩, -⟩ := hf
  exact ⟨new, hnew, he, hc, hp, hr, hpage, hrow⟩

/-- A valid request that replaces the pointer it expects moves the chain on. -/
theorem succession_of_valid (hv : request.validate external = .ok ())
    (hprev : request.expectedPrevious = some expected) (hnew : expected ≠ request.candidate)
    (hp : progressFollows (some expected) request.candidate = true) :
    Names expected request.candidate ∧ Advances expected request.candidate := by
  unfold PublishStandingRuntimeCheckpointRequest.validate at hv
  rw [hprev] at hv
  simp only [checks_ok, PublishStandingRuntimeCheckpointRequest.validateSuccession] at hv
  obtain ⟨-, -, -, he, -, hsuccession⟩ := hv
  rw [if_neg hnew.symm] at hsuccession
  simp only [checks_ok] at hsuccession
  obtain ⟨hepoch, hn, hg⟩ := hsuccession
  have hepoch := require_ok hepoch
  have hn := require_ok hn
  have hg := require_ok hg
  rw [decide_eq_true_eq] at hepoch hn hg
  refine ⟨⟨hn.1, hn.2⟩, hepoch, ?_, ?_, ?_⟩
  · intro hset
    exact (hg.resolve_left hset).1
  · intro hset
    rcases hg with hz | hs
    · exact absurd (planHash_of_generation_zero he hz) hset
    · exact hs.2
  · intro old hold
    unfold progressFollows at hp
    rw [Option.bind_some, hold] at hp
    obtain ⟨new, hnp, hf⟩ := (Option.any_eq_true _ _).mp hp
    exact ⟨new, hnp, notBehind_of_follows hf⟩

theorem initial_of_valid (hv : request.validate external = .ok ())
    (hprev : request.expectedPrevious = none) :
    request.candidate.previousCheckpointKey = "" ∧ request.candidate.previousManifestHash = "" := by
  unfold PublishStandingRuntimeCheckpointRequest.validate at hv
  rw [hprev] at hv
  simp only [checks_ok] at hv
  have he := require_ok hv.2.2.2
  simp only [Bool.and_eq_true, String.isEmpty_iff] at he
  exact he

end Validation

/-- The request that published a checkpoint of the scope. -/
def publishedAt (scope : Scope) : Event → Option PublishStandingRuntimeCheckpointRequest
  | .publishStandingRuntimeCheckpoint _ request (.ok .published) =>
    if request.candidate.scope = scope then some request else none
  | _ => none

def published (scope : Scope) (log : List Event) : List PublishStandingRuntimeCheckpointRequest :=
  log.filterMap (publishedAt scope)

/-- The token that a request is authorised by. -/
def Event.token : Event → Option StandingRuntimeOwnerToken
  | .reacquireStandingRuntimeOwner _ request _ => some request.expectedCurrent.token
  | .renewStandingRuntimeOwner _ owner _ _ => some owner
  | .publishStandingRuntimeCheckpoint _ request _ => some request.owner
  | .fixViewBootstrapActivationCut _ request _ => some request.owner
  | .promoteViewBootstrap _ request _ => some request.activation.owner
  | .promoteViewBootstrapWithActiveViewRecord _ request _ _ => some request.activation.owner
  | _ => none

/-- The request was let through; being told of a conflict by a reacquisition is a refusal. -/
def Event.Admitted : Event → Prop
  | .reacquireStandingRuntimeOwner _ _ result => ∃ claim, result = .ok (.acquired claim)
  | .renewStandingRuntimeOwner _ _ _ result => ∃ claim, result = .ok claim
  | .publishStandingRuntimeCheckpoint _ _ result => ∃ outcome, result = .ok outcome
  | .fixViewBootstrapActivationCut _ _ result => ∃ outcome, result = .ok outcome
  | .promoteViewBootstrap _ _ result => ∃ outcome, result = .ok outcome
  | .promoteViewBootstrapWithActiveViewRecord _ _ _ result => ∃ outcome, result = .ok outcome
  | _ => False

section Steps
variable {external : External} {s next : InMemoryMetaState} {event : Event} {scope : Scope}

/-- The claim of the scope is `old` or a later one. -/
def ClaimFollows (old : StandingRuntimeOwnerClaim) (scope : Scope) (state : InMemoryMetaState) :
    Prop :=
  ∃ new, state.standingRuntimeOwners.lookup scope = some new ∧ old.ownerEpoch ≤ new.ownerEpoch ∧
    (old.ownerEpoch = new.ownerEpoch → old.ownerId = new.ownerId)

theorem claim_step (h : Effect external s event next) {old : StandingRuntimeOwnerClaim}
    (hold : s.standingRuntimeOwners.lookup scope = some old) : ClaimFollows old scope next := by
  cases h with
  | owned hevent hscope hm =>
    rename_i written c
    by_cases hs : scope = written
    · subst hs
      obtain ⟨hle, hid⟩ := hm old hold
      exact ⟨c, lookup_insert _, hle, hid⟩
    · exact ⟨old, (lookup_insert_ne hs).trans hold, le_rfl, fun _ => rfl⟩
  | rehashed h =>
    rw [h.rest]
    exact ⟨old, hold, le_rfl, fun _ => rfl⟩
  | _ => exact ⟨old, hold, le_rfl, fun _ => rfl⟩

def ClaimsKeyed (state : InMemoryMetaState) : Prop :=
  ∀ scope claim, state.standingRuntimeOwners.lookup scope = some claim → claim.scope = scope

theorem ClaimsKeyed.step (hk : ClaimsKeyed s) (h : Effect external s event next) :
    ClaimsKeyed next := by
  cases h with
  | owned hevent hscope hm =>
    rename_i written c
    intro scope found hf
    by_cases hs : scope = written
    · subst hs
      have hc : some c = some found := (lookup_insert _).symm.trans hf
      rw [← Option.some.inj hc]
      exact hscope
    · exact hk scope found ((lookup_insert_ne hs).symm.trans hf)
  | rehashed h =>
    rw [h.rest]
    exact hk
  | _ => exact hk

theorem ends_owned (hk : ClaimsKeyed s) {β : Type} {check : Except MetaStoreError Unit}
    {now : Except MetaStoreError UInt64} {owner : StandingRuntimeOwnerToken}
    {rest : UInt64 → Unit → Answer β} :
    (guarded s check fun _ => guarded s now fun now =>
      guarded s (validateCurrentStandingRuntimeOwner (s.standingRuntimeOwners.lookup scope)
        owner now) (rest now)).Ends fun next result =>
      (next = s ∧ ∃ error, result = .error error) ∨
        ∃ c, s.standingRuntimeOwners.lookup owner.scope = some c ∧ c.token = owner := by
  have hf (error : MetaStoreError) : (s = s ∧ ∃ reason, (.error error :
      Except MetaStoreError β) = .error reason) ∨ ∃ c,
      s.standingRuntimeOwners.lookup owner.scope = some c ∧ c.token = owner :=
    .inl ⟨rfl, error, rfl⟩
  refine ends_guarded hf fun _ _ => ends_guarded hf fun now _ =>
    ends_guarded hf fun ⟨⟩ ho => .inr ?_
  obtain ⟨c, hl, hc⟩ := token_of_currentOwner ho
  have hscope : owner.scope = scope := by
    rw [← hc]
    exact hk scope c hl
  exact ⟨c, hscope ▸ hl, hc⟩

theorem admitted_cases (hk : ClaimsKeyed s) (h : Step external s event next)
    {token : StandingRuntimeOwnerToken} (ht : event.token = some token) :
    (¬ event.Admitted ∧ next = s) ∨ ∃ c, s.standingRuntimeOwners.lookup token.scope = some c ∧
        c.token = token := by
  cases h with
  | reacquireStandingRuntimeOwner h =>
    cases ht
    rcases (reacquireOwnerClaim_effect _ _).of_eq h with ⟨rfl, hr⟩ | ⟨hl, -⟩
    · exact .inl ⟨fun ⟨c, hc⟩ => hr c hc, rfl⟩
    · exact .inr ⟨_, hl, rfl⟩
  | renewStandingRuntimeOwner h | publishStandingRuntimeCheckpoint h
  | fixViewBootstrapActivationCut h | promoteViewBootstrap h =>
    cases ht
    refine ((ends_owned hk).of_eq h).imp_left ?_
    rintro ⟨rfl, error, rfl⟩
    exact ⟨by simp [Event.Admitted], rfl⟩
  | promoteViewBootstrapWithActiveViewRecord h =>
    cases ht
    refine ((ends_guarded (fun error => .inl ⟨rfl, error, rfl⟩) fun _ _ =>
      ends_owned hk).of_eq h).imp_left ?_
    rintro ⟨rfl, error, rfl⟩
    exact ⟨by simp [Event.Admitted], rfl⟩
  | _ => cases ht

theorem publishedAt_of_refused (h : event.Refused) : publishedAt scope event = none := by
  unfold publishedAt
  split
  · exact absurd rfl h
  · rfl

theorem pointer_keep (h : Effect external s event next) (hn : publishedAt scope event = none) :
    next.standingRuntimeCheckpoints.lookup scope = s.standingRuntimeCheckpoints.lookup scope := by
  cases h with
  | published hv ho hnew hprev hp =>
    simp only [publishedAt] at hn
    split_ifs at hn with hscope
    exact lookup_insert_ne (Ne.symm hscope)
  | rehashed h => rw [h.rest]
  | _ => rfl

theorem pointer_move (h : Effect external s event next)
    (hsome : publishedAt scope event = some request) :
    next.standingRuntimeCheckpoints.lookup scope = some request.candidate ∧
      (∃ c, s.standingRuntimeOwners.lookup scope = some c ∧ c.token = request.owner) ∧
      (s.standingRuntimeCheckpoints.lookup scope = none →
        request.candidate.previousCheckpointKey = "" ∧
          request.candidate.previousManifestHash = "") ∧
      ∀ previous, s.standingRuntimeCheckpoints.lookup scope = some previous →
        Names previous request.candidate ∧ Advances previous request.candidate := by
  cases h with
  | refused hr => cases (publishedAt_of_refused hr).symm.trans hsome
  | published hv ho hnew hprev hp =>
    simp only [publishedAt] at hsome
    split_ifs at hsome with hscope
    cases hsome
    subst hscope
    refine ⟨lookup_insert _, ho, ?_, ?_⟩
    · intro hn
      exact initial_of_valid hv (hprev.symm.trans hn)
    · intro previous hsome
      have he := hprev.symm.trans hsome
      apply succession_of_valid hv he
      · intro hs
        exact hnew (hs ▸ hsome)
      · rw [← he]
        exact hp
  | owned hevent _ _ | activated _ hevent _ _ => cases event <;> first | cases hsome | cases hevent
  | _ => cases hsome

end Steps

structure Lineage (scope : Scope) (log : List Event) (state : InMemoryMetaState) : Prop where
  keyed : ClaimsKeyed state
  last : state.standingRuntimeCheckpoints.lookup scope =
    (published scope log).getLast?.map PublishStandingRuntimeCheckpointRequest.candidate
  first : ∀ request ∈ (published scope log).head?,
    request.candidate.previousCheckpointKey = "" ∧ request.candidate.previousManifestHash = ""
  chain : (published scope log).IsChain fun previous next =>
    Names previous.candidate next.candidate
  advances : (published scope log).Pairwise fun previous next =>
    Advances previous.candidate next.candidate ∧
      previous.owner.ownerEpoch ≤ next.owner.ownerEpoch
  owners : ∀ request ∈ published scope log, ∃ claim,
    state.standingRuntimeOwners.lookup scope = some claim ∧
      request.owner.ownerEpoch ≤ claim.ownerEpoch

theorem lineage_empty (scope : Scope) : Lineage scope [] {} where
  keyed := by
    intro scope c hc
    cases hc
  last := rfl
  first := by simp [published]
  chain := List.IsChain.nil
  advances := List.Pairwise.nil
  owners := by simp [published]

section Runs
variable {external : External} {s next : InMemoryMetaState} {event : Event} {scope : Scope}
  {log : List Event}

@[simp]
theorem published_snoc (log : List Event) (event : Event) :
    published scope (log ++ [event]) = published scope log ++ (publishedAt scope event).toList := by
  rw [published, filterMap_append]
  cases h : publishedAt scope event <;> simp [published, h]

theorem Lineage.owners_step (h : Lineage scope log s)
    (he : Effect external s event next) (hmem : request ∈ published scope log) :
    ∃ c, next.standingRuntimeOwners.lookup scope = some c ∧
      request.owner.ownerEpoch ≤ c.ownerEpoch := by
  obtain ⟨old, hold, hle⟩ := h.owners request hmem
  obtain ⟨new, hnew, hm, -⟩ := claim_step he hold
  exact ⟨new, hnew, hle.trans hm⟩

theorem Lineage.advances_last (h : Lineage scope log s) {pointer : StandingRuntimeCheckpointPointer}
    (hpointer : s.standingRuntimeCheckpoints.lookup scope = some pointer)
    {candidate : StandingRuntimeCheckpointPointer} (hn : Advances pointer candidate) :
    ∀ request ∈ published scope log, Advances request.candidate candidate := by
  rw [h.last] at hpointer
  obtain ⟨last, hl, rfl⟩ := Option.map_eq_some_iff.mp hpointer
  obtain ⟨front, hf⟩ := getLast?_eq_some_iff.mp hl
  have ha := h.advances
  rw [hf, pairwise_append] at ha
  intro request hmem
  rw [hf, mem_append, mem_singleton] at hmem
  rcases hmem with hmem | rfl
  · exact (ha.2.2 request hmem last (mem_singleton_self last)).1.trans hn
  · exact hn

theorem Lineage.step (h : Lineage scope log s) (he : Effect external s event next) :
    Lineage scope (log ++ [event]) next := by
  cases hevent : publishedAt scope event with
  | none =>
    have hs : published scope (log ++ [event]) = published scope log := by
      rw [published_snoc, hevent, Option.toList_none, append_nil]
    refine ⟨h.keyed.step he, ?_, ?_, ?_, ?_, ?_⟩ <;> rw [hs]
    · rw [pointer_keep he hevent]
      exact h.last
    · exact h.first
    · exact h.chain
    · exact h.advances
    · intro request hmem
      exact h.owners_step he hmem
  | some request =>
    obtain ⟨hpointer, ⟨c, hc, ht⟩, hf, hn⟩ := pointer_move he hevent
    have hsnoc : published scope (log ++ [event]) = published scope log ++ [request] := by
      rw [published_snoc, hevent, Option.toList_some]
    have hepoch : request.owner.ownerEpoch = c.ownerEpoch := by
      rw [← ht]
      rfl
    have hprev {previous : PublishStandingRuntimeCheckpointRequest}
        (hl : (published scope log).getLast? = some previous) :
        s.standingRuntimeCheckpoints.lookup scope = some previous.candidate := by
      rw [h.last, hl]
      rfl
    refine ⟨h.keyed.step he, ?_, ?_, ?_, ?_, ?_⟩ <;> rw [hsnoc]
    · rw [hpointer, getLast?_concat]
      rfl
    · intro head hh
      cases hp : published scope log with
      | nil =>
        rw [hp] at hh
        cases hh
        apply hf
        rw [h.last, hp]
        rfl
      | cons first rest =>
        rw [hp] at hh
        cases hh
        exact h.first _ (by rw [hp]; rfl)
    · rw [isChain_append]
      refine ⟨h.chain, isChain_singleton _, ?_⟩
      intro previous hl candidate hcandidate
      cases hcandidate
      exact (hn _ (hprev hl)).1
    · rw [pairwise_append]
      refine ⟨h.advances, pairwise_singleton _ _, ?_⟩
      intro previous hmem candidate hcandidate
      rw [mem_singleton] at hcandidate
      subst hcandidate
      obtain ⟨current, hcur, hle⟩ := h.owners previous hmem
      cases hc.symm.trans hcur
      refine ⟨?_, hepoch ▸ hle⟩
      have hl := hprev (getLast?_eq_some_getLast (ne_nil_of_mem hmem))
      exact h.advances_last hl (hn _ hl).2 previous hmem
    · intro found hmem
      rw [mem_append, mem_singleton] at hmem
      rcases hmem with hmem | rfl
      · exact h.owners_step he hmem
      · obtain ⟨new, hnew, hm, -⟩ := claim_step he hc
        exact ⟨new, hnew, hepoch ▸ hm⟩

theorem lineage_of_trace (h : Trace (Step external) {} log s) (scope : Scope) :
    Lineage scope log s := by
  apply h.invariant (P := fun log s => Lineage scope log s) (lineage_empty scope)
  intro log s event next hl hs
  exact hl.step (effect_of_step hs)

theorem claim_of_trace (h : Trace (Step external) s log next) {old : StandingRuntimeOwnerClaim}
    (hold : s.standingRuntimeOwners.lookup scope = some old) : ClaimFollows old scope next := by
  induction h with
  | nil => exact ⟨old, hold, le_rfl, fun _ => rfl⟩
  | snoc _ hs ih =>
    obtain ⟨mid, hm, hle, hid⟩ := ih
    obtain ⟨new, hnew, hle', hid'⟩ := claim_step (effect_of_step hs) hm
    refine ⟨new, hnew, hle.trans hle', ?_⟩
    intro heq
    have hme : old.ownerEpoch = mid.ownerEpoch := le_antisymm hle (heq ▸ hle')
    exact (hid hme).trans (hid' (hme.symm.trans heq))

/-- What a run promises about the owners and the checkpoints of a scope. `before` led to
`middle`, and `after` from there to `final`. -/
structure OwnerFencing (external : External) (scope : Scope) (before after : List Event)
    (middle final : InMemoryMetaState) : Prop where
  epochs : ∀ old, middle.standingRuntimeOwners.lookup scope = some old →
    ∃ new, final.standingRuntimeOwners.lookup scope = some new ∧
      old.ownerEpoch ≤ new.ownerEpoch ∧
      (old.ownerId ≠ new.ownerId → old.ownerEpoch < new.ownerEpoch)
  /-- Once a claim with a higher epoch exists, an older token is never let through again. -/
  fenced : ∀ claim token event next, middle.standingRuntimeOwners.lookup scope = some claim →
    token.scope = scope → token.ownerEpoch < claim.ownerEpoch →
    Step external final event next → event.token = some token →
    ¬ event.Admitted ∧ next = final
  first : ∀ request ∈ (published scope (before ++ after)).head?,
    request.candidate.previousCheckpointKey = "" ∧ request.candidate.previousManifestHash = ""
  chain : (published scope (before ++ after)).IsChain fun previous next =>
    Names previous.candidate next.candidate
  advances : (published scope (before ++ after)).Pairwise fun previous next =>
    Advances previous.candidate next.candidate ∧
      previous.owner.ownerEpoch ≤ next.owner.ownerEpoch
  last : final.standingRuntimeCheckpoints.lookup scope =
    (published scope (before ++ after)).getLast?.map
      PublishStandingRuntimeCheckpointRequest.candidate

theorem owners_fenced {before after : List Event} {middle final : InMemoryMetaState}
    (hbefore : Trace (Step external) {} before middle)
    (hafter : Trace (Step external) middle after final) (scope : Scope) :
    OwnerFencing external scope before after middle final := by
  have hlineage : Lineage scope (before ++ after) final :=
    lineage_of_trace (hbefore.append hafter) scope
  refine ⟨?_, ?_, hlineage.first, hlineage.chain, hlineage.advances, hlineage.last⟩
  · intro old hold
    obtain ⟨new, hnew, hle, hid⟩ := claim_of_trace hafter hold
    refine ⟨new, hnew, hle, ?_⟩
    intro hchanged
    exact lt_of_le_of_ne hle fun heq => hchanged (hid heq)
  · intro claim token event next hclaim hscope hstale hstep htoken
    rcases admitted_cases hlineage.keyed hstep htoken with hrefused | ⟨current, hcurrent, hsame⟩
    · exact hrefused
    · -- the current claim has an epoch at least as high, so its token is another one
      obtain ⟨new, hnew, hle, -⟩ := claim_of_trace hafter hclaim
      rw [hscope] at hcurrent
      cases hcurrent.symm.trans hnew
      have hepoch : current.ownerEpoch = token.ownerEpoch := by
        rw [← hsame]
        rfl
      exact absurd (hepoch ▸ hle) (not_le.mpr hstale)

end Runs

section Takeover

def claimRequest (ownerId : String) : AcquireStandingRuntimeOwnerRequest :=
  ⟨"t", "p", "v", ownerId, 10⟩

def zeroHash : String := String.ofList (List.replicate 64 '0')

def checkpointKey : String :=
  "v1/standing-runtime-checkpoints/t/p/v/epochs/00000000000000000001/sha256/" ++ zeroHash ++
    ".checkpoint.arrow"

def firstPointer : StandingRuntimeCheckpointPointer where
  publishedInputBootstrap := none
  tenantId := "t"
  programId := "p"
  viewId := "v"
  checkpointKey := checkpointKey
  logicalEpoch := 1
  contentHash := "sha256:" ++ zeroHash
  manifestHash := "sha256:m1"
  outputManifestRefs := []
  bootstrapGeneration := 0
  planHash := ""
  coverageHash := ""
  inputCoverage := none
  previousCheckpointKey := ""
  previousManifestHash := ""

def firstPublish : PublishStandingRuntimeCheckpointRequest :=
  ⟨none, firstPointer, ⟨"t", "p", "v", "a", 1⟩, none⟩

def claimed : Answer AcquireStandingRuntimeOwnerOutcome :=
  acquireStandingRuntimeOwner {} (.ok 0) (claimRequest "a")

def publishedOnce : Answer PublishStandingRuntimeCheckpointOutcome :=
  claimed.1.publishStandingRuntimeCheckpoint plainExternal (.ok 1) firstPublish

def takenOver : Answer AcquireStandingRuntimeOwnerOutcome :=
  publishedOnce.1.acquireStandingRuntimeOwner (.ok 20) (claimRequest "b")

def beforeTakeover : List Event :=
  [.acquireStandingRuntimeOwner (.ok 0) (claimRequest "a") claimed.2,
    .publishStandingRuntimeCheckpoint (.ok 1) firstPublish publishedOnce.2]

def afterTakeover : List Event :=
  [.acquireStandingRuntimeOwner (.ok 20) (claimRequest "b") takenOver.2]

/-- The lease of an owner that has published runs out, and another one takes over. -/
theorem takeover_fenced :
    publishedOnce.2 = .ok .published ∧
      OwnerFencing plainExternal ("t", "p", "v") beforeTakeover afterTakeover publishedOnce.1
        takenOver.1 := by
  refine ⟨by decide +kernel, ?_⟩
  have hbefore : Trace (Step plainExternal) {} beforeTakeover publishedOnce.1 :=
    (Trace.nil.snoc (.acquireStandingRuntimeOwner (Prod.mk.eta (p := claimed)).symm)).snoc
      (.publishStandingRuntimeCheckpoint (Prod.mk.eta (p := publishedOnce)).symm)
  have hafter : Trace (Step plainExternal) publishedOnce.1 afterTakeover takenOver.1 :=
    Trace.nil.snoc (.acquireStandingRuntimeOwner (Prod.mk.eta (p := takenOver)).symm)
  exact owners_fenced hbefore hafter ("t", "p", "v")

end Takeover

end Velorix.Meta
