import Velorix.Admission.Index

/-! What a coordinator learns when it reads the store while others write to it. -/
namespace Velorix.Admission

open Storage FallibleProgram Setting List

variable {range : IngestRange} {α : Type}

def Op.Reads : Op → Prop
  | .putBatch _ _ => False
  | .putAdmission _ => False
  | .putDecision _ => False
  | .putTransition _ => False
  | _ => True

section Replies
variable {world later : World}

theorem calls_listAdmissions {objects : AdmissionListing}
    (h : Calls world .listAdmissions (.ok objects) later) :
    objects = ⟨world.admissions.keys, world.decisions.keys⟩ := by
  rcases Unreliable.calls_cases h with ⟨hr, -⟩ | ⟨⟨error, he⟩, -⟩
  · exact Except.ok.inj hr
  · cases he

theorem calls_getAdmission {r : AdmissionRecord}
    (h : Calls world (.getAdmission range) (.ok r) later) :
    world.admissions.lookup range = some r := by
  rcases Unreliable.calls_cases h with ⟨hr, -⟩ | ⟨⟨error, he, -⟩, -⟩
  · exact found_eq_ok.mp hr.symm
  · cases he

theorem calls_getTransition {i : String × UInt32} {digest : String} {t : Transition}
    (h : Calls world (.getTransition i digest) (.ok t) later) :
    world.transitions.lookup (i, digest) = some t := by
  rcases Unreliable.calls_cases h with ⟨hr, -⟩ | ⟨⟨error, he, -⟩, -⟩
  · exact found_eq_ok.mp hr.symm
  · cases he

theorem calls_getDecision {decisionId : String} {decision : ExpiryDecision}
    (h : Calls world (.getDecision range decisionId) (.ok decision) later) :
    world.decisions.lookup (range, decisionId) = some decision := by
  rcases Unreliable.calls_cases h with ⟨hr, -⟩ | ⟨⟨error, he, -⟩, -⟩
  · exact found_eq_ok.mp hr.symm
  · cases he

end Replies

section Reads

theorem only_orFail (reply : Except ObjectStoreError α) : Only Op.Reads (orFail reply) := by
  cases reply <;> trivial

theorem reads_objectExists (range : IngestRange) : Only Op.Reads (objectExists range) := by
  refine only_call trivial fun reply => ?_
  split
  · exact only_pure true
  · exact only_pure false
  · exact only_throw _

theorem reads_listCommitted : Only Op.Reads listCommitted :=
  only_call trivial fun reply => (only_orFail reply).bind fun _ =>
    (only_fromExcept _).bind fun _ => only_pure _

variable (f : Formats)

theorem reads_validateIndexTransition (t : Transition)
    (requireMaterialized : Bool) : Only Op.Reads
      (validateIndexTransitionMaterializedAdmission f t requireMaterialized) := by
  refine only_call trivial fun reply => ?_
  split
  · split_ifs
    · exact only_throw _
    · exact only_pure ()
  · split_ifs
    · exact only_throw _
    · exact only_pure ()
  · exact only_throw _

theorem reads_validateCommittedAdmission (admission : AdmissionRecord) (descriptor : IngestRange) :
    Only Op.Reads (validateCommittedAdmission f admission descriptor) := by
  refine only_call trivial fun reply => (only_orFail reply).bind fun b =>
    (only_fromExcept _).bind fun he => ?_
  dsimp only
  split_ifs <;> trivial

theorem reads_listAdmissionRecordBodies : Only Op.Reads listAdmissionRecordBodies := by
  refine only_call trivial fun reply => (only_orFail reply).bind fun _ => only_forEach ?_ _
  exact fun _ => only_call trivial only_orFail

theorem reads_listAdmissionExpiryDecisions : Only Op.Reads listAdmissionExpiryDecisions := by
  refine only_call trivial fun reply => (only_orFail reply).bind fun _ => only_forEach ?_ _
  exact fun _ => only_call trivial only_orFail

theorem reads_listRangeAdmissionIndexTransitions (i : String × UInt32)
    (requireMaterialized : Bool) :
    Only Op.Reads (listRangeAdmissionIndexTransitions f i requireMaterialized) := by
  refine only_call trivial fun reply => (only_orFail reply).bind fun _ => only_forEach ?_ _
  exact fun _ => only_call trivial fun reply => (only_orFail reply).bind fun t =>
    (reads_validateIndexTransition f t requireMaterialized).bind fun _ => only_pure _

theorem reads_listExpiredOrphanAdmissionKeys (i : String × UInt32) (bodies : List AdmissionRecord) :
    Only Op.Reads (listExpiredOrphanAdmissionKeys f i bodies) := by
  refine reads_listAdmissionExpiryDecisions.bind fun decisions =>
    (only_forEach (fun admission => ?_) _).bind fun _ => only_pure _
  split
  · exact only_pure none
  · refine (reads_objectExists _).bind fun present => ?_
    split_ifs <;> trivial

theorem reads_listActiveAdmissionRecords : Only Op.Reads (listActiveAdmissionRecords f) := by
  refine reads_listCommitted.bind fun committed => reads_listAdmissionExpiryDecisions.bind
    fun decisions => reads_listAdmissionRecordBodies.bind fun bodies =>
    (only_forEach (fun admission => ?_) _).bind fun _ => only_pure _
  split
  · exact (reads_validateCommittedAdmission _ _ _).bind fun _ => only_pure _
  · split_ifs <;> trivial

theorem reads_loadRangeAdmissionIndexStateForPartition
    (i : String × UInt32) (requireMaterialized : Bool) : Only Op.Reads
      (loadRangeAdmissionIndexStateForPartition f i requireMaterialized) :=
  (reads_listRangeAdmissionIndexTransitions _ _ _).bind fun _ =>
    reads_listAdmissionRecordBodies.bind fun _ =>
    (reads_listExpiredOrphanAdmissionKeys _ _ _).bind fun _ =>
    (reads_listActiveAdmissionRecords _).bind fun _ => only_fromExcept _

theorem reads_committedOverlapConflict (coordinator : ℕ) (descriptor : IngestRange) :
    Only Op.Reads (committedOverlapConflict coordinator descriptor) := by
  refine Only.bind (only_call trivial fun reply => ?_) fun committed => only_pure _
  split
  · exact only_pure _
  · exact reads_listCommitted.bind fun loaded => only_call trivial fun _ => only_pure _

theorem reads_indexedOrCommittedOverlapConflict (coordinator : ℕ) (descriptor : IngestRange) :
    Only Op.Reads (indexedOrCommittedOverlapConflict f coordinator descriptor) := by
  refine (reads_committedOverlapConflict coordinator descriptor).bind fun conflict => ?_
  split
  · exact only_pure none
  · refine (reads_loadRangeAdmissionIndexStateForPartition _ _ _).bind fun s =>
      (only_fromExcept _).bind fun probe => ?_
    split <;> trivial

theorem reads_compareWithExisting (b : IngestBatch) (existing : Bytes) :
    Only Op.Reads (compareWithExisting f b existing) := by
  refine (only_fromExcept _).bind fun existing => (only_fromExcept _).bind fun incoming => ?_
  split_ifs <;> trivial

theorem reads_existingBatchConflict (b : IngestBatch) :
    Only Op.Reads (existingBatchConflict f b) := by
  refine only_call trivial fun reply => ?_
  split
  · exact (reads_compareWithExisting _ _ _).bind fun _ => only_pure _
  · exact only_pure none
  · exact only_throw _

theorem reads_catalogValidatedBatch (b : Bytes) : Only Op.Reads (catalogValidatedBatch f b) := by
  refine (only_fromExcept _).bind fun he => only_call trivial fun reply => ?_
  split
  · exact only_throw _
  · split_ifs
    · exact only_throw _
    · exact (only_fromExcept _).bind fun _ => only_fromExcept _

end Reads

section Listings
variable {c : Setting Op Reply World} {world middle : World} {bodies : List AdmissionRecord}

/-- Every object lies under the key that it tells. -/
structure World.Keyed (world : World) : Prop where
  admissions : ∀ range record, world.admissions.lookup range = some record → record.range = range
  decisions : ∀ range decisionId decision,
    world.decisions.lookup (range, decisionId) = some decision →
      decision.range = range ∧ decision.decisionId = decisionId

/-- A setting over the store, which reads never leave. -/
structure OverStore (setting : Setting Op Reply World) : Prop where
  calls : ∀ {world op reply later}, setting.calls world op reply later →
    Calls world op reply later
  grows : ∀ {world later}, setting.Grows world later → WorldGrows world later
  keyed : ∀ {world}, setting.Inv world → world.Keyed
  reads : ∀ {world op reply later}, op.Reads → setting.Inv world →
    setting.calls world op reply later → setting.Inv later ∧ setting.Grows world later

theorem OverStore.returns_read (h : OverStore c) {op : Op} {post : α → World → Prop}
    {next : Reply op → Storing α} (hr : op.Reads)
    (hn : ∀ middle, c.Grows world middle → c.Inv middle → ∀ reply later,
      Calls middle op reply later → c.Grows middle later → c.Inv later →
      c.Returns post (next reply) later) : c.Returns post (op.ask >>= next) world := by
  refine returns_call fun middle hg hinv reply later hc => ?_
  obtain ⟨hinv', hg'⟩ := h.reads hr hinv hc
  exact ⟨hinv', hg', hn middle hg hinv reply later (h.calls hc) hg' hinv'⟩

theorem returns_orFail {β : Type} {reply : Except ObjectStoreError α} {post : β → World → Prop}
    {next : α → Storing β} (h : ∀ a, reply = .ok a → c.Returns post (next a) world) :
    c.Returns post (orFail reply >>= next) world := by
  cases reply with
  | error source => exact returns_throw
  | ok a => exact h a rfl

theorem returns_orFail_self {reply : Except ObjectStoreError α} {post : α → World → Prop}
    (h : ∀ a, reply = .ok a → ∀ later, c.Grows world later → c.Inv later → post a later) :
    c.Returns post (orFail reply) world := by
  cases reply with
  | error source => exact returns_throw
  | ok a => exact returns_pure (h a rfl)

theorem OverStore.returns_forEach_lookup {K V : Type} [DecidableEq K] (h : OverStore c)
    (table : World → HashMap K V)
    (ht : ∀ {world later}, WorldGrows world later → ∀ key v,
      (table world).lookup key = some v → (table later).lookup key = some v) {read : K → Storing V}
    (hr : ∀ key world, c.Inv world →
      c.Returns (fun v later => (table later).lookup key = some v) (read key) world)
    {keys : List K} (hk : keys.Perm (table middle).keys) (hg : c.Grows middle world)
    (hinv : c.Inv world) :
    c.Returns (fun vs _ => List.Forall₂ (fun key v => (table middle).lookup key = some v)
      keys vs) (forEach read keys) world := by
  refine returns_forEach (P := fun key v _ => (table middle).lookup key = some v) hinv
    (fun hp _ => hp) ?_
  intro key hkey start hstart hi
  refine (hr key start hi).weaken fun v later hlater _ hv => ?_
  obtain ⟨listed, hl⟩ := HashMap.exists_lookup_of_mem_keys (hk.mem_iff.mp hkey)
  have hs := ht (h.grows (c.trans hg (c.trans hstart hlater))) _ _ hl
  rw [hv, Option.some.injEq] at hs
  rw [hl, hs]

/-- The records that are there at one moment. -/
structure Snapshot (world : World) (bodies : List AdmissionRecord) : Prop where
  mem : ∀ record, record ∈ bodies ↔ world.admissions.lookup record.range = some record
  distinct : Distinct bodies

theorem snapshot_of_listing (hk : world.Keyed) {rs : List IngestRange}
    (hranges : rs.Perm world.admissions.keys)
    (hb : List.Forall₂ (fun range r => world.admissions.lookup range = some r)
      rs bodies) : Snapshot world bodies := by
  have hm : rs = bodies.map (·.range) := by
    have hs := forall₂_map_right_iff.mpr (hb.imp fun range r hl =>
      (hk.admissions range r hl).symm)
    rwa [forall₂_eq_eq_eq] at hs
  refine ⟨fun r => ⟨fun hr => ?_, fun hl => ?_⟩, ?_⟩
  · obtain ⟨range, -, hl⟩ := hb.exists_of_mem_right hr
    rwa [hk.admissions range r hl]
  · have hkey : r.range ∈ rs :=
      hranges.mem_iff.mpr (HashMap.mem_keys_of_lookup hl)
    obtain ⟨r', hr', hl'⟩ := hb.exists_of_mem_left hkey
    cases hl.symm.trans hl'
    exact hr'
  · have hn : (bodies.map (·.range)).Nodup := hm ▸ hranges.nodup_iff.mpr (AList.keys_nodup _)
    exact pairwise_map.mp hn

/-- What was listed holds of the store at a moment between the start and the end. -/
def AtMoment {α : Type} (setting : Setting Op Reply World) (world : World)
    (P : α → World → Prop) (a : α) (later : World) : Prop :=
  ∃ middle, setting.Grows world middle ∧ setting.Grows middle later ∧ setting.Inv middle ∧
    P a middle

theorem OverStore.returns_listAdmissionRecordBodies (h : OverStore c) :
    c.Returns (AtMoment c world fun bodies middle => Snapshot middle bodies)
      listAdmissionRecordBodies world := by
  refine h.returns_read trivial fun middle hm hinv reply after hc hg hinv' => ?_
  refine returns_orFail fun objects hok => ?_
  subst hok
  obtain rfl := calls_listAdmissions hc
  have hp : (IngestRange.sortByLocation middle.admissions.keys).Perm middle.admissions.keys :=
    perm_insertionSort _ _
  refine (h.returns_forEach_lookup (·.admissions) (·.admissions) (fun range start _ => ?_) hp
    hg hinv').weaken ?_
  · refine h.returns_read trivial fun middle _ _ reply after hc _ _ => ?_
    refine returns_orFail_self fun r hok later hlater _ => ?_
    subst hok
    exact (hc.grows.trans (h.grows hlater)).admissions _ _ (calls_getAdmission hc)
  · intro bodies later hlater _ hb
    exact ⟨middle, hm, c.trans hg hlater, hinv, snapshot_of_listing (h.keyed hinv) hp hb⟩

theorem OverStore.returns_listAdmissionExpiryDecisions (h : OverStore c) :
    c.Returns (AtMoment c world fun decisions middle => ∀ decision, decision ∈ decisions ↔
        middle.decisions.lookup (decision.range, decision.decisionId) = some decision)
      listAdmissionExpiryDecisions world := by
  refine h.returns_read trivial fun middle hm hinv reply after hc hg hinv' => ?_
  refine returns_orFail fun objects hok => ?_
  subst hok
  obtain rfl := calls_listAdmissions hc
  have hp := perm_insertionSort (fun left right : IngestRange × String =>
    toLex (left.1.location, left.2) ≤ toLex (right.1.location, right.2)) middle.decisions.keys
  refine (h.returns_forEach_lookup (·.decisions) (·.decisions) (fun range start _ => ?_) hp
    hg hinv').weaken ?_
  · refine h.returns_read trivial fun middle _ _ reply after hc _ _ => ?_
    refine returns_orFail_self fun r hok later hlater _ => ?_
    subst hok
    exact (hc.grows.trans (h.grows hlater)).decisions _ _ (calls_getDecision hc)
  · intro decisions later hlater _ hdecs
    refine ⟨middle, hm, c.trans hg hlater, hinv, fun decision => ⟨?_, ?_⟩⟩
    · intro hd
      obtain ⟨key, -, hl⟩ := hdecs.exists_of_mem_right hd
      obtain ⟨hr, hid⟩ := (h.keyed hinv).decisions _ _ _ hl
      rwa [hr, hid]
    · intro hl
      obtain ⟨decision', hd', hl'⟩ := hdecs.exists_of_mem_left
        (hp.mem_iff.mpr (HashMap.mem_keys_of_lookup hl))
      cases hl.symm.trans hl'
      exact hd'

end Listings

end Velorix.Admission
