import Velorix.Foundation.Moment
import Velorix.Manifest.LeasedPublishing

/-! Publishers that run side by side over one store: the manifests form one chain, and its end is
found. -/
namespace Velorix.Manifest

open Storage

variable {manifestDigest : CheckpointManifest → String} {fenced : Prop} {w later : World}
  {manifest : CheckpointManifest} {permitted : Invocation → Prop} {start : World}

/-- What an invocation promises when it returns. -/
def Promised (call : Invocation) (began : World) (outcome : Outcome) (later : World) : Prop :=
  match call, outcome with
  | .listPublishedManifests, .listed result => ∃ manifests, result = .ok manifests
  | .latestManifest, .latest result => ∃ found, result = .ok found ∧
    (found = none → ∀ checkpointVersion, began.manifests.lookup checkpointVersion = none) ∧
    ∀ latest, found = some latest → Latest began latest later
  | _, _ => True

theorem World.Extends.createRecord {r : OwnershipEpochRecord} :
    w.Extends { w with epochs := w.epochs.insert r } := ⟨id, id⟩

theorem safe_outcome {ε α : Type} {wrap : Except ε α → Outcome} {p : FallibleProgram Op Reply ε α}
    {post : Outcome → World → Prop} {post' : α → World → Prop}
    (hi : Inv manifestDigest fenced w) (h : Returns manifestDigest fenced post' p w)
    (hp : ∀ result later, post (wrap result) later) :
    (publisherSetting manifestDigest fenced).Safe post (do return wrap (← ExceptT.run p)) w := by
  refine Setting.Safe.bind hi (Setting.Safe.weaken h ?_)
  intro result later _ _ _ later' _ _
  exact hp result later'

theorem safe_body (hi : Inv manifestDigest fenced w) (call : Invocation)
    (hc : fenced → ∀ manifest, call ≠ .publishManifest manifest) :
    (publisherSetting manifestDigest fenced).Safe (Promised call w)
      (call.body manifestDigest) w := by
  cases call with
  | publishManifest manifest =>
    exact safe_outcome hi (returns_publishManifest hi fun h => absurd rfl (hc h manifest))
      fun _ _ => trivial
  | listPublishedManifests =>
    refine Setting.Safe.bind hi (Setting.Safe.weaken achieves_listPublishedManifests ?_)
    rintro _ later - - ⟨ms, rfl, -⟩ later' - -
    exact ⟨ms, rfl⟩
  | latestManifest =>
    refine Setting.Safe.bind hi (Setting.Safe.weaken (achieves_latestManifest hi) ?_)
    rintro _ later - - ⟨found, rfl, hn, hsome⟩ later' hg -
    exact ⟨found, rfl, hn, fun latest hl => (hsome latest hl).grow hg⟩
  | writeStateObject s =>
    exact safe_outcome hi (returns_of_free (only_writeStateObject s)) fun _ _ => trivial
  | writeOutputObject o =>
    exact safe_outcome hi (returns_of_free (only_writeOutputObject o)) fun _ _ => trivial
  | publish q => exact safe_outcome hi (returns_publish hi q) fun _ _ => trivial
  | publishProduction productionAuthorityValidated q =>
    exact safe_outcome hi (returns_publishProduction hi productionAuthorityValidated q)
      fun _ _ => trivial

theorem publisher_respects (hp : fenced → ∀ manifest, ¬permitted (.publishManifest manifest)) :
    Pool.Respects (publisherSetting manifestDigest fenced) Promised
      (publisherSystem manifestDigest permitted) := by
  refine ⟨id, ?_, ?_⟩
  · rintro w r later hi ⟨-, rfl⟩
    exact ⟨⟨hi.1.keep .createRecord rfl rfl, fun h => (hi.2 h).keep rfl⟩, .createRecord⟩
  · intro w call hi ha
    refine safe_body hi call fun h manifest heq => ?_
    subst heq
    exact hp h manifest ha

/-- A store in which nothing has been published. -/
structure World.Unpublished (world : World) : Prop where
  manifests : world.manifests = .empty
  marker : world.marker = none

theorem World.Unpublished.inv (h : start.Unpublished) : Inv manifestDigest fenced start := by
  have hn (v : UInt64) : start.manifests.lookup v = none := by
    rw [h.manifests]
    exact KeyedMap.lookup_empty v
  refine ⟨⟨?_, ?_⟩, fun _ => ⟨?_, ?_⟩⟩
  · intro v manifest hl
    rw [hn] at hl
    cases hl
  · intro marker hm
    rw [h.marker] at hm
    cases hm
  · intro v manifest hl
    rw [hn] at hl
    cases hl
  · intro a b earlier manifest p c c' hl
    rw [hn] at hl
    cases hl

theorem sound_of_trace (hstart : start.Unpublished)
    (hp : fenced → ∀ manifest, ¬permitted (.publishManifest manifest))
    {log pool} (ht : Trace (Pool.Step (publisherSystem manifestDigest permitted))
      (Pool.idle start) log pool) :
    Pool.Sound (publisherSetting manifestDigest fenced) Promised pool :=
  ((Pool.sound_idle hstart.inv).run (publisher_respects hp) ht).1

/-- The published manifests are one chain without gaps, and all that they refer to exists. -/
structure GapFree (world : World) : Prop where
  versions : ∃ length : ℕ, ∀ checkpointVersion : UInt64,
    (∃ manifest, world.manifests.lookup checkpointVersion = some manifest) ↔
      checkpointVersion.toNat < length
  states : ∀ {checkpointVersion manifest},
    world.manifests.lookup checkpointVersion = some manifest →
    ∀ state ∈ manifest.stateObjects, ObjectExists state.objectKey world
  outputs : ∀ {checkpointVersion manifest},
    world.manifests.lookup checkpointVersion = some manifest →
    ∀ output ∈ manifest.outputObjects, ObjectExists output.objectKey world
  continues : ∀ {a b ancestor manifest}, a ≤ b →
    world.manifests.lookup a = some ancestor → world.manifests.lookup b = some manifest →
    Continues manifest ancestor

theorem ChainInv.gapFree (h : ChainInv manifestDigest w) : GapFree w := by
  refine ⟨h.exists_length, fun hl => (h.publishable hl).states,
    fun hl => (h.publishable hl).outputs, ?_⟩
  intro a b ancestor manifest hle ha hb
  obtain ⟨ancestor', ha', hc⟩ := h.ancestor hb hle
  rw [ha] at ha'
  cases ha'
  exact hc

/-- No manifest of a higher version is published. -/
def IsLatest (world : World) : Option CheckpointManifest → Prop
  | none => ∀ checkpointVersion, world.manifests.lookup checkpointVersion = none
  | some latest => world.manifests.lookup latest.checkpointVersion = some latest ∧
    ∀ checkpointVersion manifest, world.manifests.lookup checkpointVersion = some manifest →
      checkpointVersion ≤ latest.checkpointVersion

def World.Publishes (world later : World) : Prop :=
  later.manifests = world.manifests ∨
    ∃ manifest, world.manifests.lookup manifest.checkpointVersion = none ∧
      later.manifests = world.manifests.insert manifest

theorem Calls.publishes {op : Op} {reply : Reply op} (h : Calls w op reply later) :
    w.Publishes later := by
  obtain ⟨-, rfl⟩ := h
  by_cases hf : op.Free
  · exact .inl (answer_free w hf).1
  · cases op with
    | putManifest manifest =>
      exact createOnly_keeps (.inl rfl) fun hn => .inr ⟨manifest, hn, rfl⟩
    | putMarker marker => exact .inl rfl
    | _ => exact absurd trivial hf

theorem step_publishes {pool event next}
    (hs : Pool.Step (publisherSystem manifestDigest permitted) pool event next) :
    pool.shared.Publishes next.shared := by
  cases hs with
  | began _ _ | returned _ => exact .inl rfl
  | called _ hc => exact Calls.publishes hc
  | crashed => exact .inl rfl
  | moved hm => exact .inl (by rw [hm.2])

theorem isLatest_of_step {pool event next} (hc : ChainInv manifestDigest pool.shared)
    (hs : Pool.Step (publisherSystem manifestDigest permitted) pool event next)
    (hb : pool.shared.manifests.lookup manifest.checkpointVersion ≠ some manifest)
    (ha : next.shared.manifests.lookup manifest.checkpointVersion = some manifest) :
    IsLatest next.shared (some manifest) := by
  refine ⟨ha, ?_⟩
  rcases step_publishes hs with hsame | ⟨new, hf, hn⟩
  · rw [hsame] at ha
    exact absurd ha hb
  · intro v other ho
    rw [hn, KeyedMap.lookup_insert] at ha ho
    split_ifs at ha with hv
    · cases ha
      split_ifs at ho with hsame
      · rw [hsame]
      · by_contra hlt
        obtain ⟨ancestor, hancestor, -⟩ := hc.ancestor ho (not_le.mp hlt).le
        rw [hf] at hancestor
        cases hancestor
    · exact absurd ha hb

/-- What is found was the latest at some moment in the course of the call. -/
theorem during_isLatest (hstart : start.Unpublished) {log pool id next result}
    (ht : Trace (Pool.Step (publisherSystem manifestDigest permitted)) (Pool.idle start) log
      pool)
    (hs : Pool.Step (publisherSystem manifestDigest permitted) pool
      (.returned id .latestManifest (.latest result)) next) :
    ∃ latest, result = .ok latest ∧
      Pool.During (publisherSystem manifestDigest permitted) start log pool id
        (IsLatest · latest) := by
  have hsound {log pool} (ht : Trace (Pool.Step (publisherSystem manifestDigest permitted))
      (Pool.idle start) log pool) :
      Pool.Sound (publisherSetting manifestDigest False) Promised pool :=
    sound_of_trace hstart nofun ht
  cases hs with
  | returned htask =>
    obtain ⟨found, hres, hn, hsome⟩ := (hsound ht).returned htask
    refine ⟨found, hres, ?_⟩
    cases found with
    | none =>
      exact Pool.during_of_reached (Q := fun _ => True) ht htask trivial (fun _ => hn rfl)
        fun _ _ hnot => absurd trivial hnot
    | some latest =>
      obtain ⟨hp, hh⟩ := hsome latest rfl
      refine Pool.during_of_reached
        (Q := fun w => w.manifests.lookup latest.checkpointVersion = some latest)
        ht htask hp (fun hbegan => ⟨hbegan, fun _ _ => hh⟩) ?_
      intro log before event after hr hm hb ha
      exact isLatest_of_step (hsound hr).inv.1 hm hb ha

/-- However many publishers run side by side and wherever they crash, the published manifests are
one chain without gaps, they can be listed, and the latest one is found. -/
theorem manifests_one_chain (hstart : start.Unpublished) {log pool}
    (htrace : Trace (Pool.Step (publisherSystem manifestDigest fun _ => True)) (Pool.idle start)
      log pool) :
    GapFree pool.shared ∧
    (∀ id result next, Pool.Step (publisherSystem manifestDigest fun _ => True) pool
      (.returned id .listPublishedManifests (.listed result)) next →
      ∃ manifests, result = .ok manifests) ∧
    ∀ id result next, Pool.Step (publisherSystem manifestDigest fun _ => True) pool
      (.returned id .latestManifest (.latest result)) next → ∃ latest, result = .ok latest ∧
        Pool.During (publisherSystem manifestDigest fun _ => True) start log pool id
          (IsLatest · latest) := by
  have hsound : Pool.Sound (publisherSetting manifestDigest False) Promised pool :=
    sound_of_trace hstart nofun htrace
  refine ⟨hsound.inv.1.gapFree, ?_, fun id result next => during_isLatest hstart htrace⟩
  intro id result next hstep
  cases hstep with
  | returned htask => exact hsound.returned htask

/-- The state that an owner writes for the first partition. -/
def plainState (claim : PartitionOwnerClaim) (checkpointVersion : UInt64) (objectKey : ObjectKey)
    (keyed : stateObjectKey claim.ownerId 0 checkpointVersion "rows" = .ok objectKey) :
    StateObjectWrite :=
  ⟨claim.ownerId, 0, checkpointVersion, "rows", [], some claim, objectKey, keyed⟩

def plainManifest (state : StateObjectWrite) (endOffsetExclusive : UInt64) :
    CheckpointManifest where
  schemaVersion := 1
  checkpointVersion := state.checkpointVersion
  inputRanges := [⟨"orders", 0, 0, endOffsetExclusive⟩]
  stateObjects := [state.objectRef]
  outputObjects := []
  parentCheckpoint :=
    if state.checkpointVersion = 0 then none else some (state.checkpointVersion - 1)
  createdAt := "t"

def plainDigest (manifest : CheckpointManifest) : String := manifest.createdAt

def firstState : StateObjectWrite :=
  plainState ⟨"a", 1⟩ 0 ⟨"v1/state/a/p=0000000000/chk=00000000000000000000/rows.state"⟩
    (by decide +kernel)

def secondState : StateObjectWrite :=
  plainState ⟨"a", 1⟩ 1 ⟨"v1/state/a/p=0000000000/chk=00000000000000000001/rows.state"⟩
    (by decide +kernel)

/-- A publisher crashes before it sets the marker, and another one goes on. -/
def crashedThenContinued : List (Pool.Command Invocation OwnershipEpochRecord) :=
  [.start 0 (.writeStateObject firstState), .advance 0 5, .finish 0,
   .start 0 (.writeStateObject secondState), .advance 0 5, .finish 0,
   .start 1 (.publishManifest (plainManifest firstState 4)), .advance 1 2, .crash 1,
   .start 2 (.publishManifest (plainManifest secondState 6)), .advance 2 9, .finish 2,
   .start 3 .latestManifest, .advance 3 12]

/-- What a program is about to return as the latest manifest. -/
def aboutToFind (pool : Pool Invocation Op Reply Outcome World) (id : ℕ) :
    Option (Option CheckpointManifest) :=
  (pool.tasks id).bind fun
    | ⟨.latestManifest, _, .done (.latest (.ok latest))⟩ => some latest
    | _ => none

theorem exists_found {pool : Pool Invocation Op Reply Outcome World} {id : ℕ}
    {latest : Option CheckpointManifest} (h : aboutToFind pool id = some latest) :
    ∃ next, Pool.Step (publisherSystem manifestDigest permitted) pool
      (.returned id .latestManifest (.latest (.ok latest))) next := by
  obtain ⟨task, htask, hf⟩ := Option.bind_eq_some_iff.mp h
  split at hf
  · cases hf
    exact ⟨_, .returned htask⟩
  · cases hf

theorem crashedThenContinued_runs :
    ((publisherDriver plainDigest fun _ => True).follow crashedThenContinued
      (Pool.idle {})).any (fun result =>
        aboutToFind result.2 3 = some (some (plainManifest secondState 6))) = true := by
  decide +kernel

theorem crashedThenContinued_latest : ∃ log pool,
    Trace (Pool.Step (publisherSystem plainDigest fun _ => True)) (Pool.idle {}) log pool ∧
    GapFree pool.shared ∧ Pool.During (publisherSystem plainDigest fun _ => True) {} log pool 3
      (IsLatest · (some (plainManifest secondState 6))) := by
  obtain ⟨⟨outs, pool⟩, hfollow, hresult⟩ :=
    (Option.any_eq_true _ _).mp crashedThenContinued_runs
  obtain ⟨log, -, htrace⟩ := Pool.Driver.trace_of_follow hfollow
  obtain ⟨next, hstep⟩ := exists_found (of_decide_eq_true hresult)
  obtain ⟨hchain, -, hlatest⟩ := manifests_one_chain ⟨rfl, rfl⟩ htrace
  obtain ⟨latest, hok, hduring⟩ := hlatest 3 _ next hstep
  cases hok
  exact ⟨log, pool, htrace, hchain, hduring⟩

end Velorix.Manifest
