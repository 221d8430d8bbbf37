import Velorix.Engine.Kernel
import Velorix.Foundation.Trace

/-! Any number of kernels and outstanding tokens. A token is accepted only by the instance
that prepared it, and only while that instance has committed nothing since. -/
namespace Velorix.Engine

open Delta Operator List Option KeyedAggregateKernel

variable {prepared : PreparedKeyedAggregateEpoch} {kernel token : ℕ} {owner : KeyedAggregateKernel}
  {input : DeltaBatch}

/-- Kernels and tokens are named by the order in which they were made. A token that was moved
into a commit is gone. -/
structure World where
  kernels : List KeyedAggregateKernel
  tokens : List (Option PreparedKeyedAggregateEpoch)
  nextKernelInstanceId : ℕ

inductive Action
  | new (valueMode : AggregateValueMode) (trackExtrema : Bool)
  | fromCheckpoint (checkpoint : EngineCheckpoint) (valueMode : AggregateValueMode)
    (trackExtrema : Bool)
  | clone (kernel : ℕ)
  | prepareEpoch (kernel : ℕ) (logicalEpoch : UInt64) (input : DeltaBatch)
  | commitPreparedEpoch (kernel token : ℕ)
  | pushChanges (kernel : ℕ) (logicalEpoch : UInt64) (input : DeltaBatch)

inductive Outcome
  /-- A new kernel, the last of the list. -/
  | kernel
  /-- A new token, the last of the list. -/
  | token
  | output (batch : DeltaBatch)
  | error (error : EngineError)

/-- The outcome of a call that returns changes. -/
def Outcome.ofResult : Except EngineError DeltaBatch → Outcome
  | .ok batch => .output batch
  | .error reason => .error reason

namespace World

def empty : World := ⟨[], [], 1⟩

def addKernel (world : World) (kernel : KeyedAggregateKernel) : World :=
  { world with
    kernels := world.kernels ++ [kernel]
    nextKernelInstanceId := world.nextKernelInstanceId + 1 }

/-- One call. There is none on a kernel or a token that does not exist. -/
def call (world : World) : Action → Option (World × Outcome)
  | .new valueMode trackExtrema =>
    some (world.addKernel (.withAggregateValueModeAndExtrema valueMode trackExtrema
      world.nextKernelInstanceId), .kernel)
  | .fromCheckpoint checkpoint valueMode trackExtrema =>
    match fromCheckpointWithAggregateValueModeAndExtrema checkpoint valueMode
        trackExtrema world.nextKernelInstanceId with
    | .ok kernel => some (world.addKernel kernel, .kernel)
    | .error error => some (world, .error error)
  | .clone kernel => do
    let source ← world.kernels[kernel]?
    return (world.addKernel (source.clone world.nextKernelInstanceId), .kernel)
  | .prepareEpoch kernel logicalEpoch input => do
    let owner ← world.kernels[kernel]?
    match owner.prepareEpoch logicalEpoch input with
    | .ok token => return ({ world with tokens := world.tokens ++ [some token] }, .token)
    | .error error => return (world, .error error)
  | .commitPreparedEpoch kernel token => do
    let owner ← world.kernels[kernel]?
    let prepared ← (world.tokens[token]?).join
    let called := owner.commitPreparedEpoch prepared
    return ({ world with
      kernels := world.kernels.set kernel called.1
      tokens := world.tokens.set token none }, .ofResult called.2)
  | .pushChanges kernel logicalEpoch input => do
    let owner ← world.kernels[kernel]?
    let called := owner.pushChanges logicalEpoch input
    return ({ world with kernels := world.kernels.set kernel called.1 }, .ofResult called.2)

end World

/-- What happened: the calls with their outcomes. -/
abbrev Event := Action × Outcome

variable {before after : List Event}

def World.callAll (world : World) : List Action → Option (World × List Event)
  | [] => some (world, [])
  | action :: actions => do
    let called ← world.call action
    let rest ← called.1.callAll actions
    return (rest.1, (action, called.2) :: rest.2)

def Step (world : World) (event : Event) (next : World) : Prop :=
  world.call event.1 = some (next, event.2)

/-- The preparation that made a token: by which kernel, for which epoch, from what input. -/
def preparation : Event → Option (ℕ × UInt64 × DeltaBatch)
  | (.prepareEpoch kernel logicalEpoch input, .token) => some (kernel, logicalEpoch, input)
  | _ => none

/-- The preparations of a log; the token of the first is token 0, and so on. -/
def preparations (log : List Event) : List (ℕ × UInt64 × DeltaBatch) := log.filterMap preparation

/-- An event that moved a kernel on: a commit or a push that succeeded. -/
def Advanced (kernel : ℕ) : Event → Prop
  | (.commitPreparedEpoch owner _, .output _) => owner = kernel
  | (.pushChanges owner _ _, .output _) => owner = kernel
  | _ => False

/-- The epoch and the input that an event commits on a kernel. -/
def committed (prepared : List (ℕ × UInt64 × DeltaBatch)) (kernel : ℕ) :
    Event → Option (UInt64 × DeltaBatch)
  | (.commitPreparedEpoch owner token, .output _) =>
    if owner = kernel then (prepared[token]?).map Prod.snd else none
  | (.pushChanges owner logicalEpoch input, .output _) =>
    if owner = kernel then some (logicalEpoch, input) else none
  | _ => none

/-- The token was prepared by the kernel, which has committed nothing since. -/
def Current (log : List Event) (kernel token : ℕ) : Prop :=
  ∃ before logicalEpoch input after,
    log = before ++ (.prepareEpoch kernel logicalEpoch input, .token) :: after ∧
      (preparations before).length = token ∧ ∀ event ∈ after, ¬ Advanced kernel event

def applyInputs (aggregate : KeyedSumCountAggregate) (inputs : List DeltaBatch) :
    Except OperatorError KeyedSumCountAggregate :=
  inputs.foldlM (fun aggregate input => Prod.snd <$> aggregate.apply input) aggregate

/-- The effects of calls, one for each way in which they change the world. -/
inductive Effect (world : World) : Event → World → Prop
  | made {action : Action} (kernel : KeyedAggregateKernel)
      (hid : kernel.instanceId = world.nextKernelInstanceId)
      (hnot : ∀ kernel token, action ≠ .commitPreparedEpoch kernel token) :
      Effect world (action, .kernel) (world.addKernel kernel)
  | failed {action : Action} {error : EngineError} (hnot : ∀ kernel token,
      action ≠ .commitPreparedEpoch kernel token) : Effect world (action, .error error) world
  | prepared {kernel : ℕ} {logicalEpoch : UInt64} {input : DeltaBatch}
      {owner : KeyedAggregateKernel} {token : PreparedKeyedAggregateEpoch}
      (howner : world.kernels[kernel]? = some owner)
      (htoken : owner.prepareEpoch logicalEpoch input = .ok token) :
      Effect world (.prepareEpoch kernel logicalEpoch input, .token)
        { world with tokens := world.tokens ++ [some token] }
  | accepted {kernel token : ℕ} {owner : KeyedAggregateKernel}
      {prepared : PreparedKeyedAggregateEpoch} (howner : world.kernels[kernel]? = some owner)
      (hprepared : world.tokens[token]? = some (some prepared))
      (hid : prepared.kernelInstanceId = owner.instanceId)
      (hbase : prepared.baseEpoch = owner.logicalEpoch) :
      Effect world (.commitPreparedEpoch kernel token, .output prepared.changes.output)
        { world with
          kernels := world.kernels.set kernel
            ⟨prepared.logicalEpoch, owner.aggregate.commit prepared.changes, owner.instanceId⟩
          tokens := world.tokens.set token none }
  | rejected {kernel token : ℕ} {owner : KeyedAggregateKernel}
      {prepared : PreparedKeyedAggregateEpoch} {error : EngineError}
      (howner : world.kernels[kernel]? = some owner)
      (hprepared : world.tokens[token]? = some (some prepared))
      (hnot : ¬ (prepared.kernelInstanceId = owner.instanceId ∧
        prepared.baseEpoch = owner.logicalEpoch)) :
      Effect world (.commitPreparedEpoch kernel token, .error error)
        { world with tokens := world.tokens.set token none }
  | pushed {kernel : ℕ} {logicalEpoch : UInt64} {input : DeltaBatch}
      {owner : KeyedAggregateKernel} {changes : PreparedAggregateChanges}
      (howner : world.kernels[kernel]? = some owner) (hlt : owner.logicalEpoch < logicalEpoch)
      (hchanges : owner.aggregate.prepare input = .ok changes) :
      Effect world (.pushChanges kernel logicalEpoch input, .output changes.output)
        { world with
          kernels := world.kernels.set kernel
            ⟨logicalEpoch, owner.aggregate.commit changes, owner.instanceId⟩ }

private theorem set_self {α : Type} {xs : List α} {i : ℕ} {a : α} (h : xs[i]? = some a) :
    xs.set i a = xs := by
  obtain ⟨hlt, rfl⟩ := List.getElem?_eq_some_iff.mp h
  exact set_getElem_self hlt

theorem effect_of_step {w next : World} {e : Event} (h : Step w e next) : Effect w e next := by
  obtain ⟨action, outcome⟩ := e
  have h : w.call action = some (next, outcome) := h
  cases action with
  | new valueMode track =>
    cases h
    exact .made _ rfl (by simp)
  | fromCheckpoint c valueMode track =>
    rw [World.call] at h
    split at h
    · rename_i kernel hk
      cases h
      exact .made kernel (fromCheckpoint_ok hk).1 (by simp)
    · cases h
      exact .failed (by simp)
  | clone kernel =>
    obtain ⟨source, -, h⟩ := bind_eq_some_iff.mp h
    cases h
    exact .made _ rfl (by simp)
  | prepareEpoch kernel epoch input =>
    obtain ⟨owner, ho, h⟩ := bind_eq_some_iff.mp h
    split at h
    · rename_i token ht
      cases h
      exact .prepared ho ht
    · cases h
      exact .failed (by simp)
  | commitPreparedEpoch kernel token =>
    obtain ⟨owner, ho, h⟩ := bind_eq_some_iff.mp h
    obtain ⟨prepared, hp, h⟩ := bind_eq_some_iff.mp h
    have hp : w.tokens[token]? = some (some prepared) :=
      join_eq_some_iff.mp hp
    rcases owner.commitPreparedEpoch_cases prepared with
      ⟨⟨hid, hb⟩, hcall⟩ | ⟨hn, error, hcall⟩
    · simp only [hcall] at h
      cases h
      exact .accepted ho hp hid hb
    · simp only [hcall, set_self ho] at h
      cases h
      exact .rejected ho hp hn
  | pushChanges kernel epoch input =>
    obtain ⟨owner, ho, h⟩ := bind_eq_some_iff.mp h
    rcases owner.pushChanges_cases epoch input with
      ⟨changes, hlt, hc, hcall⟩ | ⟨error, hcall⟩
    · simp only [hcall] at h
      cases h
      exact .pushed ho hlt hc
    · simp only [hcall, set_self ho] at h
      cases h
      exact .failed (by simp)

/-- The commits of a kernel in a part of the log. -/
def commits (prepared : List (ℕ × UInt64 × DeltaBatch)) (kernel : ℕ) (log : List Event) :
    List (UInt64 × DeltaBatch) :=
  log.filterMap (committed prepared kernel)

/-- An outstanding token: it still fits its kernel exactly while the kernel has not moved. -/
structure Outstanding (log : List Event) (world : World) (token : ℕ)
    (prepared : PreparedKeyedAggregateEpoch) (kernel : ℕ) (owner : KeyedAggregateKernel)
    (input : DeltaBatch) (before after : List Event) : Prop where
  placed : log = before ++ (.prepareEpoch kernel prepared.logicalEpoch input, .token) :: after
  index : (preparations before).length = token
  owned : world.kernels[kernel]? = some owner
  sameInstance : prepared.kernelInstanceId = owner.instanceId
  ahead : prepared.baseEpoch < prepared.logicalEpoch
  reached : prepared.baseEpoch ≤ owner.logicalEpoch
  changes : prepared.baseEpoch = owner.logicalEpoch →
    owner.aggregate.prepare input = .ok prepared.changes
  current : prepared.baseEpoch = owner.logicalEpoch ↔ ∀ event ∈ after, ¬ Advanced kernel event

structure Fenced (log : List Event) (world : World) : Prop where
  ids : ∀ (kernel : ℕ) (owner : KeyedAggregateKernel), world.kernels[kernel]? = some owner →
    owner.instanceId < world.nextKernelInstanceId
  distinct : ∀ (i j : ℕ) (owner other : KeyedAggregateKernel), world.kernels[i]? = some owner →
    world.kernels[j]? = some other → owner.instanceId = other.instanceId → i = j
  tokenCount : world.tokens.length = (preparations log).length
  tokens : ∀ (token : ℕ) (prepared : PreparedKeyedAggregateEpoch),
    world.tokens[token]? = some (some prepared) →
    ∃ kernel owner input before after,
      Outstanding log world token prepared kernel owner input before after
  known : ∀ kernel token outcome, (.commitPreparedEpoch kernel token, outcome) ∈ log →
    token < (preparations log).length
  absent : ∀ kernel, world.kernels.length ≤ kernel → ∀ event ∈ log, ¬ Advanced kernel event
  increasing : ∀ (kernel : ℕ) (owner : KeyedAggregateKernel),
    world.kernels[kernel]? = some owner →
    ((commits (preparations log) kernel log).map Prod.fst).Pairwise (· < ·) ∧
      ∀ epoch ∈ (commits (preparations log) kernel log).map Prod.fst, epoch ≤ owner.logicalEpoch

theorem fenced_empty : Fenced [] .empty where
  ids := by simp [World.empty]
  distinct := by simp [World.empty]
  tokenCount := rfl
  tokens := by simp [World.empty]
  known := by simp
  absent := by simp
  increasing := by simp [World.empty]

@[simp]
theorem preparations_snoc (log : List Event) (e : Event) :
    preparations (log ++ [e]) = preparations log ++ (preparation e).toList := by
  rw [preparations, filterMap_append]
  cases h : preparation e <;> simp [preparations, h]

theorem committed_eq_none {prepared : List (ℕ × UInt64 × DeltaBatch)} {e : Event}
    (h : ¬ Advanced kernel e) : committed prepared kernel e = none := by
  obtain ⟨action, outcome⟩ := e
  cases action <;> cases outcome <;> first | rfl | exact if_neg h

variable {log : List Event}

theorem commits_mono {prepared : List (ℕ × UInt64 × DeltaBatch)}
    (hk : ∀ kernel token outcome, (.commitPreparedEpoch kernel token, outcome) ∈ log →
      token < prepared.length) (more : List (ℕ × UInt64 × DeltaBatch)) (kernel : ℕ) :
    commits (prepared ++ more) kernel log = commits prepared kernel log := by
  apply filterMap_congr
  intro e he
  obtain ⟨action, outcome⟩ := e
  cases action <;> cases outcome <;> try rfl
  rename_i owner token b
  have hlt := hk owner token _ he
  simp only [committed, getElem?_append_left hlt]

theorem commits_snoc {w : World} (h : Fenced log w) (e : Event)
    (kernel : ℕ) : commits (preparations (log ++ [e])) kernel (log ++ [e]) =
      commits (preparations log) kernel log ++
        (committed (preparations (log ++ [e])) kernel e).toList := by
  rw [commits, filterMap_append, ← commits, preparations_snoc, commits_mono h.known]
  cases he : committed (preparations log ++ (preparation e).toList) kernel e <;>
    simp [he]

theorem commits_eq_nil {prepared : List (ℕ × UInt64 × DeltaBatch)}
    (h : ∀ e ∈ log, ¬ Advanced kernel e) : commits prepared kernel log = [] := by
  rw [commits, filterMap_eq_nil_iff]
  intro e he
  exact committed_eq_none (h e he)

section Steps
variable {moved : KeyedAggregateKernel} {log : List Event} {w next : World} {e : Event}

/-- What a step makes of the kernels: each stays as it is or applies the input that the event
commits, and a new one has an instance id of its own. -/
structure Moves (log : List Event) (world : World) (event : Event) (next : World) : Prop where
  kept : ∀ (kernel : ℕ) (owner : KeyedAggregateKernel), world.kernels[kernel]? = some owner →
    ∃ now, next.kernels[kernel]? = some now ∧ now.instanceId = owner.instanceId ∧
      ((¬ Advanced kernel event ∧ now = owner) ∨
        (Advanced kernel event ∧ owner.logicalEpoch < now.logicalEpoch ∧ ∃ input output,
          committed (preparations (log ++ [event])) kernel event =
              some (now.logicalEpoch, input) ∧
            owner.aggregate.apply input = .ok (output, now.aggregate)))
  added : ∀ (kernel : ℕ) (now : KeyedAggregateKernel), next.kernels[kernel]? = some now →
    (∃ owner, world.kernels[kernel]? = some owner) ∨
      (kernel = world.kernels.length ∧ now.instanceId = world.nextKernelInstanceId ∧
        world.nextKernelInstanceId < next.nextKernelInstanceId)
  existing : ∀ kernel, Advanced kernel event → kernel < world.kernels.length
  longer : world.kernels.length ≤ next.kernels.length
  later : world.nextKernelInstanceId ≤ next.nextKernelInstanceId

theorem moves_none (hk : next.kernels = w.kernels)
    (hn : next.nextKernelInstanceId = w.nextKernelInstanceId)
    (he : ∀ kernel, ¬ Advanced kernel e) : Moves log w e next where
  kept kernel owner ho := ⟨owner, hk ▸ ho, rfl, .inl ⟨he kernel, rfl⟩⟩
  added kernel now hnow := .inl ⟨now, hk ▸ hnow⟩
  existing kernel hadvanced := absurd hadvanced (he kernel)
  longer := by rw [hk]
  later := hn.ge

theorem moves_one (input o : DeltaBatch) (ho : w.kernels[kernel]? = some owner)
    (hk : next.kernels = w.kernels.set kernel moved)
    (hn : next.nextKernelInstanceId = w.nextKernelInstanceId)
    (hid : moved.instanceId = owner.instanceId) (hlt : owner.logicalEpoch < moved.logicalEpoch)
    (he : ∀ other, Advanced other e ↔ kernel = other)
    (hc : committed (preparations (log ++ [e])) kernel e = some (moved.logicalEpoch, input))
    (happly : owner.aggregate.apply input = .ok (o, moved.aggregate)) : Moves log w e next := by
  obtain ⟨hi, -⟩ := List.getElem?_eq_some_iff.mp ho
  refine ⟨fun other held hh => ?_, fun other now hnow => ?_, fun other hadvanced => ?_, ?_, hn.ge⟩
  · by_cases hother : kernel = other
    · subst hother
      cases ho.symm.trans hh
      exact ⟨moved, by rw [hk, getElem?_set_self hi], hid,
        .inr ⟨(he kernel).mpr rfl, hlt, input, o, hc, happly⟩⟩
    · exact ⟨held, by rw [hk, getElem?_set_ne hother, hh], rfl,
        .inl ⟨fun hadvanced => hother ((he other).mp hadvanced), rfl⟩⟩
  · rw [hk] at hnow
    obtain ⟨hlt', -⟩ := List.getElem?_eq_some_iff.mp hnow
    rw [length_set] at hlt'
    exact .inl ⟨_, getElem?_eq_getElem hlt'⟩
  · rwa [← (he other).mp hadvanced]
  · rw [hk, length_set]

theorem not_advanced_error (action : Action) (error : EngineError) (kernel : ℕ) :
    ¬ Advanced kernel (action, .error error) := by
  cases action <;> exact id

theorem not_advanced_kernel (action : Action) (kernel : ℕ) :
    ¬ Advanced kernel (action, .kernel) := by
  cases action <;> exact id

theorem moves_made {action : Action} {made : KeyedAggregateKernel}
    (hid : made.instanceId = w.nextKernelInstanceId) :
    Moves log w (action, .kernel) (w.addKernel made) where
  kept kernel owner ho := by
    obtain ⟨hlt, -⟩ := List.getElem?_eq_some_iff.mp ho
    refine ⟨owner, ?_, rfl, .inl ⟨not_advanced_kernel action kernel, rfl⟩⟩
    rw [World.addKernel, getElem?_append_left hlt]
    exact ho
  added kernel now hnow := by
    rw [World.addKernel, getElem?_append] at hnow
    split_ifs at hnow with hlt
    · exact .inl ⟨now, hnow⟩
    · obtain ⟨hi, hv⟩ := List.getElem?_eq_some_iff.mp hnow
      simp only [length_singleton] at hi
      have hm : made = now := by simpa using hv
      exact .inr ⟨by omega, hm ▸ hid, Nat.lt_succ_self _⟩
  existing kernel hadvanced := absurd hadvanced (not_advanced_kernel action kernel)
  longer := by simp [World.addKernel]
  later := Nat.le_succ _

theorem preparations_of_none (log : List Event) (h : preparation e = none) :
    preparations (log ++ [e]) = preparations log := by
  rw [preparations_snoc, h, toList_none, append_nil]

theorem Outstanding.lookup (h : Outstanding log w token prepared kernel owner input before after) :
    (preparations log)[token]? = some (kernel, prepared.logicalEpoch, input) := by
  rw [h.placed, preparations, filterMap_append, ← preparations, ← h.index,
    getElem?_append_right le_rfl, Nat.sub_self]
  rfl

theorem Fenced.holder (h : Fenced log w) {holder : ℕ} {held : KeyedAggregateKernel}
    (ht : Outstanding log w token prepared holder held input before after)
    (ho : w.kernels[kernel]? = some owner)
    (hid : prepared.kernelInstanceId = owner.instanceId) : holder = kernel ∧ held = owner := by
  have hs : holder = kernel := h.distinct holder kernel held owner ht.owned ho
    (ht.sameInstance.symm.trans hid)
  subst hs
  exact ⟨rfl, Option.some.inj (ht.owned.symm.trans ho)⟩

theorem Fenced.moves (h : Fenced log w) (he : Effect w e next) : Moves log w e next := by
  cases he with
  | made kernel hid hn => exact moves_made hid
  | failed hn | rejected ho hp hn =>
    exact moves_none rfl rfl (not_advanced_error _ _)
  | prepared ho ht => exact moves_none rfl rfl fun _ => id
  | accepted ho hp hid hb =>
    rename_i kernel token owner prepared
    obtain ⟨holder, held, input, before, after, ht⟩ := h.tokens token prepared hp
    obtain ⟨rfl, rfl⟩ := h.holder ht ho hid
    refine moves_one input prepared.changes.output ho rfl rfl rfl (hb ▸ ht.ahead)
      (fun _ => Iff.rfl) ?_ ?_
    · rw [preparations_of_none log rfl, committed, if_pos rfl, ht.lookup]
      rfl
    · rw [KeyedSumCountAggregate.apply, ht.changes hb]
      rfl
  | pushed ho hlt hc =>
    rename_i kernel epoch input owner changes
    refine moves_one input changes.output ho rfl rfl rfl hlt (fun _ => Iff.rfl) (if_pos rfl) ?_
    rw [KeyedSumCountAggregate.apply, hc]
    rfl

theorem Outstanding.step (h : Outstanding log w token prepared kernel owner input before after)
    (hm : Moves log w e next) : ∃ now,
      Outstanding (log ++ [e]) next token prepared kernel now input before (after ++ [e]) := by
  obtain ⟨now, hnow, hid, hcase⟩ := hm.kept kernel owner h.owned
  have hp : log ++ [e] = before ++
      (.prepareEpoch kernel prepared.logicalEpoch input, .token) :: (after ++ [e]) := by
    rw [h.placed, append_assoc, cons_append]
  rcases hcase with ⟨hn, rfl⟩ | ⟨hadvanced, hlt, -⟩
  · refine ⟨now, { h with placed := hp, owned := hnow, current := ?_ }⟩
    rw [h.current]
    simp [or_imp, forall_and, hn]
  · have hpassed : prepared.baseEpoch < now.logicalEpoch := UInt64.lt_of_le_of_lt h.reached hlt
    have hne : prepared.baseEpoch ≠ now.logicalEpoch := UInt64.ne_of_lt hpassed
    exact ⟨now, { h with
        placed := hp
        owned := hnow
        sameInstance := h.sameInstance.trans hid.symm
        reached := UInt64.le_of_lt hpassed
        changes := fun heq => absurd heq hne
        current := ⟨fun heq => absurd heq hne, fun ha => absurd hadvanced (ha e (by simp))⟩ }⟩

theorem Fenced.commits_keep (h : Fenced log w) (he : ¬ Advanced kernel e) :
    commits (preparations (log ++ [e])) kernel (log ++ [e]) =
      commits (preparations log) kernel log := by
  rw [commits_snoc h, committed_eq_none he, toList_none, append_nil]

theorem increasing_snoc {epochs : List UInt64} {current epoch : UInt64}
    (h : epochs.Pairwise (· < ·)) (hle : ∀ e ∈ epochs, e ≤ current) (hlt : current < epoch) :
    (epochs ++ [epoch]).Pairwise (· < ·) ∧ ∀ e ∈ epochs ++ [epoch], e ≤ epoch := by
  constructor
  · rw [pairwise_append]
    refine ⟨h, pairwise_singleton _ _, ?_⟩
    intro e he e' he'
    rw [mem_singleton.mp he']
    exact UInt64.lt_of_le_of_lt (hle e he) hlt
  · intro e he
    rcases mem_append.mp he with he | he
    · exact UInt64.le_of_lt (UInt64.lt_of_le_of_lt (hle e he) hlt)
    · obtain rfl := mem_singleton.mp he
      exact UInt64.le_refl _

structure Handles (log : List Event) (world : World) (event : Event) (next : World) : Prop where
  count : next.tokens.length = (preparations (log ++ [event])).length
  known : ∀ kernel token outcome, event = (.commitPreparedEpoch kernel token, outcome) →
    token < world.tokens.length
  tokens : ∀ (token : ℕ) (prepared : PreparedKeyedAggregateEpoch),
    next.tokens[token]? = some (some prepared) →
    world.tokens[token]? = some (some prepared) ∨ ∃ kernel owner input before after,
      Outstanding (log ++ [event]) next token prepared kernel owner input before after

theorem Fenced.advance (h : Fenced log w) (hm : Moves log w e next)
    (htokens : Handles log w e next) : Fenced (log ++ [e]) next where
  ids := by
    intro kernel now hnow
    rcases hm.added kernel now hnow with ⟨owner, ho⟩ | ⟨-, hid, hlt⟩
    · obtain ⟨now', hnow', hid, -⟩ := hm.kept kernel owner ho
      cases hnow.symm.trans hnow'
      rw [hid]
      exact (h.ids kernel owner ho).trans_le hm.later
    · omega
  distinct := by
    -- an old kernel keeps its id, and a new one has an id that no old one has
    have hold {i : ℕ} {a owner : KeyedAggregateKernel} (ha : next.kernels[i]? = some a)
        (ho : w.kernels[i]? = some owner) : a.instanceId = owner.instanceId := by
      obtain ⟨a', ha', hid, -⟩ := hm.kept i owner ho
      cases ha.symm.trans ha'
      exact hid
    intro i j a b ha hb hab
    rcases hm.added i a ha with ⟨owner, ho⟩ | ⟨hi, hida, -⟩ <;>
      rcases hm.added j b hb with ⟨other, hother⟩ | ⟨hj, hidb, -⟩
    · refine h.distinct i j owner other ho hother ?_
      rw [← hold ha ho, ← hold hb hother, hab]
    · have hlt := h.ids i owner ho
      have hid := hold ha ho
      omega
    · have hlt := h.ids j other hother
      have hid := hold hb hother
      omega
    · omega
  tokenCount := htokens.count
  tokens := by
    intro token prepared hp
    rcases htokens.tokens token prepared hp with hold | hnew
    · obtain ⟨kernel, owner, input, before, after, ht⟩ := h.tokens token prepared hold
      obtain ⟨now, hnow⟩ := ht.step hm
      exact ⟨kernel, now, input, before, _, hnow⟩
    · exact hnew
  known := by
    intro kernel token outcome hmem
    rw [preparations_snoc, length_append]
    rcases mem_append.mp hmem with hmem | hmem
    · exact Nat.lt_add_right _ (h.known kernel token outcome hmem)
    · have hlt := htokens.known kernel token outcome (mem_singleton.mp hmem).symm
      rw [h.tokenCount] at hlt
      exact Nat.lt_add_right _ hlt
  absent := by
    intro kernel hk other hother
    have hg := hm.longer.trans hk
    rcases mem_append.mp hother with hother | hother
    · exact h.absent kernel hg other hother
    · rw [mem_singleton.mp hother]
      intro hadvanced
      have := hm.existing kernel hadvanced
      omega
  increasing := by
    intro kernel now hnow
    rcases hm.added kernel now hnow with ⟨owner, ho⟩ | ⟨hk, -, -⟩
    · obtain ⟨now', hnow', -, hcase⟩ := hm.kept kernel owner ho
      cases hnow.symm.trans hnow'
      obtain ⟨hpairwise, hle⟩ := h.increasing kernel owner ho
      rcases hcase with ⟨hn, rfl⟩ | ⟨-, hlt, input, o, hc, -⟩
      · rw [h.commits_keep hn]
        exact ⟨hpairwise, hle⟩
      · rw [commits_snoc h, hc, toList_some, map_append, map_singleton]
        exact increasing_snoc hpairwise hle hlt
    · have hn : ¬ Advanced kernel e := by
        intro hadvanced
        have := hm.existing kernel hadvanced
        omega
      rw [h.commits_keep hn, commits_eq_nil (h.absent kernel hk.ge)]
      simp

theorem getElem?_set_none {tokens : List (Option PreparedKeyedAggregateEpoch)} {other : ℕ}
    (h : (tokens.set token none)[other]? = some (some prepared)) :
    tokens[other]? = some (some prepared) := by
  rw [getElem?_set] at h
  split_ifs at h
  · cases h
  · exact h

theorem Fenced.handles_of_none (h : Fenced log w) (hn : preparation e = none)
    (hl : next.tokens.length = w.tokens.length)
    (hk : ∀ kernel token outcome, e = (.commitPreparedEpoch kernel token, outcome) →
      token < w.tokens.length)
    (htokens : ∀ (token : ℕ) (prepared : PreparedKeyedAggregateEpoch),
      next.tokens[token]? = some (some prepared) → w.tokens[token]? = some (some prepared)) :
    Handles log w e next where
  count := by rw [hl, preparations_of_none log hn, h.tokenCount]
  known := hk
  tokens token prepared hp := .inl (htokens token prepared hp)

theorem Fenced.handles (h : Fenced log w) (he : Effect w e next) : Handles log w e next := by
  have hcommit {kernel index token : ℕ} {outcome : Outcome} {prepared : PreparedKeyedAggregateEpoch}
      (hp : w.tokens[token]? = some (some prepared)) {owner : ℕ} {outcome' : Outcome}
      (heq : ((.commitPreparedEpoch owner token, outcome') : Event) =
        (.commitPreparedEpoch kernel index, outcome)) : index < w.tokens.length := by
    cases heq
    exact (List.getElem?_eq_some_iff.mp hp).1
  cases he with
  | @made action kernel hid hn | @failed action error hn =>
    refine h.handles_of_none (by cases action <;> rfl) rfl (fun other token outcome heq => ?_)
      fun _ _ hold => hold
    exact absurd (Prod.mk.inj heq).1 (hn other token)
  | accepted ho hp hid hb | rejected ho hp hn =>
    exact h.handles_of_none rfl (length_set ..) (fun _ _ _ => hcommit hp)
      fun _ _ => getElem?_set_none
  | pushed ho hlt hc =>
    exact h.handles_of_none rfl rfl (by simp) fun _ _ hold => hold
  | prepared ho ht =>
    rename_i kernel epoch input owner token
    obtain ⟨hlt, hc, ht⟩ := prepareEpoch_ok ht
    refine ⟨?_, by simp, fun index prepared hp => ?_⟩
    · rw [preparations_snoc, length_append, length_append, h.tokenCount]
      rfl
    · rw [getElem?_append] at hp
      split_ifs at hp with hold
      · exact .inl hp
      · obtain ⟨hi, hv⟩ := List.getElem?_eq_some_iff.mp hp
        simp only [length_singleton] at hi
        have hp : prepared = token := by simpa using hv.symm
        subst hp
        refine .inr ⟨kernel, owner, input, log, [], ?_⟩
        rw [ht]
        exact
          { placed := rfl
            index := by rw [← h.tokenCount]; omega
            owned := ho
            sameInstance := rfl
            ahead := hlt
            reached := UInt64.le_refl _
            changes := fun _ => hc
            current := by simp }

theorem Fenced.step (h : Fenced log w) (he : Effect w e next) : Fenced (log ++ [e]) next :=
  h.advance (h.moves he) (h.handles he)

end Steps

theorem fenced_of_trace {w : World} (h : Trace Step .empty log w) : Fenced log w :=
  h.invariant fenced_empty fun hlog hs => hlog.step (effect_of_step hs)

theorem preparation_first {rest after' : List Event} {e e' : Event}
    (he : (preparation e).isSome) (ht : e :: after = rest ++ e' :: after')
    (hl : (preparations before).length = (preparations (before ++ rest)).length) :
    e = e' ∧ after = after' := by
  cases rest with
  | nil => exact List.cons.inj ht
  | cons first rest =>
    obtain ⟨rfl, -⟩ := List.cons.inj ht
    obtain ⟨p, hp⟩ := isSome_iff_exists.mp he
    unfold preparations at hl
    rw [filterMap_append, filterMap_cons_some hp, length_append,
      length_cons] at hl
    omega

theorem preparation_unique {before' after' : List Event} {e e' : Event}
    (hlog : before ++ e :: after = before' ++ e' :: after')
    (he : (preparation e).isSome) (he' : (preparation e').isSome)
    (hl : (preparations before).length = (preparations before').length) :
    e = e' ∧ after = after' := by
  rcases append_eq_append_iff.mp hlog with ⟨rest, rfl, ht⟩ | ⟨rest, rfl, ht⟩
  · exact preparation_first he ht hl
  · exact (preparation_first he' ht hl.symm).imp Eq.symm Eq.symm

section Runs
variable {log : List Event} {w next : World} {e : Event}

theorem Outstanding.current_iff {holder : ℕ}
    (h : Outstanding log w token prepared holder owner input before after) :
    Current log kernel token ↔ kernel = holder ∧ prepared.baseEpoch = owner.logicalEpoch := by
  constructor
  · intro ⟨before', epoch, input', after', hlog, hi, ha⟩
    obtain ⟨he, hafter⟩ := preparation_unique (hlog.symm.trans h.placed) rfl rfl
      (hi.trans h.index.symm)
    have hk : kernel = holder := by
      simp only [Prod.mk.injEq, Action.prepareEpoch.injEq] at he
      exact he.1.1
    refine ⟨hk, h.current.mpr ?_⟩
    rw [← hafter, ← hk]
    exact ha
  · intro ⟨hk, hb⟩
    rw [hk]
    exact ⟨before, _, input, after, h.placed, h.index, h.current.mp hb⟩

/-- A commit succeeds exactly with a current token. -/
theorem Fenced.commit_iff (h : Fenced log w) {outcome : Outcome}
    (hs : Step w (.commitPreparedEpoch kernel token, outcome) next) :
    (∃ b, outcome = .output b) ↔ Current log kernel token := by
  have hf {owner : KeyedAggregateKernel} {prepared : PreparedKeyedAggregateEpoch}
      (ho : w.kernels[kernel]? = some owner)
      (hp : w.tokens[token]? = some (some prepared)) :
      Current log kernel token ↔ prepared.kernelInstanceId = owner.instanceId ∧
        prepared.baseEpoch = owner.logicalEpoch := by
    obtain ⟨holder, held, input, before, after, ht⟩ := h.tokens token prepared hp
    rw [ht.current_iff]
    constructor
    · intro ⟨hk, hb⟩
      subst hk
      have hh : held = owner := Option.some.inj (ht.owned.symm.trans ho)
      rw [← hh]
      exact ⟨ht.sameInstance, hb⟩
    · intro ⟨hid, hb⟩
      obtain ⟨rfl, rfl⟩ := h.holder ht ho hid
      exact ⟨rfl, hb⟩
  cases effect_of_step hs with
  | made kernel hid hn | failed hn => exact absurd rfl (hn _ _)
  | accepted ho hp hid hb =>
    exact ⟨fun _ => (hf ho hp).mpr ⟨hid, hb⟩, fun _ => ⟨_, rfl⟩⟩
  | rejected ho hp hn =>
    constructor
    · intro ⟨b, hbatch⟩
      cases hbatch
    · intro hc
      exact absurd ((hf ho hp).mp hc) hn

theorem Fenced.epochs_increase (h : Fenced log w) (kernel : ℕ) :
    ((commits (preparations log) kernel log).map Prod.fst).Pairwise (· < ·) := by
  cases ho : w.kernels[kernel]? with
  | some owner => exact (h.increasing kernel owner ho).1
  | none =>
    rw [commits_eq_nil (h.absent kernel (List.getElem?_eq_none_iff.mp ho))]
    exact List.Pairwise.nil

theorem applyInputs_snoc {a a' aggregate'' : KeyedSumCountAggregate}
    {ins : List DeltaBatch} {o : DeltaBatch} (h : applyInputs a ins = .ok a')
    (hi : a'.apply input = .ok (o, aggregate'')) :
    applyInputs a (ins ++ [input]) = .ok aggregate'' := by
  unfold applyInputs at h ⊢
  rw [foldlM_append, h]
  show (Prod.snd <$> a'.apply input) >>= pure = _
  rw [hi]
  rfl

/-- From any moment of a run on, a kernel holds the state it had then with the inputs applied
that it has committed since. -/
theorem aggregate_of_trace {start : World} {source : KeyedAggregateKernel}
    (hb : Trace Step .empty before start) (hafter : Trace Step start after w)
    (hsrc : start.kernels[kernel]? = some source) :
    ∃ now, w.kernels[kernel]? = some now ∧ now.instanceId = source.instanceId ∧
      applyInputs source.aggregate
        ((commits (preparations (before ++ after)) kernel after).map Prod.snd) =
          .ok now.aggregate := by
  induction hafter with
  | nil => exact ⟨source, hsrc, rfl, rfl⟩
  | snoc ht hs ih =>
    rename_i after w next e
    obtain ⟨owner, ho, hid, ha⟩ := ih
    have hf : Fenced (before ++ after) w := fenced_of_trace (hb.append ht)
    have hk : ∀ kernel token outcome, (.commitPreparedEpoch kernel token, outcome) ∈ after →
        token < (preparations (before ++ after)).length := by
      intro kernel token outcome he
      exact hf.known kernel token outcome (mem_append_right before he)
    obtain ⟨now, hnow, hni, hm⟩ :=
      (hf.moves (effect_of_step hs)).kept kernel owner ho
    refine ⟨now, hnow, hni.trans hid, ?_⟩
    rw [← append_assoc, commits, filterMap_append, ← commits]
    rw [show commits (preparations (before ++ after ++ [e])) kernel after =
      commits (preparations (before ++ after)) kernel after by
        rw [preparations_snoc, commits_mono hk]]
    rcases hm with ⟨hn, rfl⟩ | ⟨-, -, input, o, hc, happly⟩
    · rw [filterMap_cons_none (committed_eq_none hn), filterMap_nil, append_nil]
      exact ha
    · rw [filterMap_cons_some hc, filterMap_nil, map_append]
      exact applyInputs_snoc ha happly

end Runs

/-- What fencing promises of a run: `before` led to `start`, and `after` from there to `world`. -/
structure PreparedEpochsFenced (before after : List Event) (start world : World) : Prop where
  accepted : ∀ (kernel token : ℕ) (outcome : Outcome) (next : World),
    Step world (.commitPreparedEpoch kernel token, outcome) next →
      ((∃ batch, outcome = .output batch) ↔ Current (before ++ after) kernel token)
  rejected : ∀ (kernel token : ℕ) (error : EngineError) (next : World),
    Step world (.commitPreparedEpoch kernel token, .error error) next →
      next.kernels = world.kernels
  increasing : ∀ kernel, ((commits (preparations (before ++ after)) kernel
    (before ++ after)).map Prod.fst).Pairwise (· < ·)
  state : ∀ (kernel : ℕ) (source : KeyedAggregateKernel), start.kernels[kernel]? = some source →
    ∃ now aggregate, world.kernels[kernel]? = some now ∧ now.instanceId = source.instanceId ∧
      applyInputs source.aggregate
        ((commits (preparations (before ++ after)) kernel after).map Prod.snd) = .ok aggregate ∧
      now.materializedState = aggregate.stateBatch
  /-- A clone and a restored kernel start from the state they were made of. -/
  cloned : ∀ (source : ℕ) (next : World), Step world (.clone source, .kernel) next →
    ∃ owner copy, world.kernels[source]? = some owner ∧ next.kernels = world.kernels ++ [copy] ∧
      copy.aggregate = owner.aggregate
  restored : ∀ (checkpoint : EngineCheckpoint) (valueMode : AggregateValueMode)
    (trackExtrema : Bool) (next : World),
    Step world (.fromCheckpoint checkpoint valueMode trackExtrema, .kernel) next →
      ∃ copy, next.kernels = world.kernels ++ [copy] ∧
        KeyedSumCountAggregate.fromStateWithValueModeAndExtrema checkpoint.state valueMode
          trackExtrema = .ok copy.aggregate

/-- However prepares, commits, pushes and clones interleave over any number of kernels. -/
theorem prepared_epochs_fenced {before after : List Event} {start world : World}
    (hbefore : Trace Step .empty before start) (hafter : Trace Step start after world) :
    PreparedEpochsFenced before after start world := by
  have hfenced : Fenced (before ++ after) world := fenced_of_trace (hbefore.append hafter)
  refine ⟨?_, ?_, hfenced.epochs_increase, ?_, ?_, ?_⟩
  · intro kernel token outcome next hstep
    exact hfenced.commit_iff hstep
  · intro kernel token error next hstep
    cases effect_of_step hstep <;> rfl
  · intro kernel source hsource
    obtain ⟨now, hnow, hid, hinputs⟩ := aggregate_of_trace hbefore hafter hsource
    exact ⟨now, now.aggregate, hnow, hid, hinputs, rfl⟩
  · intro source next hstep
    obtain ⟨owner, howner, hstep⟩ := bind_eq_some_iff.mp hstep
    cases hstep
    exact ⟨owner, _, howner, rfl, rfl⟩
  · intro checkpoint valueMode trackExtrema next hstep
    simp only [Step, World.call] at hstep
    split at hstep
    · rename_i kernel hkernel
      cases hstep
      exact ⟨kernel, rfl, (fromCheckpoint_ok hkernel).2⟩
    · cases hstep

theorem trace_of_callAll {actions : List Action} {w final : World}
    (h : w.callAll actions = some (final, log)) : Trace Step w log final := by
  induction actions generalizing w log with
  | nil =>
    cases h
    exact .nil
  | cons action actions ih =>
    obtain ⟨⟨next, outcome⟩, hcall, h⟩ := bind_eq_some_iff.mp h
    obtain ⟨⟨last, rest⟩, hr, h⟩ := bind_eq_some_iff.mp h
    cases h
    exact (Trace.nil.snoc (a := (action, outcome)) hcall).append (ih hr)

/-- Two tokens of one kernel; the first goes to a clone, which refuses it. -/
def twoTokens : List Action :=
  let row (value : Fin 3) : DeltaBatch :=
    ⟨[⟨.string "a", .number (.int value.val (by omega) (by omega)), 1⟩]⟩
  [.new .integer false, .prepareEpoch 0 1 (row 1), .prepareEpoch 0 2 (row 2),
    .clone 0, .commitPreparedEpoch 1 0, .commitPreparedEpoch 0 1]

theorem twoTokens_fenced : ∃ world log, World.empty.callAll twoTokens = some (world, log) ∧
    PreparedEpochsFenced [] log .empty world := by
  have hrun : (World.empty.callAll twoTokens).isSome = true := by decide +kernel
  obtain ⟨⟨world, log⟩, hrun⟩ := isSome_iff_exists.mp hrun
  exact ⟨world, log, hrun, prepared_epochs_fenced .nil (trace_of_callAll hrun)⟩

end Velorix.Engine
