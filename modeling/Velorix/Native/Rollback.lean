import Velorix.Native.Evolution

/-! Failed epochs and failed restores. Whatever has been delivered before the failure, the
operators only moved on from where they were, and the checkpoint brings them back. -/
namespace Velorix.Native.NativeOperatorGraph

open Json Delta Operator NativeOperator SortedMap Option List

variable {nodeId : String} {operator moved : NativeOperator} {current : NativeOperatorGraph}
  {es : List (String × NativeOperator)} {previous : NativeOperatorGraphCheckpointV1}

/-- The same edges between operators of the same definitions. -/
structure SameShape (graph later : NativeOperatorGraph) : Prop where
  edges : later.edges = graph.edges
  definitions : ∀ nodeId, (later.operators.find? nodeId).map NativeOperator.reset =
    (graph.operators.find? nodeId).map NativeOperator.reset

namespace SameShape

variable {graph later : NativeOperatorGraph}

theorem find (h : SameShape graph later) (hf : graph.operators.find? nodeId = some operator) :
    ∃ moved, later.operators.find? nodeId = some moved ∧ moved.reset = operator.reset := by
  have hd := h.definitions nodeId
  rw [hf, map_some, map_eq_some_iff] at hd
  exact hd

theorem symm (h : SameShape graph later) : SameShape later graph :=
  ⟨h.edges.symm, fun nodeId => (h.definitions nodeId).symm⟩

theorem find_none (h : SameShape graph later) (nodeId : String) :
    later.operators.find? nodeId = none ↔ graph.operators.find? nodeId = none := by
  have hd := h.definitions nodeId
  constructor
  · intro hn
    rw [hn, map_none] at hd
    exact map_eq_none_iff.mp hd.symm
  · intro hn
    rw [hn, map_none] at hd
    exact map_eq_none_iff.mp hd

theorem keys (h : SameShape graph later) : later.operators.keys = graph.operators.keys := by
  apply keys_eq_of_mem_iff
  intro nodeId
  rw [mem_keys_iff, mem_keys_iff, ← ne_none_iff_exists',
    ← ne_none_iff_exists', not_iff_not]
  exact h.find_none nodeId

theorem size (h : SameShape graph later) : later.operators.size = graph.operators.size := by
  have hlength := congrArg List.length h.keys
  simpa [SortedMap.keys, SortedMap.size] using hlength

theorem ports (h : SameShape graph later) (nodeId : String) :
    (later.operators.find? nodeId).map inputPorts =
      (graph.operators.find? nodeId).map inputPorts := by
  rcases hf : graph.operators.find? nodeId with _ | operator
  · rw [(h.find_none nodeId).mpr hf]
  · obtain ⟨moved, hm, hr⟩ := h.find hf
    rw [hm, map_some, map_some, inputPorts_of_reset hr]

end SameShape

theorem validateEdge_congr {ops later : SortedMap String NativeOperator}
    (h : ∀ nodeId, (later.find? nodeId).map inputPorts =
      (ops.find? nodeId).map inputPorts) :
    validateEdge later = validateEdge ops := by
  funext unique edge
  have hf : (later.find? edge.fromNodeId).isNone = (ops.find? edge.fromNodeId).isNone := by
    have := congrArg Option.isNone (h edge.fromNodeId)
    simpa using this
  have hto := h edge.toNodeId
  unfold validateEdge
  rw [hf]
  rcases hl : later.find? edge.toNodeId with _ | consumer <;>
    rcases ho : ops.find? edge.toNodeId with _ | consumer'
  · rfl
  · rw [hl, ho] at hto
    cases hto
  · rw [hl, ho] at hto
    cases hto
  · rw [hl, ho, map_some, map_some, Option.some.injEq] at hto
    simp only [hto]

theorem SameShape.validate {graph later : NativeOperatorGraph} (h : SameShape graph later) :
    later.validate = graph.validate := by
  have he : later.operators.isEmpty = graph.operators.isEmpty := by
    have hs := h.size
    unfold SortedMap.size at hs
    unfold SortedMap.isEmpty
    rcases hl : later.operators.entries with _ | ⟨e, rest⟩ <;>
      rcases hg : graph.operators.entries with _ | ⟨e', rest'⟩ <;> simp_all
  unfold NativeOperatorGraph.validate validateAcyclic
  rw [he, validateEdge_congr h.ports, h.edges, h.keys, h.size]

/-- The graph moved on by a number of calls on its operators. -/
structure Later (steps : ℕ) (graph later : NativeOperatorGraph) : Prop
    extends SameShape graph later where
  revisions : ∀ nodeId operator next, graph.operators.find? nodeId = some operator →
    later.operators.find? nodeId = some next → next.revision ≤ operator.revision + steps

namespace Later

variable {graph next later : NativeOperatorGraph} {m n : ℕ}

theorem refl (graph : NativeOperatorGraph) : Later 0 graph graph :=
  ⟨⟨rfl, fun _ => rfl⟩, fun nodeId operator next h h' => by
    rw [h] at h'
    cases h'
    exact le_rfl⟩

theorem trans (h : Later m graph next) (h' : Later n next later) : Later (m + n) graph later := by
  refine ⟨⟨h'.edges.trans h.edges, fun nodeId => (h'.definitions nodeId).trans
    (h.definitions nodeId)⟩, fun nodeId operator last hf hl => ?_⟩
  obtain ⟨middle, hm, -⟩ := h.find hf
  have hfirst := h.revisions nodeId operator middle hf hm
  have hs := h'.revisions nodeId middle last hm hl
  omega

theorem mono (h : Later m graph later) (hle : m ≤ n) : Later n graph later :=
  ⟨h.toSameShape, fun nodeId operator next hf hn =>
    (h.revisions nodeId operator next hf hn).trans (by omega)⟩

end Later

theorem find?_setOperator {graph : NativeOperatorGraph}
    (hf : graph.operators.find? nodeId = some operator) (hr : moved.reset = operator.reset)
    (other : String) :
    (graph.setOperator moved).operators.find? other =
      if nodeId = other then some moved else graph.operators.find? other := by
  have hn : moved.nodeId = nodeId :=
    (nodeId_of_reset hr).trans (graph.named nodeId operator hf)
  rw [← hn]
  exact find?_insert ..

theorem SameShape.setOperator {graph : NativeOperatorGraph} (h : SameShape graph current)
    (hf : graph.operators.find? nodeId = some operator) (hr : moved.reset = operator.reset) :
    SameShape graph (current.setOperator moved) ∧
      ∀ other, (current.setOperator moved).operators.find? other =
        if nodeId = other then some moved else current.operators.find? other := by
  obtain ⟨before, hb, hbr⟩ := h.find hf
  have hset := find?_setOperator hb (hr.trans hbr.symm)
  refine ⟨⟨h.edges, fun other => ?_⟩, hset⟩
  rw [hset]
  split_ifs with heq
  · rw [← heq, hf, map_some, map_some, hr]
  · exact h.definitions other

theorem later_setOperator {graph : NativeOperatorGraph} {steps : ℕ} (h : Later steps graph current)
    (hf : graph.operators.find? nodeId = some operator) (hr : moved.reset = operator.reset)
    (hrev : moved.revision ≤ operator.revision + steps) :
    Later steps graph (current.setOperator moved) := by
  obtain ⟨hs, hset⟩ := h.toSameShape.setOperator hf hr
  refine ⟨hs, fun other before after hb ha => ?_⟩
  rw [hset] at ha
  split_ifs at ha with heq
  · cases ha
    rw [← heq, hf] at hb
    cases hb
    exact hrev
  · exact h.revisions other before after hb ha

section Deliveries
variable {state next : EpochState} {input : NativeOperatorInputV1} {later : NativeOperatorGraph}
  {error : NativeOperatorError}

theorem deliver_ok (h : deliver state input = .ok next) : ∃ operator o,
    state.graph.operators.find? input.nodeId = some operator ∧ input.portId ∈ operator.inputPorts ∧
      (operator.apply input.portId input.batch).2 = .ok o ∧ next = emit { state with
        graph := state.graph.setOperator (operator.apply input.portId input.batch).1 }
        input.nodeId o := by
  unfold deliver at h
  split at h
  · cases h
  · rename_i operator hf
    split_ifs at h with hp
    simp only at h
    split at h
    · cases h
    · rename_i o hout
      exact ⟨operator, o, hf, hp, hout, (Except.ok.inj h).symm⟩

theorem deliver_error (h : deliver state input = .error (later, error)) :
    later = state.graph ∨ ∃ operator, state.graph.operators.find? input.nodeId = some operator ∧
      later = state.graph.setOperator (operator.apply input.portId input.batch).1 := by
  unfold deliver at h
  split at h
  · cases h
    exact .inl rfl
  · rename_i operator hf
    split_ifs at h
    · simp only at h
      split at h
      · cases h
        exact .inr ⟨operator, hf, rfl⟩
      · cases h
    · cases h
      exact .inl rfl

@[simp]
theorem graph_emit (state : EpochState) (nodeId : String) (o : DeltaBatch) :
    (emit state nodeId o).graph = state.graph := by
  simp only [emit]
  split_ifs <;> rfl

theorem later_apply {graph : NativeOperatorGraph}
    (hf : graph.operators.find? nodeId = some operator) (portId : String) (input : DeltaBatch) :
    Later 1 graph (graph.setOperator (operator.apply portId input).1) := by
  obtain ⟨hr, hrev⟩ := operator.apply_kept portId input
  exact later_setOperator ((Later.refl graph).mono (by omega)) hf hr hrev

theorem deliver_ok_later (h : deliver state input = .ok next) : Later 1 state.graph next.graph := by
  obtain ⟨operator, o, hf, -, -, rfl⟩ := deliver_ok h
  rw [graph_emit]
  exact later_apply hf _ _

theorem deliver_error_later (h : deliver state input = .error (later, error)) :
    Later 1 state.graph later := by
  rcases deliver_error h with rfl | ⟨operator, hf, rfl⟩
  · exact (Later.refl _).mono (by omega)
  · exact later_apply hf _ _

/-- The graph that the loop leaves, whichever way it ends. -/
def left : Except (NativeOperatorGraph × NativeOperatorError) EpochState → NativeOperatorGraph
  | .ok state => state.graph
  | .error (graph, _) => graph

def LoopStep (state next : EpochState) : Prop :=
  ∃ input queue, state.queue = input :: queue ∧
    deliver { state with queue } input = .ok next

/-- The loop goes on turn by turn, until the queue is empty or a delivery fails. -/
theorem drain_reaches {fuel : ℕ}
    {result : Except (NativeOperatorGraph × NativeOperatorError) EpochState}
    (h : drain fuel state = some result) : ∃ reached,
      Relation.ReflTransGen LoopStep state reached ∧ Later fuel state.graph (left result) ∧
        (result = .ok reached ∧ reached.queue = [] ∨
          ∃ input queue failed, reached.queue = input :: queue ∧
            deliver { reached with queue } input = .error failed ∧ result = .error failed) := by
  induction fuel generalizing state with
  | zero =>
    obtain ⟨graph, queue, sinks⟩ := state
    cases queue with
    | nil =>
      cases h
      exact ⟨_, .refl, .refl _, .inl ⟨rfl, rfl⟩⟩
    | cons input queue => cases h
  | succ fuel ih =>
    obtain ⟨graph, queue, sinks⟩ := state
    cases queue with
    | nil =>
      cases h
      exact ⟨_, .refl, (Later.refl _).mono (by omega), .inl ⟨rfl, rfl⟩⟩
    | cons input queue =>
      rw [drain] at h
      rcases hstep : deliver ⟨graph, queue, sinks⟩ input with failed | turned
      · rw [hstep] at h
        cases h
        exact ⟨_, .refl, (deliver_error_later hstep).mono (by omega),
          .inr ⟨input, queue, failed, rfl, hstep, rfl⟩⟩
      · rw [hstep] at h
        obtain ⟨reached, hr, hl, he⟩ := ih h
        exact ⟨reached, .head ⟨input, queue, rfl, hstep⟩ hr,
          ((deliver_ok_later hstep).trans hl).mono (by omega), he⟩

theorem drain_ok {fuel : ℕ} (h : drain fuel state = some (.ok next)) :
    Relation.ReflTransGen LoopStep state next ∧ next.queue = [] := by
  obtain ⟨reached, hr, -, ⟨hok, hq⟩ | ⟨_, _, _, _, _, he⟩⟩ := drain_reaches h
  · cases hok
    exact ⟨hr, hq⟩
  · cases he

end Deliveries

/-- An operator whose own checkpoint can be restored. -/
structure Restorable (operator : NativeOperator) : Prop where
  sound : operator.Sound
  core : operator.isCore = true
  readable : operator.Readable

@[simp]
theorem nodeId_checkpoint (operator : NativeOperator) :
    operator.checkpoint.nodeId = operator.nodeId := by
  cases operator <;> rfl

variable (graph : NativeOperatorGraph)

theorem checkpoints_eq :
    SortedMap.ofList ((graph.operators.values.map NativeOperator.checkpoint).map
      fun c => (c.nodeId, c)) = graph.operators.mapValues NativeOperator.checkpoint := by
  rw [← ofList_entries (graph.operators.mapValues NativeOperator.checkpoint)]
  congr 1
  rw [SortedMap.values, List.map_map, List.map_map]
  refine map_congr_left fun e he => ?_
  have hn := graph.named e.1 e.2 (mem_entries_iff.mp he)
  simp only [Function.comp_apply, nodeId_checkpoint, hn]

/-- What a restored graph shares with the graph of the checkpoint. -/
structure RestoredAt (graph restored : NativeOperatorGraph) (nodeIds : List String) : Prop
    extends SameShape graph restored where
  checkpoints : ∀ nodeId ∈ nodeIds,
    (restored.operators.find? nodeId).map NativeOperator.checkpoint =
      (graph.operators.find? nodeId).map NativeOperator.checkpoint

theorem restoreOperators_ok {graph : NativeOperatorGraph} (hs : SameShape graph current)
    (hentries : ∀ e ∈ es, ∃ operator, graph.operators.find? e.1 = some operator ∧
      Restorable operator ∧ e.2.reset = operator.reset ∧ e.2.revision < 2 ^ 64 - 1) :
    ∃ restored, restoreOperators (graph.operators.mapValues NativeOperator.checkpoint) es
        current = (restored, .ok ()) ∧ RestoredAt graph restored (es.map Prod.fst) ∧
      ∀ nodeId ∉ es.map Prod.fst,
        restored.operators.find? nodeId = current.operators.find? nodeId := by
  induction es generalizing current with
  | nil => exact ⟨current, rfl, ⟨hs, by simp⟩, fun _ _ => rfl⟩
  | cons e rest ih =>
    obtain ⟨operator, hf, hrestorable, hr, hrev⟩ := hentries e (mem_cons_self ..)
    obtain ⟨next, hn, hc, hnr⟩ := restore_checkpoint
      hrestorable.sound hrestorable.core hrestorable.readable hr hrev
    obtain ⟨hs', hset⟩ := hs.setOperator hf hnr
    obtain ⟨restored, hb, hat, hrest⟩ := ih hs'
      (fun e' he' => hentries e' (mem_cons_of_mem _ he'))
    have hstored : (graph.operators.mapValues NativeOperator.checkpoint).find? e.1 =
        some operator.checkpoint := by
      rw [find?_mapValues, hf, map_some]
    refine ⟨restored, ?_, ⟨hat.toSameShape, fun nodeId hmem => ?_⟩, fun nodeId hnot => ?_⟩
    · simp only [restoreOperators, hstored, hn]
      exact hb
    · by_cases hl : nodeId ∈ rest.map Prod.fst
      · exact hat.checkpoints nodeId hl
      · have heq : e.1 = nodeId := by
          rcases mem_cons.mp hmem with heq | hmem
          · exact heq.symm
          · exact absurd hmem hl
        rw [hrest nodeId hl, hset, if_pos heq, ← heq, hf, map_some, map_some, hc]
    · rw [map_cons, mem_cons, not_or] at hnot
      rw [hrest nodeId hnot.2, hset, if_neg (Ne.symm hnot.1)]

theorem values_eq_of_checkpoints {graph restored : NativeOperatorGraph}
    (h : ∀ nodeId, (restored.operators.find? nodeId).map NativeOperator.checkpoint =
      (graph.operators.find? nodeId).map NativeOperator.checkpoint) :
    restored.operators.values.map NativeOperator.checkpoint =
      graph.operators.values.map NativeOperator.checkpoint := by
  have hm : restored.operators.mapValues NativeOperator.checkpoint =
      graph.operators.mapValues NativeOperator.checkpoint := by
    apply SortedMap.ext
    intro nodeId
    rw [find?_mapValues, find?_mapValues, h]
  have hv := congrArg SortedMap.values hm
  simpa [SortedMap.values, SortedMap.mapValues, Function.comp_def] using hv

/-- The checkpoint of a graph brings a later stage of it back. -/
theorem restoreInner_checkpoint {graph later : NativeOperatorGraph} {steps : ℕ}
    (hl : Later steps graph later)
    (hrestorable : ∀ nodeId operator, graph.operators.find? nodeId = some operator →
      Restorable operator ∧ operator.revision + steps < 2 ^ 64 - 1)
    (hp : graph.checkpoint = .ok previous) :
    ∃ restored, later.restoreInner previous = (restored, .ok ()) ∧
      restored.checkpoint = .ok previous := by
  obtain ⟨_, hv, hp'⟩ := Result.bind_eq_ok.mp hp
  cases hp'
  have hentries : ∀ e ∈ later.operators.entries, ∃ operator,
      graph.operators.find? e.1 = some operator ∧ Restorable operator ∧
        e.2.reset = operator.reset ∧ e.2.revision < 2 ^ 64 - 1 := by
    intro e he
    have hf := mem_entries_iff.mp he
    obtain ⟨operator, ho, hr⟩ := hl.toSameShape.symm.find hf
    obtain ⟨hrest, hrev⟩ := hrestorable e.1 operator ho
    have hm := hl.revisions e.1 operator e.2 ho hf
    exact ⟨operator, ho, hrest, hr.symm, by omega⟩
  obtain ⟨restored, hb, hat, -⟩ := restoreOperators_ok hl.toSameShape hentries
  have ha (nodeId : String) : (restored.operators.find? nodeId).map NativeOperator.checkpoint =
      (graph.operators.find? nodeId).map NativeOperator.checkpoint := by
    by_cases hmem : nodeId ∈ later.operators.entries.map Prod.fst
    · exact hat.checkpoints nodeId hmem
    · have hn : later.operators.find? nodeId = none := by
        by_contra hs
        exact hmem (mem_keys_iff.mpr (ne_none_iff_exists'.mp hs))
      have hg := (hl.find_none nodeId).mp hn
      rw [(hat.find_none nodeId).mpr hg, hg]
  have hlength : (graph.operators.values.map NativeOperator.checkpoint).length =
      later.operators.size := by
    rw [length_map, SortedMap.values, length_map]
    exact hl.size.symm
  refine ⟨{ restored with logicalEpoch := graph.logicalEpoch }, ?_, ?_⟩
  · rw [restoreInner]
    simp only [ne_eq, not_true_eq_false, if_false, hlength, checkpoints_eq, hb]
  · have hsame : SameShape graph { restored with logicalEpoch := graph.logicalEpoch } :=
      ⟨hat.edges, hat.definitions⟩
    rw [NativeOperatorGraph.checkpoint, hsame.validate, hv, Result.ok_bind]
    exact congrArg (fun ops => Except.ok (⟨1, graph.logicalEpoch, ops⟩ :
      NativeOperatorGraphCheckpointV1)) (values_eq_of_checkpoints ha)

/-- Every operator is one of the core kinds and its state has the form its calls keep. -/
def AllSound : Prop :=
  ∀ nodeId operator, graph.operators.find? nodeId = some operator →
    operator.Sound ∧ operator.isCore = true

theorem AllSound.step {state next : EpochState} (hs : AllSound state.graph)
    (h : LoopStep state next) : AllSound next.graph := by
  obtain ⟨input, queue, -, hd⟩ := h
  obtain ⟨operator, o, hf, -, hout, rfl⟩ := deliver_ok hd
  rw [graph_emit]
  obtain ⟨hr, -⟩ := operator.apply_kept input.portId input.batch
  obtain ⟨ho, hc⟩ := hs _ _ hf
  intro nodeId other hother
  rw [find?_setOperator hf hr] at hother
  split_ifs at hother
  · cases hother
    refine ⟨ho.apply (Prod.ext rfl hout), ?_⟩
    rw [← isCore_reset, hr, isCore_reset, hc]
  · exact hs nodeId other hother

theorem AllSound.drain {fuel : ℕ} {state final : EpochState} (hs : AllSound state.graph)
    (h : drain fuel state = some (.ok final)) : AllSound final.graph := by
  obtain ⟨hr, -⟩ := drain_ok h
  clear h
  induction hr with
  | refl => exact hs
  | tail _ hstep ih => exact AllSound.step ih hstep

section Epochs
variable {start graph next later : NativeOperatorGraph} {logicalEpoch : UInt64}
  {ins : List NativeOperatorInputV1}
  {result : Except NativeOperatorError (SortedMap String DeltaBatch)}
  {o : SortedMap String DeltaBatch} {epochs : List (UInt64 × List NativeOperatorInputV1)}
  {outs : List (SortedMap String DeltaBatch)}

theorem applyEpochInner_cases (h : graph.applyEpochInner logicalEpoch ins = some (later, result)) :
    ∃ loop, drain (graph.deliveryBudget (sortInputs ins)) ⟨graph, sortInputs ins, ∅⟩ = some loop ∧
      ((∃ error, loop = .error (later, error) ∧ result = .error error) ∨
        ∃ state, loop = .ok state ∧ later = { state.graph with logicalEpoch } ∧
          result = consolidateSinks state.sinks) := by
  simp only [applyEpochInner] at h
  split at h
  · cases h
  · rename_i failed error hloop
    cases h
    exact ⟨_, hloop, Or.inl ⟨error, rfl, rfl⟩⟩
  · rename_i state hloop
    cases h
    exact ⟨_, hloop, Or.inr ⟨state, rfl, rfl, rfl⟩⟩

theorem applyEpochInner_later (h : graph.applyEpochInner logicalEpoch ins = some (later, result)) :
    Later (graph.deliveryBudget (sortInputs ins)) graph later := by
  obtain ⟨loop, hloop, he⟩ := applyEpochInner_cases h
  obtain ⟨_, -, hl, -⟩ := drain_reaches hloop
  rcases he with ⟨error, rfl, -⟩ | ⟨state, rfl, rfl, -⟩
  · exact hl
  · exact ⟨⟨hl.edges, hl.definitions⟩, hl.revisions⟩

theorem applyEpoch_ok (h : graph.applyEpoch logicalEpoch ins = some (next, .ok o)) :
    graph.validate = .ok () ∧ graph.applyEpochInner logicalEpoch ins = some (next, .ok o) := by
  unfold applyEpoch rollback at h
  split at h
  · cases h
  · rename_i hv
    split_ifs at h
    · cases h
    · split at h
      · cases h
      · split at h
        · cases h
        · rename_i hi
          cases h
          exact ⟨hv, hi⟩
        · split at h <;> cases h

theorem AllSound.applyEpoch (hs : AllSound graph)
    (h : graph.applyEpoch logicalEpoch ins = some (next, .ok o)) : AllSound next := by
  obtain ⟨-, hi⟩ := applyEpoch_ok h
  obtain ⟨loop, hloop, ⟨error, -, hr⟩ | ⟨state, rfl, rfl, -⟩⟩ := applyEpochInner_cases hi
  · cases hr
  · exact AllSound.drain hs hloop

theorem AllSound.runEpochs (hs : AllSound start)
    (h : start.runEpochs epochs = some (graph, outs)) : AllSound graph := by
  induction epochs generalizing start outs with
  | nil =>
    cases h
    exact hs
  | cons epoch rest ih =>
    obtain ⟨next, o, others, he, hrest, -⟩ := runEpochs_cons h
    exact ih (AllSound.applyEpoch hs he) hrest

theorem SameShape.trans (h : SameShape graph next)
    (h' : SameShape next later) : SameShape graph later :=
  ⟨h'.edges.trans h.edges, fun nodeId => (h'.definitions nodeId).trans (h.definitions nodeId)⟩

theorem runEpochs_shape (h : start.runEpochs epochs = some (graph, outs)) :
    SameShape start graph := by
  induction epochs generalizing start outs with
  | nil =>
    cases h
    exact (Later.refl _).toSameShape
  | cons epoch rest ih =>
    obtain ⟨next, o, others, he, hrest, -⟩ := runEpochs_cons h
    exact (applyEpochInner_later (applyEpoch_ok he).2).toSameShape.trans (ih hrest)

end Epochs

@[simp]
theorem deliveryBudget_sortInputs (ins : List NativeOperatorInputV1) :
    graph.deliveryBudget (sortInputs ins) = graph.deliveryBudget ins :=
  ((perm_insertionSort _ ins).map _).sum_eq

/-- No operator holds the least decimal sum. -/
def AllReadable : Prop :=
  ∀ nodeId operator, graph.operators.find? nodeId = some operator → operator.Readable

/-- No revision reaches its maximum within a number of calls. -/
def RevisionsBelow (steps : ℕ) : Prop :=
  ∀ nodeId operator, graph.operators.find? nodeId = some operator →
    operator.revision + steps < 2 ^ 64 - 1

theorem rollback_later {α : Type} {graph later : NativeOperatorGraph} {steps : ℕ}
    (hs : AllSound graph) (hread : AllReadable graph) (hr : RevisionsBelow graph steps)
    (hl : Later steps graph later) (hp : graph.checkpoint = .ok previous)
    (during : String) (error : NativeOperatorError) :
    ∃ restored, (later.rollback previous during error :
        NativeOperatorGraph × Except NativeOperatorError α) = (restored, .error error) ∧
      restored.checkpoint = graph.checkpoint := by
  obtain ⟨restored, hb, hc⟩ := restoreInner_checkpoint hl
    (fun nodeId operator hf => ⟨⟨(hs nodeId operator hf).1,
      (hs nodeId operator hf).2, hread nodeId operator hf⟩,
      hr nodeId operator hf⟩) hp
  refine ⟨restored, ?_, hc.trans hp.symm⟩
  rw [rollback, hb]

theorem restoreOperators_later {checkpoints : SortedMap String NativeOperatorCheckpointV1}
    {graph later : NativeOperatorGraph} {result : Except NativeOperatorError Unit}
    (hc : Later 1 graph current) (hentries : ∀ e ∈ es, graph.operators.find? e.1 = some e.2)
    (h : restoreOperators checkpoints es current = (later, result)) : Later 1 graph later := by
  induction es generalizing current with
  | nil =>
    cases h
    exact hc
  | cons e rest ih =>
    simp only [restoreOperators] at h
    split at h
    · cases h
      exact hc
    · split at h
      · cases h
        exact hc
      · rename_i next hn
        refine ih ?_ (fun e' he' => hentries e' (mem_cons_of_mem _ he')) h
        have hf := hentries e (mem_cons_self ..)
        obtain ⟨hr, hrev⟩ := restore_kept hn
        exact later_setOperator hc hf hr hrev

theorem restoreInner_later {graph later : NativeOperatorGraph}
    {c : NativeOperatorGraphCheckpointV1} {result : Except NativeOperatorError Unit}
    (h : graph.restoreInner c = (later, result)) : Later 1 graph later := by
  have hs : Later 1 graph graph := (Later.refl graph).mono (by omega)
  unfold restoreInner at h
  split_ifs at h
  · cases h
    exact hs
  · cases h
    exact hs
  · simp only at h
    have hentries : ∀ e ∈ graph.operators.entries, graph.operators.find? e.1 = some e.2 :=
      fun e he => mem_entries_iff.mp he
    split at h
    · rename_i failed error hb
      cases h
      exact restoreOperators_later hs hentries hb
    · rename_i restored hb
      cases h
      have hl := restoreOperators_later hs hentries hb
      exact ⟨⟨hl.edges, hl.definitions⟩, hl.revisions⟩

/-- After any run of successful epochs over fresh operators, a failed epoch reports its own
error and leaves the checkpoint as it was, and so does a failed restore. -/
theorem failure_changes_nothing {start graph : NativeOperatorGraph}
    {epochs : List (UInt64 × List NativeOperatorInputV1)}
    {outputs : List (SortedMap String DeltaBatch)}
    (hfresh : ∀ nodeId operator, start.operators.find? nodeId = some operator →
      operator.reset = operator ∧ operator.isCore = true)
    (hrun : start.runEpochs epochs = some (graph, outputs)) (hread : AllReadable graph) :
    (∀ logicalEpoch inputs after error, RevisionsBelow graph (graph.deliveryBudget inputs) →
      graph.applyEpoch logicalEpoch inputs = some (after, .error error) →
      after.checkpoint = graph.checkpoint ∧ (graph.validate = .error error ∨
          error = .nonMonotonicEpoch graph.logicalEpoch logicalEpoch ∨
          ∃ failed, graph.applyEpochInner logicalEpoch inputs = some (failed, .error error))) ∧
    (∀ checkpoint after error, RevisionsBelow graph 1 →
      graph.restore checkpoint = (after, .error error) → after.checkpoint = graph.checkpoint ∧
        (graph.validate = .error error ∨
          ∃ failed, graph.restoreInner checkpoint = (failed, .error error))) := by
  have hsound : AllSound graph := AllSound.runEpochs (fun nodeId operator hfind =>
    ⟨sound_of_fresh (hfresh nodeId operator hfind).1,
      (hfresh nodeId operator hfind).2⟩) hrun
  constructor
  · intro logicalEpoch inputs after error hrevisions h
    unfold applyEpoch at h
    split at h
    · rename_i invalid hinvalid
      cases h
      exact ⟨rfl, Or.inl hinvalid⟩
    · rename_i hvalid
      split_ifs at h
      · cases h
        exact ⟨rfl, Or.inr (Or.inl rfl)⟩
      · split at h
        · rename_i invalid hinvalid
          cases h
          rw [NativeOperatorGraph.checkpoint, hvalid] at hinvalid
          cases hinvalid
        · rename_i previous hprevious
          split at h
          · cases h
          · cases h
          · rename_i failed inner hinner
            have hlater := applyEpochInner_later hinner
            rw [deliveryBudget_sortInputs] at hlater
            obtain ⟨restored, hrollback, hcheckpoint⟩ := rollback_later
              (α := SortedMap String DeltaBatch) hsound hread hrevisions hlater hprevious "epoch"
              inner
            rw [hrollback] at h
            cases h
            exact ⟨hcheckpoint, Or.inr (Or.inr ⟨failed, hinner⟩)⟩
  · intro checkpoint after error hrevisions h
    unfold restore at h
    split at h
    · rename_i invalid hinvalid
      cases h
      exact ⟨rfl, Or.inl hinvalid⟩
    · rename_i hvalid
      split at h
      · rename_i invalid hinvalid
        cases h
        rw [NativeOperatorGraph.checkpoint, hvalid] at hinvalid
        cases hinvalid
      · rename_i previous hprevious
        split at h
        · cases h
        · rename_i failed inner hinner
          obtain ⟨restored, hrollback, hcheckpoint⟩ := rollback_later (α := Unit) hsound hread
            hrevisions (restoreInner_later hinner) hprevious "restore" inner
          rw [hrollback] at h
          cases h
          exact ⟨hcheckpoint, Or.inr ⟨failed, hinner⟩⟩

section Instances

def sumGraph (mode : AggregateValueMode) : NativeOperatorGraph :=
  NativeOperatorGraph.new.setOperator (.aggregate (.new "sum" mode false))

def sumInput (values : List Value) : NativeOperatorInputV1 :=
  ⟨"sum", "input", ⟨values.map fun value => ⟨.string "a", value, 1⟩⟩⟩

/-- An input for an operator that does not exist. -/
def lostInput : NativeOperatorInputV1 := ⟨"lost", "input", .empty⟩

theorem find?_sumGraph {mode : AggregateValueMode}
    (h : (sumGraph mode).operators.find? nodeId = some operator) :
    operator = .aggregate (.new "sum" mode false) := by
  rw [sumGraph, setOperator, find?_insert] at h
  split_ifs at h
  · exact (Option.some.inj h).symm
  · cases h

/-- An amount, and then a value that is none. -/
def refusedInputs : List NativeOperatorInputV1 := [sumInput [.string "2"], sumInput [.null]]

/-- All sums can be read back from a checkpoint. -/
def sumsReadable (graph : NativeOperatorGraph) : Bool :=
  graph.operators.values.all fun
    | .aggregate sum => sum.aggregate.state.values.all fun entry => decide (-2 ^ 127 < entry.sum.val)
    | _ => true

/-- A decimal sum keeps its checkpoint when the next epoch adds to it before it fails. -/
theorem refusedInputs_unchanged : ∃ graph after failed outputs,
    (sumGraph (.decimal128 39 0)).runEpochs [(1, [sumInput [.string "1"]])] =
        some (graph, outputs) ∧
      graph.applyEpochInner 2 refusedInputs =
        some (failed, .error (.operator .nonDecimalAggregateValue)) ∧
      failed.checkpoint ≠ graph.checkpoint ∧
      graph.applyEpoch 2 refusedInputs =
        some (after, .error (.operator .nonDecimalAggregateValue)) ∧
      after.checkpoint = graph.checkpoint := by
  have hresult : (((sumGraph (.decimal128 39 0)).runEpochs [(1, [sumInput [.string "1"]])]).any
      fun run => sumsReadable run.1 &&
        ((run.1.applyEpochInner 2 refusedInputs).any fun failed =>
          failed.2 = .error (.operator .nonDecimalAggregateValue) ∧
            failed.1.checkpoint ≠ run.1.checkpoint) &&
        (run.1.applyEpoch 2 refusedInputs).any fun after =>
          after.2 = .error (.operator .nonDecimalAggregateValue)) = true := by
    decide +kernel
  obtain ⟨⟨graph, outputs⟩, hrun, hresult⟩ := (any_eq_true _ _).mp hresult
  simp only [Bool.and_eq_true] at hresult
  obtain ⟨⟨hsums, hinner⟩, hepoch⟩ := hresult
  obtain ⟨⟨failed, _⟩, hinner, hfailed⟩ := (any_eq_true _ _).mp hinner
  obtain ⟨⟨after, _⟩, hafter, herror⟩ := (any_eq_true _ _).mp hepoch
  obtain ⟨rfl, hmoved⟩ := of_decide_eq_true hfailed
  obtain rfl := of_decide_eq_true herror
  have hkind {nodeId : String} {operator : NativeOperator}
      (hfind : graph.operators.find? nodeId = some operator) :
      ∃ sum : NativeAggregateOperator, operator = .aggregate sum ∧
        sum.valueMode = .decimal128 39 0 := by
    obtain ⟨first, hfirst, hreset⟩ := (runEpochs_shape hrun).symm.find hfind
    rw [find?_sumGraph hfirst] at hreset
    cases operator <;> simp_all [NativeOperator.reset, NativeAggregateOperator.new]
  refine ⟨graph, after, failed, outputs, hrun, hinner, hmoved, hafter, ?_⟩
  refine ((failure_changes_nothing (fun nodeId operator hfind => ?_) hrun
    (fun nodeId operator hfind => ?_)).1 2 refusedInputs after _
    (fun nodeId operator hfind => ?_) hafter).1
  · rw [find?_sumGraph hfind]
    exact ⟨rfl, rfl⟩
  · obtain ⟨sum, rfl, hmode⟩ := hkind hfind
    intro text entry hentry
    rw [hmode]
    show -2 ^ 127 < entry.sum.val
    have hall := List.all_eq_true.mp hsums _ (mem_values_iff.mpr ⟨nodeId, hfind⟩)
    exact of_decide_eq_true (List.all_eq_true.mp hall _ (mem_values_iff.mpr ⟨text, hentry⟩))
  · obtain ⟨sum, rfl, -⟩ := hkind hfind
    have hbudget : graph.deliveryBudget refusedInputs = 2 := by
      rw [deliveryBudget, (runEpochs_shape hrun).edges, (runEpochs_shape hrun).size]
      decide +kernel
    rw [hbudget]
    show 0 + 2 < 2 ^ 64 - 1
    norm_num

/-- Once a decimal sum is the least `i128`, the rollback of a failed epoch fails. -/
theorem leastSum_rollback_fails :
    (((sumGraph (.decimal128 39 0)).runEpochs [(1, [sumInput
      [.string "-170141183460469231731687303715884105727", .string "-1"]])]).bind fun run =>
        (run.1.applyEpoch 2 [lostInput]).map Prod.snd) =
      some (.error (.invalidCheckpoint ("epoch failed with native operator graph is invalid: " ++
        "input target operator lost is missing; graph rollback failed with aggregate state " ++
        "value must contain integer `sum` and `count` fields"))) := by
  decide +kernel

end Instances

end Velorix.Native.NativeOperatorGraph
