import Velorix.Foundation.Dataflow
import Velorix.Native.Reference
import Velorix.Native.Schedule

/-! Incremental evaluation of a graph of operators against its evaluation once, over all
inputs. The queue of an epoch is an incremental evaluation of the network that the graph
stands for, in whatever order it delivers. -/
namespace Velorix.Native.NativeOperatorGraph

open Json Delta Dataflow Result List NativeOperator Function SortedMap

variable {graph : NativeOperatorGraph} {state : EpochState}

noncomputable def network (graph : NativeOperatorGraph) : Network String String ZSet where
  edges := graph.edges.map fun edge => (edge.fromNodeId, edge.toNodeId, edge.toPortId)
  operator nodeId received :=
    (graph.operators.find? nodeId).elim 0 fun operator => operator.batch received

/-- Inputs as multisets under their addresses. -/
noncomputable def addressed (inputs : List NativeOperatorInputV1) :
    List ((String × String) × ZSet) :=
  inputs.map fun input => ((input.nodeId, input.portId), zset input.batch.records)

/-- All that the epochs put in, at every port of every node. -/
noncomputable def accumulated (epochs : List (UInt64 × List NativeOperatorInputV1))
    (nodeId portId : String) : ZSet :=
  arriving (addressed (epochs.flatMap Prod.snd)) nodeId portId

/-- The value of a node when the acyclic graph is evaluated once over the accumulated inputs. -/
noncomputable def evaluateOnce (graph : NativeOperatorGraph)
    (epochs : List (UInt64 × List NativeOperatorInputV1)) (nodeId : String) : ZSet :=
  graph.network.evaluate (accumulated epochs) graph.operators.size nodeId

noncomputable def outputAt (sinks : SortedMap String DeltaBatch) (nodeId : String) : ZSet :=
  zset ((sinks.find? nodeId).getD .empty).records

/-- The sum of what the epochs returned for a node. -/
noncomputable def totalOutput (outputs : List (SortedMap String DeltaBatch)) (nodeId : String) :
    ZSet :=
  (outputs.map fun sinks => outputAt sinks nodeId).sum

/-- A record that waits in the queue or at a sink. -/
def Holds (state : EpochState) (record : DeltaRecord) : Prop :=
  (∃ input ∈ state.queue, record ∈ input.batch.records) ∨
    ∃ nodeId batch, state.sinks.find? nodeId = some batch ∧ record ∈ batch.records

/-- The states that the loops of a run of epochs go through. -/
def ReachedInRun : NativeOperatorGraph → List (UInt64 × List NativeOperatorInputV1) →
    Set EpochState
  | _, [] => ∅
  | graph, (logicalEpoch, inputs) :: rest =>
    {state | Relation.ReflTransGen LoopStep ⟨graph, sortInputs inputs, ∅⟩ state ∨
      ∃ next outputs, graph.applyEpoch logicalEpoch inputs = some (next, .ok outputs) ∧
        state ∈ next.ReachedInRun rest}

/-- The pairs of the records that a run of epochs ever holds. -/
def InvolvedInRun (graph : NativeOperatorGraph)
    (epochs : List (UInt64 × List NativeOperatorInputV1)) : Set (Value × Value) :=
  {pair | ∃ state ∈ graph.ReachedInRun epochs, ∃ record, Holds state record ∧ record.pair = pair}

/-- The keys of the records that a run of epochs ever holds for a node. -/
def ReadInRun (graph : NativeOperatorGraph)
    (epochs : List (UInt64 × List NativeOperatorInputV1)) (nodeId : String) : Set Value :=
  {key | ∃ state ∈ graph.ReachedInRun epochs, ∃ input ∈ state.queue, input.nodeId = nodeId ∧
    ∃ record ∈ input.batch.records, record.key = key}

theorem network_operator {n : String} {op : NativeOperator}
    (h : graph.operators.find? n = some op) (received : String → ZSet) :
    graph.network.operator n received = op.batch received := by
  show (graph.operators.find? n).elim 0 (fun op => op.batch received) = _
  rw [h, Option.elim_some]

@[simp]
theorem network_operator_zero (graph : NativeOperatorGraph) (n : String) :
    graph.network.operator n 0 = 0 := by
  show (graph.operators.find? n).elim 0 (fun op => op.batch 0) = 0
  rcases graph.operators.find? n with _ | op
  · rfl
  · exact op.batch_zero

theorem Connected.network_ranked {rank : String → ℕ} (h : Connected graph rank) :
    graph.network.Ranked rank := by
  intro edge he
  obtain ⟨whole, hw, rfl⟩ := mem_map.mp he
  exact h.ranked whole hw

theorem addressed_outgoing (graph : NativeOperatorGraph) (n : String) (o : DeltaBatch) :
    addressed ((graph.outgoing n).map fun edge =>
      ⟨edge.toNodeId, edge.toPortId, o⟩) = graph.network.sendings n (zset o.records) := by
  unfold addressed Network.sendings outgoing
  show _ = ((graph.edges.map fun edge => (edge.fromNodeId, edge.toNodeId, edge.toPortId)).filter
    fun edge => edge.1 = n).map fun edge => (edge.2, zset o.records)
  rw [filter_map, map_map, map_map]
  rfl

@[simp]
theorem addressed_append (ins others : List NativeOperatorInputV1) :
    addressed (ins ++ others) = addressed ins ++ addressed others := map_append

/-- The operators of a graph, as far as the evaluation depends on them: their closures ignore
weights, and semi and anti joins can tell the keys that they read apart. -/
structure Plain (keys : String → Set Value) (graph : NativeOperatorGraph) : Prop where
  weightBlind : ∀ nodeId operator, graph.operators.find? nodeId = some operator →
    operator.WeightBlind
  keysApart : ∀ nodeId operator, graph.operators.find? nodeId = some operator →
    operator.ReadsKeys → KeysApart (keys nodeId)

/-- What a state of the loop holds has pairs and, node by node, keys of the given sets. -/
structure Covers (keys : String → Set Value) (pairs : Set (Value × Value)) (state : EpochState) :
    Prop where
  pairs : ∀ record, Holds state record → record.pair ∈ pairs
  keys : ∀ input ∈ state.queue, ∀ record ∈ input.batch.records, record.key ∈ keys input.nodeId

/-- The operators have the state of what was delivered to them, and what was emitted and is
not yet delivered is pending. -/
structure Evaluates (keys : String → Set Value) (pairs : Set (Value × Value)) (start : NativeOperatorGraph)
    (external : String → String → ZSet) (graph : NativeOperatorGraph)
    (queue : List NativeOperatorInputV1) (delivered : String → String → ZSet)
    (emitted : String → ZSet) : Prop where
  shape : SameShape start graph
  progress : start.network.Progress external delivered (addressed queue) emitted
  tracks : ∀ nodeId operator, graph.operators.find? nodeId = some operator →
    operator.Tracks (keys nodeId) pairs (delivered nodeId)

/-- What the sinks got in this epoch and before is what was emitted there. -/
def Collects (start : NativeOperatorGraph) (before : String → ZSet)
    (sinks : SortedMap String DeltaBatch) (emitted : String → ZSet) : Prop :=
  ∀ nodeId, start.outgoing nodeId = [] → before nodeId + outputAt sinks nodeId = emitted nodeId

section Loop
variable {outs : SortedMap String DeltaBatch}

variable {keys : String → Set Value} {ps : Set (Value × Value)} {start : NativeOperatorGraph}
  {x delivered : String → String → ZSet} {before emitted : String → ZSet}

theorem outputAt_insert (sinks : SortedMap String DeltaBatch) (n : String)
    (o : DeltaBatch) (other : String) :
    outputAt (sinks.insert n (((sinks.find? n).getD .empty).combine o)) other =
      outputAt sinks other + if n = other then zset o.records else 0 := by
  unfold outputAt
  rw [find?_insert]
  split_ifs with hsame
  · rw [Option.getD_some, DeltaBatch.combine, zset_append, hsame]
  · rw [add_zero]

theorem emit_cases (state : EpochState) (n : String) (o : DeltaBatch) :
    (emit state n o).queue = state.queue ++ (state.graph.outgoing n).map
        (fun edge => ⟨edge.toNodeId, edge.toPortId, o⟩) ∧ ∀ other, state.graph.outgoing other = [] →
        outputAt (emit state n o).sinks other =
          outputAt state.sinks other + if n = other then zset o.records else 0 := by
  simp only [emit]
  split_ifs with hs
  · rw [List.isEmpty_iff.mp hs]
    exact ⟨(append_nil _).symm, fun other _ => outputAt_insert _ _ _ _⟩
  · refine ⟨rfl, ?_⟩
    intro other hother
    have hne : n ≠ other := by
      intro heq
      rw [heq, hother] at hs
      exact hs rfl
    rw [if_neg hne, add_zero]

/-- One delivery is one step of the incremental evaluation. -/
theorem Evaluates.deliver {sinks : SortedMap String DeltaBatch} {next : EpochState}
    {i : NativeOperatorInputV1} {queue : List NativeOperatorInputV1}
    (hp : PairsApart ps) (hplain : Plain keys start)
    (h : Evaluates keys ps start x graph (i :: queue) delivered emitted)
    (hc : Collects start before sinks emitted) (hi : RecordsIn (keys i.nodeId) ps i.batch.records)
    (hd : deliver ⟨graph, queue, sinks⟩ i = .ok next) :
    ∃ delivered' emitted', Evaluates keys ps start x next.graph next.queue delivered' emitted' ∧
        Collects start before next.sinks emitted' := by
  obtain ⟨op, o, hf, -, hres, rfl⟩ := deliver_ok hd
  obtain ⟨hreset, -⟩ := op.apply_kept i.portId i.batch
  obtain ⟨first, hfirst, hsame⟩ := h.shape.symm.find hf
  have ha := NativeOperator.Tracks.apply
    (fun hr => hplain.keysApart _ _ hfirst (readsKeys_of_reset hsame.symm hr)) hp
    (weightBlind_of_reset hsame.symm (hplain.weightBlind _ _ hfirst))
    (h.tracks _ _ hf) hi (Prod.ext rfl hres)
  have hn : Network.received delivered i.nodeId i.portId (zset i.batch.records)
      i.nodeId = NativeOperator.more (delivered i.nodeId) i.portId i.batch := by
    rw [Network.received, update_self]
    rfl
  have hshape := (later_apply hf i.portId i.batch).toSameShape
  have ho : zset o.records = start.network.operator i.nodeId
      (Network.received delivered i.nodeId i.portId (zset i.batch.records) i.nodeId) -
        start.network.operator i.nodeId (delivered i.nodeId) := by
    rw [hn, network_operator hfirst, network_operator hfirst, ha.difference,
      batch_of_reset hsame]
  obtain ⟨hq, hsinks⟩ := emit_cases
    ⟨graph.setOperator (op.apply i.portId i.batch).1, queue, sinks⟩
    i.nodeId o
  have he : (graph.setOperator (op.apply i.portId i.batch).1).outgoing = start.outgoing := by
    unfold outgoing
    rw [hshape.edges, h.shape.edges]
  refine ⟨Network.received delivered i.nodeId i.portId (zset i.batch.records),
    Function.update emitted i.nodeId (emitted i.nodeId + zset o.records),
    ⟨?_, ?_, ?_⟩, ?_⟩
  · rw [graph_emit]
    exact h.shape.trans hshape
  · rw [hq, addressed_append, he, addressed_outgoing]
    exact h.progress.deliver ho
  · intro n other hother
    rw [graph_emit, find?_setOperator hf hreset] at hother
    split_ifs at hother with hnode
    · cases hother
      rw [← hnode, hn]
      exact ha.tracks
    · rw [Network.received, update_of_ne (Ne.symm hnode)]
      exact h.tracks n other hother
  · intro n hs
    rw [hsinks n (by rw [he]; exact hs), ← add_assoc, hc n hs]
    split_ifs with hnode
    · rw [← hnode, update_self]
    · rw [update_of_ne (Ne.symm hnode), add_zero]

theorem Evaluates.drain {fuel : ℕ} {final : EpochState}
    (hdrain : drain fuel state = some (.ok final))
    (hp : PairsApart ps) (hplain : Plain keys start)
    (h : Evaluates keys ps start x state.graph state.queue delivered emitted)
    (hc : Collects start before state.sinks emitted)
    (hi : ∀ reached, Relation.ReflTransGen LoopStep state reached → Covers keys ps reached) :
    Relation.ReflTransGen LoopStep state final ∧ ∃ delivered' emitted',
      Evaluates keys ps start x final.graph [] delivered' emitted' ∧
        Collects start before final.sinks emitted' := by
  obtain ⟨hreach, hq⟩ := drain_ok hdrain
  refine ⟨hreach, ?_⟩
  rw [← hq]
  clear hdrain hq
  induction hreach with
  | refl => exact ⟨delivered, emitted, h, hc⟩
  | @tail reached next hreach hs ih =>
    obtain ⟨delivered', emitted', hn, hsinks⟩ := ih
    obtain ⟨i, queue, hq, hd⟩ := hs
    rw [hq] at hn
    have hin : i ∈ reached.queue := by
      rw [hq]
      exact mem_cons_self
    have hreached := hi reached hreach
    exact hn.deliver hp hplain hsinks
      (fun r hr => ⟨hreached.keys i hin r hr, hreached.pairs r (.inl ⟨i, hin, hr⟩)⟩) hd

theorem consolidateSinks_ok {sinks : SortedMap String DeltaBatch}
    (h : consolidateSinks sinks = .ok outs) (n : String) :
    (sinks.find? n = none ∧ outs.find? n = none) ∨
      ∃ batch rows, sinks.find? n = some batch ∧ batch.netRows = .ok rows ∧
        outs.find? n = some ⟨rows⟩ := by
  obtain ⟨es, hentries, h⟩ := bind_eq_ok.mp h
  cases h
  have ha : List.Forall₂ (fun sink e => e.1 = sink.1 ∧
      ∃ rows, sink.2.netRows = .ok rows ∧ e.2 = ⟨rows⟩) sinks.entries es := by
    apply (mapM_eq_ok.mp hentries).imp
    intro sink e he
    obtain ⟨rows, hr, he⟩ := bind_eq_ok.mp he
    cases he
    exact ⟨rfl, rows, netRows_eq_ok.mp hr, rfl⟩
  have hk : es.map Prod.fst = sinks.entries.map Prod.fst := by
    rw [← forall₂_eq_eq_eq, forall₂_map_left_iff, forall₂_map_right_iff]
    exact ha.flip.imp fun e sink he => he.1
  have hsort : es.Pairwise fun a b => a.1 < b.1 := by
    rw [← pairwise_map (f := Prod.fst) (R := fun a b : String => a < b), hk, pairwise_map]
    exact sinks.sorted
  -- the consolidated entries are in key order, so building the map keeps them
  have hmap : SortedMap.ofList es = ⟨es, hsort⟩ := ofList_entries ⟨es, hsort⟩
  rw [hmap]
  have hr {e : String × DeltaBatch} (he : e ∈ es) :
      ∃ batch rows, sinks.find? e.1 = some batch ∧ batch.netRows = .ok rows ∧ e.2 = ⟨rows⟩ := by
    obtain ⟨sink, hs, he⟩ := exists_of_mem_mapM hentries he
    obtain ⟨rows, hr, he⟩ := bind_eq_ok.mp he
    cases he
    exact ⟨sink.2, rows, mem_entries_iff.mp hs, netRows_eq_ok.mp hr, rfl⟩
  rcases hf : (⟨es, hsort⟩ : SortedMap String DeltaBatch).find? n with _ | o
  · left
    refine ⟨?_, rfl⟩
    rcases hs : sinks.find? n with _ | batch
    · rfl
    · have hm : n ∈ sinks.entries.map Prod.fst :=
        mem_map_of_mem (f := Prod.fst) (mem_entries_iff.mpr hs)
      rw [← hk] at hm
      obtain ⟨o, ho⟩ :=
        mem_keys_iff.mp (show n ∈ SortedMap.keys ⟨es, hsort⟩ from hm)
      rw [hf] at ho
      cases ho
  · right
    obtain ⟨batch, rows, hs, hn, ho⟩ := hr (mem_entries_iff.mpr hf)
    exact ⟨batch, rows, hs, hn, congrArg some ho⟩

theorem outputAt_consolidateSinks (hp : PairsApart ps)
    (hh : ∀ r, Holds state r → r.pair ∈ ps) (h : consolidateSinks state.sinks = .ok outs)
    (n : String) : outputAt outs n = outputAt state.sinks n := by
  unfold outputAt
  rcases consolidateSinks_ok h n with ⟨hs, ho⟩ | ⟨batch, rows, hs, hr, ho⟩
  · rw [hs, ho]
  · rw [hs, ho, Option.getD_some, Option.getD_some]
    apply DeltaBatch.Separated.zset_netRows _ hr
    intro a ha b hb
    exact hp _ (hh a (.inr ⟨n, batch, hs, ha⟩)) _
      (hh b (.inr ⟨n, batch, hs, hb⟩))

section
variable (hp : PairsApart ps) (hplain : Plain keys start)
  (h : Evaluates keys ps start x graph [] delivered emitted)
include hp hplain h

/-- An epoch adds its inputs to the evaluation and returns what the sinks emitted in it. -/
theorem Evaluates.applyEpoch {next : NativeOperatorGraph} {e : UInt64}
    {ins : List NativeOperatorInputV1}
    (hi : ∀ state, Relation.ReflTransGen LoopStep ⟨graph, sortInputs ins, ∅⟩ state →
      Covers keys ps state)
    (he : graph.applyEpoch e ins = some (next, .ok outs)) :
    ∃ delivered' emitted', Evaluates keys ps start
        (fun n portId => x n portId + arriving (addressed ins) n portId)
        next [] delivered' emitted' ∧ ∀ n, start.outgoing n = [] →
        emitted n + outputAt outs n = emitted' n := by
  obtain ⟨loop, hl, ⟨error, -, hf⟩ | ⟨final, rfl, hn, hconsolidate⟩⟩ :=
    applyEpochInner_cases (applyEpoch_ok he).2
  · cases hf
  have hperm : (addressed (sortInputs ins)).Perm (addressed ins) :=
    (perm_insertionSort _ ins).map _
  have hb : Evaluates keys ps start
      (fun n portId => x n portId + arriving (addressed ins) n portId)
      graph (sortInputs ins) delivered emitted :=
    { shape := h.shape
      progress := (h.progress.add_inputs (addressed ins)).perm hperm
      tracks := h.tracks }
  have hempty : Collects start emitted ∅ emitted := fun n _ => add_zero _
  obtain ⟨hreach, delivered', emitted', hend, hc⟩ :=
    Evaluates.drain hl hp hplain hb hempty hi
  rw [hn]
  refine ⟨delivered', emitted', ⟨?_, hend.progress, hend.tracks⟩, ?_⟩
  · exact ⟨hend.shape.edges, hend.shape.definitions⟩
  · intro n hs
    rw [outputAt_consolidateSinks hp (hi final hreach).pairs hconsolidate.symm]
    exact hc n hs

/-- A run of epochs evaluates the accumulated inputs. -/
theorem Evaluates.runEpochs {final : NativeOperatorGraph}
    {epochs : List (UInt64 × List NativeOperatorInputV1)}
    {outs : List (SortedMap String DeltaBatch)}
    (hi : ∀ state ∈ graph.ReachedInRun epochs, Covers keys ps state)
    (hrun : graph.runEpochs epochs = some (final, outs)) :
    ∃ delivered' emitted', Evaluates keys ps start
        (fun n portId => x n portId + accumulated epochs n portId)
        final [] delivered' emitted' ∧ ∀ n, start.outgoing n = [] →
        emitted n + totalOutput outs n = emitted' n := by
  induction epochs generalizing graph x delivered emitted outs with
  | nil =>
    cases hrun
    refine ⟨delivered, emitted, ?_, fun n _ => add_zero _⟩
    have hnothing : (fun n portId => x n portId + accumulated [] n portId) = x := by
      funext n portId
      exact add_zero _
    rw [hnothing]
    exact h
  | cons epoch rest ih =>
    obtain ⟨next, o, others, he, hr, rfl⟩ := runEpochs_cons hrun
    obtain ⟨delivered', emitted', hn, hsinks⟩ := h.applyEpoch hp hplain
      (fun state hs => hi state (.inl hs)) he
    obtain ⟨delivered'', emitted'', hf, ht⟩ := ih hn
      (fun state hs => hi state (.inr ⟨next, o, he, hs⟩)) hr
    refine ⟨delivered'', emitted'', ?_, ?_⟩
    · have hsum : (fun n portId => x n portId +
          accumulated (epoch :: rest) n portId) = fun n portId =>
          x n portId + arriving (addressed epoch.2) n portId + accumulated rest n portId := by
        funext n portId
        rw [accumulated, flatMap_cons, addressed_append, arriving_append, ← accumulated,
          add_assoc]
      rw [hsum]
      exact hf
    · intro n hs
      rw [← ht n hs, ← hsinks n hs, totalOutput, map_cons, sum_cons, add_assoc]
      rfl

end

end Loop

theorem evaluates_start {keys : String → Set Value} {ps : Set (Value × Value)}
    (hfresh : ∀ n op, graph.operators.find? n = some op → op.reset = op ∧ op.isCore = true) :
    Evaluates keys ps graph 0 graph [] 0 0 where
  shape := (Later.refl graph).toSameShape
  progress := Network.Progress.start graph.network_operator_zero
  tracks := by
    intro n op hf
    obtain ⟨hreset, hc⟩ := hfresh n op hf
    exact tracks_fresh hreset hc

theorem covers_readInRun (epochs : List (UInt64 × List NativeOperatorInputV1)) :
    ∀ state ∈ graph.ReachedInRun epochs,
      Covers (graph.ReadInRun epochs) (graph.InvolvedInRun epochs) state :=
  fun state hs =>
    { pairs := fun record hr => ⟨state, hs, record, hr, rfl⟩
      keys := fun input hi record hr => ⟨state, hs, input, hi, rfl, record, hr, rfl⟩ }

/-- The sum over all epochs of what they return for a sink is the value of the sink when the
graph is evaluated once over the accumulated inputs. -/
theorem totalOutput_eq_evaluateOnce {graph final : NativeOperatorGraph}
    {epochs : List (UInt64 × List NativeOperatorInputV1)}
    {outputs : List (SortedMap String DeltaBatch)} (hvalid : graph.validate = .ok ())
    (hfresh : ∀ nodeId operator, graph.operators.find? nodeId = some operator →
      operator.reset = operator ∧ operator.isCore = true)
    (hplain : Plain (graph.ReadInRun epochs) graph)
    (hpairs : PairsApart (graph.InvolvedInRun epochs))
    (hrun : graph.runEpochs epochs = some (final, outputs)) {nodeId : String}
    (hsink : graph.outgoing nodeId = []) :
    totalOutput outputs nodeId = graph.evaluateOnce epochs nodeId := by
  obtain ⟨rank, hconnected⟩ := validate_connected hvalid
  obtain ⟨delivered, emitted, hfinal, htotal⟩ :=
    (evaluates_start hfresh).runEpochs hpairs hplain (covers_readInRun epochs) hrun
  have hsum := htotal nodeId hsink
  have hvalues := hfinal.progress.emitted_eq_evaluate hconnected.network_ranked hconnected.bounded
  have hexternal : (fun nodeId portId => (0 : String → String → ZSet) nodeId portId +
      accumulated epochs nodeId portId) = accumulated epochs := by
    funext nodeId portId
    exact zero_add _
  rw [hexternal] at hvalues
  rw [evaluateOnce, ← hvalues, ← hsum]
  exact (zero_add _).symm

section Instances

def trace : ℕ → EpochState → List EpochState
  | fuel, ⟨graph, queue, sinks⟩ => ⟨graph, queue, sinks⟩ :: match queue with
    | [] => []
    | input :: queue =>
      match fuel with
      | 0 => []
      | fuel + 1 =>
        match deliver ⟨graph, queue, sinks⟩ input with
        | .error _ => []
        | .ok next => trace fuel next

def heldPairs (state : EpochState) : List (Value × Value) :=
  state.queue.flatMap (fun input => input.batch.records.map DeltaRecord.pair) ++
    state.sinks.values.flatMap fun batch => batch.records.map DeltaRecord.pair

/-- The states of a run of epochs, one after the other. -/
def runTrace : NativeOperatorGraph → List (UInt64 × List NativeOperatorInputV1) → List EpochState
  | _, [] => []
  | graph, (logicalEpoch, inputs) :: rest =>
    trace (graph.deliveryBudget (sortInputs inputs)) ⟨graph, sortInputs inputs, ∅⟩ ++
      match graph.applyEpoch logicalEpoch inputs with
      | some (next, .ok _) => next.runTrace rest
      | _ => []

theorem mem_trace {fuel : ℕ} {reached : EpochState} (hdrain : (drain fuel state).isSome)
    (h : Relation.ReflTransGen LoopStep state reached) : reached ∈ trace fuel state := by
  induction fuel generalizing state with
  | zero =>
    obtain ⟨graph, queue, sinks⟩ := state
    cases queue with
    | nil =>
      rcases h.cases_head with rfl | ⟨next, ⟨i, queue, hq, -⟩, -⟩
      · exact mem_cons_self ..
      · cases hq
    | cons i queue => cases hdrain
  | succ fuel ih =>
    obtain ⟨graph, queue, sinks⟩ := state
    rcases h.cases_head with rfl | ⟨next, ⟨i, rest, hq, hd⟩, hreach⟩
    · cases queue <;> exact mem_cons_self ..
    · have hq : queue = i :: rest := hq
      subst hq
      have hd : deliver ⟨graph, rest, sinks⟩ i = .ok next := hd
      rw [drain] at hdrain
      simp only [hd] at hdrain
      rw [trace]
      simp only [hd]
      exact mem_cons_of_mem _ (ih hdrain hreach)

theorem mem_runTrace {final : NativeOperatorGraph} {outs : List (SortedMap String DeltaBatch)}
    {epochs : List (UInt64 × List NativeOperatorInputV1)}
    (hrun : graph.runEpochs epochs = some (final, outs)) :
    ∀ s ∈ graph.ReachedInRun epochs, s ∈ graph.runTrace epochs := by
  induction epochs generalizing graph outs with
  | nil => exact fun s hs => absurd hs (Set.notMem_empty s)
  | cons epoch rest ih =>
    obtain ⟨next, o, others, he, hr, -⟩ := runEpochs_cons hrun
    rintro s (hs | ⟨next', o', he', hs⟩)
    · obtain ⟨result, hd⟩ := drain_start (applyEpoch_ok he).1 epoch.2
      exact mem_append_left _ (mem_trace (by rw [hd]; rfl) hs)
    · rw [he] at he'
      cases he'
      rw [runTrace, he]
      exact mem_append_right _ (ih hr s hs)

/-- The pairs of a run are among those of its states. -/
theorem involvedInRun_runTrace {final : NativeOperatorGraph}
    {outs : List (SortedMap String DeltaBatch)}
    {epochs : List (UInt64 × List NativeOperatorInputV1)}
    (hrun : graph.runEpochs epochs = some (final, outs)) :
    ∀ p ∈ graph.InvolvedInRun epochs, p ∈ (graph.runTrace epochs).flatMap heldPairs := by
  rintro p ⟨s, hs, r, hh, rfl⟩
  refine mem_flatMap.mpr ⟨s, mem_runTrace hrun s hs, mem_append.mpr ?_⟩
  rcases hh with ⟨i, hinput, hr⟩ | ⟨n, batch, hs, hr⟩
  · exact .inl (mem_flatMap.mpr ⟨i, hinput, mem_map_of_mem hr⟩)
  · exact .inr (mem_flatMap.mpr
      ⟨batch, mem_values_iff.mpr ⟨n, hs⟩, mem_map_of_mem hr⟩)

/-- A projection that swaps key and value, in front of the left side of a semi join. -/
def semiJoinGraph : NativeOperatorGraph :=
  ((new.setOperator (.project ⟨"swap", fun record => .ok (record.value, record.key)⟩)).setOperator
    (.semiJoin (.new "semi"))).addEdge ⟨"swap", "semi", "left"⟩

theorem find?_semiJoinGraph {n : String} {op : NativeOperator}
    (h : semiJoinGraph.operators.find? n = some op) :
    n = "semi" ∧ op = .semiJoin (.new "semi") ∨
      op = .project ⟨"swap", fun record => .ok (record.value, record.key)⟩ := by
  rw [semiJoinGraph, addEdge, setOperator, find?_insert] at h
  split_ifs at h with hn
  · exact .inl ⟨hn.symm, (Option.some.inj h).symm⟩
  · rw [setOperator, find?_insert] at h
    split_ifs at h
    · exact .inr (Option.some.inj h).symm
    · cases h

/-- A left row with its partner on the right, and then a second left row without one, with
the retraction of the partner. The values become the keys of the join. -/
def swappedEpochs : List (UInt64 × List NativeOperatorInputV1) :=
  [(1, [⟨"swap", "input", ⟨[⟨.string "a", .string "x", 1⟩]⟩⟩,
      ⟨"semi", "right", ⟨[⟨.string "x", .null, 1⟩]⟩⟩]),
    (2, [⟨"swap", "input", ⟨[⟨.string "a", .string "y", 1⟩]⟩⟩,
      ⟨"semi", "right", ⟨[⟨.string "x", .null, ⟨-1, SInt.minusOne_lo, SInt.minusOne_hi⟩⟩]⟩⟩])]

theorem swappedEpochs_evaluated : ∃ final outputs,
    semiJoinGraph.runEpochs swappedEpochs = some (final, outputs) ∧
      totalOutput outputs "semi" = semiJoinGraph.evaluateOnce swappedEpochs "semi" := by
  have hvalid : semiJoinGraph.validate = .ok () := by decide +kernel
  have hpairs : ∀ a ∈ (semiJoinGraph.runTrace swappedEpochs).flatMap heldPairs,
      ∀ b ∈ (semiJoinGraph.runTrace swappedEpochs).flatMap heldPairs,
        encodeKvOrdered a.1 a.2 = encodeKvOrdered b.1 b.2 → a = b := by
    decide +kernel
  have hkeys : ∀ state ∈ semiJoinGraph.runTrace swappedEpochs, ∀ input ∈ state.queue,
      input.nodeId = "semi" → ∀ record ∈ input.batch.records,
        record.key = .string "x" ∨ record.key = .string "y" := by
    decide +kernel
  have hrun : (semiJoinGraph.runEpochs swappedEpochs).isSome = true := by decide +kernel
  obtain ⟨⟨final, outputs⟩, hrun⟩ := Option.isSome_iff_exists.mp hrun
  refine ⟨final, outputs, hrun, totalOutput_eq_evaluateOnce hvalid ?_ ⟨?_, ?_⟩ ?_ hrun
    (by decide +kernel)⟩
  · intro nodeId operator hfind
    rcases find?_semiJoinGraph hfind with ⟨rfl, rfl⟩ | rfl <;> exact ⟨rfl, rfl⟩
  · intro nodeId operator hfind
    rcases find?_semiJoinGraph hfind with ⟨rfl, rfl⟩ | rfl
    · trivial
    · intro record
      rfl
  · intro nodeId operator hfind hreads
    rcases find?_semiJoinGraph hfind with ⟨rfl, rfl⟩ | rfl
    · rintro a ⟨s, hs, i, hi, hn, r, hr, rfl⟩ b ⟨t, ht, j, hj, hm, q, hq, rfl⟩
      rcases hkeys s (mem_runTrace hrun s hs) i hi hn r hr with ha | ha <;>
        rcases hkeys t (mem_runTrace hrun t ht) j hj hm q hq with hb | hb <;>
        rw [ha, hb] <;> decide
    · cases hreads
  · intro a ha b hb
    exact hpairs a (involvedInRun_runTrace hrun a ha) b (involvedInRun_runTrace hrun b hb)

def zeroKey : Value := .number (.float ⟨['0', '.', '0'], by decide, by decide, by decide⟩)

def minusZeroKey : Value :=
  .number (.float ⟨['-', '0', '.', '0'], by decide, by decide, by decide⟩)

def loneSemiJoin : NativeOperatorGraph := new.setOperator (.semiJoin (.new "semi"))

/-- A left row, then a right batch with a partner for it and a row whose key is the other
zero. -/
def zeroInputs : List NativeOperatorInputV1 :=
  [⟨"semi", "left", ⟨[⟨zeroKey, .string "row", 1⟩]⟩⟩,
    ⟨"semi", "right", ⟨[⟨zeroKey, .null, 1⟩, ⟨minusZeroKey, .null, 1⟩]⟩⟩]

/-- Both zeros are touched and both find the left row, so it is emitted twice. -/
theorem zeroInputs_emitted_twice : loneSemiJoin.validate = .ok () ∧
    PairsApart (loneSemiJoin.InvolvedInRun [(1, zeroInputs)]) ∧
    ∃ final outputs, loneSemiJoin.runEpochs [(1, zeroInputs)] = some (final, outputs) ∧
      totalOutput outputs "semi" (zeroKey, .string "row") = 2 ∧
      loneSemiJoin.evaluateOnce [(1, zeroInputs)] "semi" (zeroKey, .string "row") ≠ 2 := by
  have hpairs : ∀ a ∈ (loneSemiJoin.runTrace [(1, zeroInputs)]).flatMap heldPairs,
      ∀ b ∈ (loneSemiJoin.runTrace [(1, zeroInputs)]).flatMap heldPairs,
        encodeKvOrdered a.1 a.2 = encodeKvOrdered b.1 b.2 → a = b := by
    decide +kernel
  have hrun : (loneSemiJoin.runEpochs [(1, zeroInputs)]).map Prod.snd =
      some [SortedMap.ofList [("semi",
        ⟨[⟨zeroKey, .string "row", ⟨2, by decide, by decide⟩⟩]⟩)]] := by
    decide +kernel
  obtain ⟨⟨final, outputs⟩, hrun, houtputs⟩ := Option.map_eq_some_iff.mp hrun
  have houtputs : outputs = _ := houtputs
  refine ⟨by decide +kernel, ?_, final, outputs, hrun, ?_⟩
  · intro a ha b hb
    exact hpairs a (involvedInRun_runTrace hrun a ha) b (involvedInRun_runTrace hrun b hb)
  · constructor
    · rw [houtputs, totalOutput, map_singleton, sum_singleton, outputAt, zset_apply]
      decide +kernel
    · have hleft : accumulated [(1, zeroInputs)] "semi" "left" =
          zset [⟨zeroKey, .string "row", 1⟩] := add_zero _
      have honce : loneSemiJoin.evaluateOnce [(1, zeroInputs)] "semi" =
          WeightedSet.kept (fun key => 0 < WeightedSet.keyWeight
            (accumulated [(1, zeroInputs)] "semi" "right" + 0) key)
            (accumulated [(1, zeroInputs)] "semi" "left" + 0) := rfl
      rw [honce, add_zero (accumulated _ _ "left"), hleft, WeightedSet.kept_apply, zset_apply]
      have hone : pairWeight (zeroKey, .string "row") [⟨zeroKey, .string "row", 1⟩] = 1 := by
        decide +kernel
      rw [hone]
      split_ifs <;> decide

end Instances

end Velorix.Native.NativeOperatorGraph
