import Velorix.Native.Rollback

/-! What validation establishes about the edges of a graph, and from it that the loop of an
epoch always ends: every delivery uses up one of the deliveries its queue leads to. -/
namespace Velorix.Native.NativeOperatorGraph

open Delta List

variable {rank : String → ℕ}

/-- Both ends of an edge exist, and the consumer has the port. -/
def EndsExist (operators : SortedMap String NativeOperator) (edge : NativeOperatorEdgeV1) : Prop :=
  (operators.find? edge.fromNodeId).isSome ∧ ∃ consumer,
    operators.find? edge.toNodeId = some consumer ∧ edge.toPortId ∈ consumer.inputPorts

/-- A graph whose edges end at ports that exist, with a rank of the nodes that grows along
every edge. -/
structure Connected (graph : NativeOperatorGraph) (rank : String → ℕ) : Prop where
  accepted : ∀ edge ∈ graph.edges, ∃ consumer,
    graph.operators.find? edge.toNodeId = some consumer ∧ edge.toPortId ∈ consumer.inputPorts
  ranked : ∀ edge ∈ graph.edges, rank edge.fromNodeId < rank edge.toNodeId
  bounded : ∀ nodeId, rank nodeId ≤ graph.operators.size

theorem validateEdge_ok_iff {ops : SortedMap String NativeOperator}
    {unique next : List NativeOperatorEdgeV1} {edge : NativeOperatorEdgeV1} :
    validateEdge ops unique edge = .ok next ↔
      edge ∉ unique ∧ EndsExist ops edge ∧ edge :: unique = next := by
  unfold validateEdge EndsExist
  split_ifs with hd hp
  · simp [hd]
  · simp [Option.isNone_iff_eq_none.mp hp]
  · rcases hc : ops.find? edge.toNodeId with _ | consumer
    · simp
    · rw [Option.isNone_iff_eq_none, ← ne_eq, Option.ne_none_iff_isSome] at hp
      by_cases hport : edge.toPortId ∈ consumer.inputPorts <;> simp [hport, hp, hd]

theorem foldlM_validateEdge_ok_iff (ops : SortedMap String NativeOperator)
    (edges unique : List NativeOperatorEdgeV1) :
    (∃ seen, edges.foldlM (validateEdge ops) unique = .ok seen) ↔
      edges.Nodup ∧ (∀ edge ∈ edges, edge ∉ unique) ∧ ∀ edge ∈ edges, EndsExist ops edge := by
  induction edges generalizing unique with
  | nil => simp [pure, Except.pure]
  | cons edge rest ih =>
    simp only [foldlM_cons, Result.bind_eq_ok, validateEdge_ok_iff, forall_mem_cons,
      nodup_cons]
    constructor
    · rintro ⟨seen, next, ⟨hnew, he, rfl⟩, hr⟩
      obtain ⟨hn, hd, hall⟩ := (ih _).mp ⟨seen, hr⟩
      exact ⟨⟨fun hm => hd edge hm mem_cons_self, hn⟩,
        ⟨hnew, fun other ho hm => hd other ho (mem_cons_of_mem _ hm)⟩,
        he, hall⟩
    · rintro ⟨⟨hf, hn⟩, ⟨hnew, hd⟩, he, hall⟩
      have hfresh : ∀ other ∈ rest, other ∉ edge :: unique := by
        intro other ho
        rw [mem_cons, not_or]
        exact ⟨fun heq => hf (heq ▸ ho), hd other ho⟩
      obtain ⟨seen, hr⟩ := (ih _).mpr ⟨hn, hfresh, hall⟩
      exact ⟨seen, _, ⟨hnew, he, rfl⟩, hr⟩

section Validation
variable {graph : NativeOperatorGraph}

theorem targets_exist (h : ∀ edge ∈ graph.edges, EndsExist graph.operators edge) :
    ∀ edge ∈ ends graph.edges, edge.2 ∈ graph.operators.keys := by
  intro edge he
  obtain ⟨whole, hw, rfl⟩ := mem_map.mp he
  obtain ⟨-, consumer, hc, -⟩ := h whole hw
  exact SortedMap.mem_keys_iff.mpr ⟨consumer, hc⟩

theorem validateAcyclic_ok_iff (h : ∀ edge ∈ graph.edges, EndsExist graph.operators edge) :
    validateAcyclic graph.operators graph.edges = .ok () ↔ Kahn.Acyclic (ends graph.edges) := by
  have hs : ∀ edge ∈ ends graph.edges, edge.1 ∈ graph.operators.keys := by
    intro edge he
    obtain ⟨whole, hw, rfl⟩ := mem_map.mp he
    exact SortedMap.mem_keys_iff.mpr (Option.isSome_iff_exists.mp (h whole hw).1)
  have hsize : graph.operators.size = graph.operators.keys.length := by
    simp [SortedMap.keys, SortedMap.size]
  rw [← Kahn.length_order_eq_iff hs (targets_exist h) graph.operators.keys_nodup, ← hsize,
    validateAcyclic]
  split_ifs with hl
  · simp [hl]
  · simp [not_not.mp hl]

theorem validate_ok_iff : graph.validate = .ok () ↔
    graph.operators.isEmpty = false ∧ graph.edges.Nodup ∧
      (∀ edge ∈ graph.edges, EndsExist graph.operators edge) ∧ Kahn.Acyclic (ends graph.edges) := by
  have he := foldlM_validateEdge_ok_iff graph.operators graph.edges []
  unfold validate
  split_ifs with hempty
  · simp [hempty]
  · simp only [Result.bind_eq_ok, hempty, true_and]
    constructor
    · rintro ⟨seen, hs, ha⟩
      obtain ⟨hn, -, hall⟩ := he.mp ⟨seen, hs⟩
      exact ⟨hn, hall, (validateAcyclic_ok_iff hall).mp ha⟩
    · rintro ⟨hn, hall, ha⟩
      obtain ⟨seen, hs⟩ := he.mpr ⟨hn, by simp, hall⟩
      exact ⟨seen, hs, (validateAcyclic_ok_iff hall).mpr ha⟩

theorem validate_connected (h : graph.validate = .ok ()) : ∃ rank, Connected graph rank := by
  obtain ⟨-, -, hall, ha⟩ := validate_ok_iff.mp h
  have hl : (Kahn.order graph.operators.keys (ends graph.edges)).length = graph.operators.size := by
    have hv := (validateAcyclic_ok_iff hall).mpr ha
    unfold validateAcyclic at hv
    split_ifs at hv with hne
    exact not_not.mp hne
  have hk : graph.operators.keys.length ≤
      (Kahn.order graph.operators.keys (ends graph.edges)).length := by
    rw [hl]
    simp [SortedMap.keys, SortedMap.size]
  refine ⟨(Kahn.order graph.operators.keys (ends graph.edges)).idxOf,
    fun edge he => (hall edge he).2, ?_, ?_⟩
  · intro edge he
    exact (Kahn.order_ranks (targets_exist hall) hk _ (mem_map_of_mem he)).1
  · intro n
    rw [← hl]
    exact idxOf_le_length

end Validation

theorem SameShape.connected {graph later : NativeOperatorGraph} (h : SameShape graph later)
    (hg : Connected graph rank) : Connected later rank where
  accepted := by
    intro edge he
    rw [h.edges] at he
    obtain ⟨consumer, hc, hport⟩ := hg.accepted edge he
    obtain ⟨moved, hm, hr⟩ := h.find hc
    exact ⟨moved, hm, by rwa [NativeOperator.inputPorts_of_reset hr]⟩
  ranked := by
    intro edge he
    rw [h.edges] at he
    exact hg.ranked edge he
  bounded := by
    intro n
    rw [h.size]
    exact hg.bounded n

variable {graph : NativeOperatorGraph}

theorem deliveries_succ (h : Connected graph rank) {depth : ℕ}
    {n : String} (hd : graph.operators.size ≤ rank n + depth) :
    deliveries graph.edges (depth + 1) n = deliveries graph.edges depth n := by
  induction depth generalizing n with
  | zero =>
    have hn : graph.edges.filter (fun edge => edge.fromNodeId = n) = [] := by
      rw [filter_eq_nil_iff]
      intro edge he hf
      have hf : edge.fromNodeId = n := by simpa using hf
      have hr := h.ranked edge he
      have hb := h.bounded edge.toNodeId
      rw [hf] at hr
      omega
    rw [deliveries, deliveries, hn]
    rfl
  | succ depth ih =>
    rw [deliveries, deliveries]
    congr 2
    apply map_congr_left
    intro edge he
    obtain ⟨hm, hf⟩ := mem_filter.mp he
    have hf : edge.fromNodeId = n := by simpa using hf
    have hr := h.ranked edge hm
    rw [hf] at hr
    exact ih (by omega)

theorem deliveries_size (h : Connected graph rank) (n : String) :
    deliveries graph.edges graph.operators.size n = 1 + ((graph.outgoing n).map fun edge =>
        deliveries graph.edges graph.operators.size edge.toNodeId).sum := by
  rw [← deliveries_succ h (by omega), deliveries]
  rfl

theorem SameShape.deliveryBudget {graph later : NativeOperatorGraph} (h : SameShape graph later)
    (queue : List NativeOperatorInputV1) :
    later.deliveryBudget queue = graph.deliveryBudget queue := by
  unfold NativeOperatorGraph.deliveryBudget
  rw [h.edges, h.size]

theorem deliveryBudget_append (graph : NativeOperatorGraph)
    (left right : List NativeOperatorInputV1) :
    graph.deliveryBudget (left ++ right) =
      graph.deliveryBudget left + graph.deliveryBudget right := by
  simp [deliveryBudget]

/-- Every delivery that succeeds uses up one. -/
theorem deliver_budget (h : Connected graph rank)
    {i : NativeOperatorInputV1} {queue : List NativeOperatorInputV1}
    {sinks : SortedMap String DeltaBatch} {next : EpochState}
    (hd : deliver ⟨graph, queue, sinks⟩ i = .ok next) :
    next.graph.deliveryBudget next.queue + 1 ≤ graph.deliveryBudget (i :: queue) := by
  have hs := (deliver_ok_later hd).toSameShape
  rw [hs.deliveryBudget]
  have hc : graph.deliveryBudget (i :: queue) =
      deliveries graph.edges graph.operators.size i.nodeId + graph.deliveryBudget queue := by
    simp [deliveryBudget]
  rw [hc, deliveries_size h]
  obtain ⟨op, o, -, -, -, rfl⟩ := deliver_ok hd
  simp only [emit]
  split_ifs with hsink
  · simp only
    omega
  · have hp (edges : List NativeOperatorEdgeV1) : graph.deliveryBudget
          (edges.map fun edge => ⟨edge.toNodeId, edge.toPortId, o⟩) =
        (edges.map fun edge => deliveries graph.edges graph.operators.size edge.toNodeId).sum := by
      simp [deliveryBudget, Function.comp_def]
    rw [deliveryBudget_append, hp]
    have : NativeOperatorGraph.outgoing
        (graph.setOperator (op.apply i.portId i.batch).1) i.nodeId =
        graph.outgoing i.nodeId := rfl
    rw [this]
    omega

/-- The loop ends within the deliveries that its queue leads to. -/
theorem drain_isSome {fuel : ℕ} {s : EpochState} (h : Connected s.graph rank)
    (hf : s.graph.deliveryBudget s.queue ≤ fuel) : (drain fuel s).isSome := by
  induction fuel generalizing s with
  | zero =>
    obtain ⟨graph, queue, sinks⟩ := s
    cases queue with
    | nil => simp [drain]
    | cons i queue =>
      have hc : graph.deliveryBudget (i :: queue) =
          deliveries graph.edges graph.operators.size i.nodeId + graph.deliveryBudget queue := by
        simp [deliveryBudget]
      have ho := deliveries_size h i.nodeId
      simp only at hf ho
      omega
  | succ fuel ih =>
    obtain ⟨graph, queue, sinks⟩ := s
    cases queue with
    | nil => simp [drain]
    | cons i queue =>
      rw [drain]
      rcases hd : deliver ⟨graph, queue, sinks⟩ i with error | next
      · rfl
      · have hb := deliver_budget h hd
        have hs := (deliver_ok_later hd).toSameShape
        apply ih (hs.connected h)
        apply Nat.le_of_lt_succ
        exact hb.trans hf

theorem drain_start (h : graph.validate = .ok ()) (ins : List NativeOperatorInputV1) :
    ∃ result, drain (graph.deliveryBudget (sortInputs ins)) ⟨graph, sortInputs ins, ∅⟩ =
      some result := by
  obtain ⟨rank, hr⟩ := validate_connected h
  exact Option.isSome_iff_exists.mp (drain_isSome hr le_rfl)

/-- Validation accepts the graphs with operators, without duplicate edges, with existing ends
and without cycles. On these the visits of validation never stop short, and the queue of an
epoch is emptied unless a delivery fails. -/
theorem validate_accepts (graph : NativeOperatorGraph) :
    (graph.validate = .ok () ↔ graph.operators.isEmpty = false ∧ graph.edges.Nodup ∧
      (∀ edge ∈ graph.edges, EndsExist graph.operators edge) ∧ Kahn.Acyclic (ends graph.edges)) ∧
    (graph.validate = .ok () → Kahn.order? graph.operators.keys (ends graph.edges) =
        some (Kahn.order graph.operators.keys (ends graph.edges)) ∧
      ∀ inputs, ∃ steps result reached, drain steps ⟨graph, sortInputs inputs, ∅⟩ = some result ∧
          Relation.ReflTransGen LoopStep ⟨graph, sortInputs inputs, ∅⟩ reached ∧
          (result = .ok reached ∧ reached.queue = [] ∨
            ∃ input queue failed, reached.queue = input :: queue ∧
              deliver { reached with queue } input = .error failed ∧ result = .error failed)) := by
  refine ⟨validate_ok_iff, fun hvalid => ⟨?_, fun inputs => ?_⟩⟩
  · exact Kahn.order?_eq (targets_exist (validate_ok_iff.mp hvalid).2.2.1)
  · obtain ⟨result, hresult⟩ := drain_start hvalid inputs
    obtain ⟨reached, hreach, -, hend⟩ := drain_reaches hresult
    exact ⟨_, result, reached, hresult, hreach, hend⟩

end Velorix.Native.NativeOperatorGraph
