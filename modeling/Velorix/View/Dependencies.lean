import Velorix.Foundation.DepthFirst
import Velorix.Native.Graph

/-! The dependency edges between views, from a consumer to a producer, and the order that puts
every producer before its consumers. -/
namespace Velorix.View

open Native Result List

inductive ViewContractError
  | missingField (field : String)
  | invalidField (field : String)
  deriving DecidableEq

structure ViewDependencyEdgeV1 where
  schemaVersion : UInt32
  edgeId : String
  tenantId : String
  consumerProgramId : String
  consumerViewId : String
  consumerGeneration : UInt64
  inputRelationId : String
  inputRelationVersion : String
  producerProgramId : String
  producerViewId : String
  producerPlanHash : String
  outputStreamId : String
  outputSchemaHash : String
  keyDescriptorHash : String
  deltaCodecIdentity : String
  frontierKind : String
  deriving DecidableEq

def requireNonEmpty (field value : String) : Except ViewContractError Unit :=
  if BlankText.isBlank value then .error (.missingField field) else .ok ()

def validateViewDependencyEdge (edge : ViewDependencyEdgeV1) : Except ViewContractError Unit := do
  if edge.schemaVersion ≠ 1 ∨ edge.consumerGeneration = 0 then
    .error (.invalidField "dependency_edge")
  requireNonEmpty "dependency_edge.edge_id" edge.edgeId
  requireNonEmpty "dependency_edge.tenant_id" edge.tenantId
  requireNonEmpty "dependency_edge.consumer_program_id" edge.consumerProgramId
  requireNonEmpty "dependency_edge.consumer_view_id" edge.consumerViewId
  requireNonEmpty "dependency_edge.input_relation_id" edge.inputRelationId
  requireNonEmpty "dependency_edge.input_relation_version" edge.inputRelationVersion
  requireNonEmpty "dependency_edge.producer_program_id" edge.producerProgramId
  requireNonEmpty "dependency_edge.producer_view_id" edge.producerViewId
  requireNonEmpty "dependency_edge.producer_plan_hash" edge.producerPlanHash
  requireNonEmpty "dependency_edge.output_stream_id" edge.outputStreamId
  requireNonEmpty "dependency_edge.output_schema_hash" edge.outputSchemaHash
  requireNonEmpty "dependency_edge.key_descriptor_hash" edge.keyDescriptorHash
  requireNonEmpty "dependency_edge.delta_codec_identity" edge.deltaCodecIdentity
  requireNonEmpty "dependency_edge.frontier_kind" edge.frontierKind
  if edge.producerViewId = edge.consumerViewId ∧
      edge.producerProgramId = edge.consumerProgramId then
    .error (.invalidField "dependency_edge.self_cycle")

/-- The entry of `edges_by_consumer`: the producers of a view, in the order of its edges. -/
def producersOf (edges : List ViewDependencyEdgeV1) (viewId : String) : List String :=
  (edges.filter fun edge => edge.consumerViewId = viewId).map (·.producerViewId)

def mentioned (edges : List ViewDependencyEdgeV1) : List String :=
  edges.map (·.consumerViewId) ++ edges.map (·.producerViewId)

/-- The view ids that the search starts from. Once sorted, equal ids stand together, so that
`Vec::dedup` leaves each id once. -/
def searchStack (edges : List ViewDependencyEdgeV1) : List String :=
  ((mentioned edges).insertionSort (· ≤ ·)).dedup

/-- The search of the views. No path without a repeated view is longer than the views there are,
so that the depth is never what stops it. -/
def searchGraph (edges : List ViewDependencyEdgeV1) :
    Except DepthFirst.Stop (DepthFirst.Walk String) :=
  (searchStack edges).foldlM
    (DepthFirst.visit (producersOf edges) ((searchStack edges).length + 1)) ⟨∅, ∅, []⟩

def validateViewDependencyGraph (edges : List ViewDependencyEdgeV1) :
    Except ViewContractError (List String) := do
  edges.forM validateViewDependencyEdge
  match searchGraph edges with
  | .ok walk => .ok walk.order
  | .error _ => .error (.invalidField "dependency_cycle")

/-- The graph of the view ids, from consumers to producers. -/
def links (edges : List ViewDependencyEdgeV1) : List (String × String) :=
  edges.map fun edge => (edge.consumerViewId, edge.producerViewId)

variable {edges edges' : List ViewDependencyEdgeV1} {order : List String} {id id' : String}

theorem mem_producersOf : id' ∈ producersOf edges id ↔
    ∃ edge ∈ edges, edge.consumerViewId = id ∧ edge.producerViewId = id' := by
  simp [producersOf, and_assoc]

theorem mem_mentioned : id ∈ mentioned edges ↔
    ∃ edge ∈ edges, edge.consumerViewId = id ∨ edge.producerViewId = id := by
  simp only [mentioned, mem_append, mem_map, ← exists_or, ← and_or_left]

theorem mem_searchStack : id ∈ searchStack edges ↔ id ∈ mentioned edges := by
  rw [searchStack, mem_dedup, mem_insertionSort]

theorem cyclic_producersOf_iff : DepthFirst.Cyclic (producersOf edges) ↔
    ¬ Kahn.Acyclic (links edges) := by
  have hs : (fun id id' => id' ∈ producersOf edges id) = fun id id' => (id, id') ∈ links edges := by
    funext id id'
    simp [mem_producersOf, links]
  simp only [DepthFirst.Cyclic, Kahn.Acyclic, hs, not_forall, not_not]

theorem search_outcome (edges : List ViewDependencyEdgeV1) :
    DepthFirst.Outcome (producersOf edges) (searchStack edges).toFinset ⟨∅, ∅, []⟩
      (searchStack edges) (searchGraph edges) := by
  refine DepthFirst.run_outcome ?_ ?_ fun id hid => mem_toFinset.mpr hid
  · intro id _ id' hid'
    obtain ⟨edge, he, -, rfl⟩ := mem_producersOf.mp hid'
    rw [mem_toFinset, mem_searchStack, mem_mentioned]
    exact ⟨edge, he, .inr rfl⟩
  · exact Nat.lt_succ_of_le (toFinset_card_le _)

theorem validateViewDependencyGraph_ok_iff : validateViewDependencyGraph edges = .ok order ↔
    (∀ edge ∈ edges, validateViewDependencyEdge edge = .ok ()) ∧
      ∃ walk, searchGraph edges = .ok walk ∧ walk.order = order := by
  rw [validateViewDependencyGraph, bind_eq_ok]
  constructor
  · rintro ⟨⟨⟩, hv, h⟩
    refine ⟨fun edge => of_forM_ok hv, ?_⟩
    split at h
    · exact ⟨_, ‹_›, by injection h⟩
    · cases h
  · rintro ⟨hv, walk, hw, rfl⟩
    exact ⟨(), forM_ok hv, by simp only [hw]⟩

theorem search_congr (h : ∀ id, edges'.filter (·.consumerViewId = id) =
    edges.filter (·.consumerViewId = id)) :
    searchGraph edges' = searchGraph edges ∧ ∀ edge, edge ∈ edges' ↔ edge ∈ edges := by
  have hp : edges'.Perm edges := by
    rw [perm_iff_count]
    intro edge
    have hc (l : List ViewDependencyEdgeV1) :
        (l.filter (·.consumerViewId = edge.consumerViewId)).count edge = l.count edge :=
      count_filter (by simp)
    rw [← hc, h, hc]
  have hi := (hp.map (·.consumerViewId)).append (hp.map (·.producerViewId))
  have hproducers : producersOf edges' = producersOf edges :=
    funext fun id => congrArg (List.map _) (h id)
  have hs : searchStack edges' = searchStack edges := by
    refine congrArg List.dedup (List.Perm.eq_of_pairwise (fun _ _ _ _ => le_antisymm)
      (pairwise_insertionSort _ _) (pairwise_insertionSort _ _) ?_)
    exact (perm_insertionSort _ _).trans (hi.trans (perm_insertionSort _ _).symm)
  exact ⟨by rw [searchGraph, searchGraph, hproducers, hs], fun edge => hp.mem_iff⟩

/-- A list of edges is accepted exactly if its edges are valid and have no cycle. The order then
holds every view once, each producer before its consumers, and only the order of the edges of one
consumer matters to it. -/
theorem validateViewDependencyGraph_topological (edges : List ViewDependencyEdgeV1) :
    ((∃ order, validateViewDependencyGraph edges = .ok order) ↔
      (∀ edge ∈ edges, validateViewDependencyEdge edge = .ok ()) ∧ Kahn.Acyclic (links edges)) ∧
    (∀ order, validateViewDependencyGraph edges = .ok order → order.Nodup ∧
      (∀ id, id ∈ order ↔ ∃ edge ∈ edges, edge.consumerViewId = id ∨ edge.producerViewId = id) ∧
      ∀ edge ∈ edges, order.idxOf edge.producerViewId < order.idxOf edge.consumerViewId) ∧
    (∀ edges' : List ViewDependencyEdgeV1, (∀ id, edges'.filter (·.consumerViewId = id) =
        edges.filter (·.consumerViewId = id)) → (validateViewDependencyGraph edges').toOption =
          (validateViewDependencyGraph edges).toOption ∧
        ((∀ edge ∈ edges, validateViewDependencyEdge edge = .ok ()) →
          validateViewDependencyGraph edges' = validateViewDependencyGraph edges)) := by
  have hsearch := search_outcome edges
  refine ⟨⟨?_, ?_⟩, ?_, ?_⟩
  · rintro ⟨order, h⟩
    obtain ⟨hvalid, walk, hwalk, rfl⟩ := validateViewDependencyGraph_ok_iff.mp h
    rw [hwalk] at hsearch
    refine ⟨hvalid, not_not.mp (mt cyclic_producersOf_iff.mpr (hsearch.sound.acyclic ?_))⟩
    intro id hne
    obtain ⟨id', hid'⟩ := exists_mem_of_ne_nil _ hne
    obtain ⟨edge, hedge, rfl, -⟩ := mem_producersOf.mp hid'
    exact hsearch.listed _ (mem_searchStack.mpr (mem_mentioned.mpr ⟨edge, hedge, .inl rfl⟩))
  · rintro ⟨hvalid, hacyclic⟩
    cases hfold : searchGraph edges with
    | error stop =>
      rw [hfold] at hsearch
      exact absurd hacyclic (cyclic_producersOf_iff.mp hsearch.2)
    | ok walk => exact ⟨_, validateViewDependencyGraph_ok_iff.mpr ⟨hvalid, walk, hfold, rfl⟩⟩
  · intro order h
    obtain ⟨-, walk, hwalk, rfl⟩ := validateViewDependencyGraph_ok_iff.mp h
    rw [hwalk] at hsearch
    have hlisted (id : String) : id ∈ walk.order ↔ id ∈ mentioned edges := by
      rw [← mem_searchStack]
      refine ⟨fun hid => ?_, hsearch.listed id⟩
      exact mem_toFinset.mp (hsearch.sound.within ((hsearch.sound.listed id).mp hid).1)
    refine ⟨hsearch.sound.nodup, fun id => (hlisted id).trans mem_mentioned, fun edge hedge => ?_⟩
    refine (hsearch.sound.before ((hlisted _).mpr (mem_mentioned.mpr ⟨edge, hedge, .inl rfl⟩))
      (mem_producersOf.mpr ⟨edge, hedge, rfl, rfl⟩)).2
  · intro edges' h
    obtain ⟨hsame, hmem⟩ := search_congr h
    refine ⟨Option.ext fun order => ?_, fun hvalid => ?_⟩
    · simp only [toOption_eq_some, validateViewDependencyGraph_ok_iff, hsame, hmem]
    · rw [validateViewDependencyGraph, validateViewDependencyGraph, forM_ok hvalid,
        forM_ok fun edge hedge => hvalid edge ((hmem edge).mp hedge), hsame]

end Velorix.View
