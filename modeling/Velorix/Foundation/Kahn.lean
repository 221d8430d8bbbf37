import Velorix.Foundation.SortedMap

/-! Kahn's algorithm on a list of edges: repeatedly take a node without unvisited
predecessors. It visits every node exactly when there is no cycle, and then the order of the
visits is topological. -/
namespace Kahn

open List SortedMap

variable {K : Type} [LinearOrder K]

/-- The degrees and the queue of nodes without unvisited predecessors. -/
structure Frontier (K : Type) [LinearOrder K] where
  indegree : SortedMap K ℕ
  ready : List K

def degree (indegree : SortedMap K ℕ) (node : K) : ℕ := (indegree.find? node).getD 0

def settleEdge (frontier : Frontier K) (edge : K × K) : Frontier K :=
  let left := degree frontier.indegree edge.2 - 1
  ⟨frontier.indegree.insert edge.2 left,
    if left = 0 then frontier.ready ++ [edge.2] else frontier.ready⟩

def visit (edges : List (K × K)) (node : K) (frontier : Frontier K) : Frontier K :=
  (edges.filter fun edge => edge.1 = node).foldl settleEdge frontier

/-- The nodes in the order of their visits. Each node becomes ready at most once, so that
as many rounds as there are nodes are enough. -/
def visits (edges : List (K × K)) : ℕ → Frontier K → List K
  | 0, _ => []
  | rounds + 1, frontier =>
    match frontier.ready with
    | [] => []
    | node :: ready => node :: visits edges rounds (visit edges node { frontier with ready })

def countIndegree (indegree : SortedMap K ℕ) (edge : K × K) : SortedMap K ℕ :=
  indegree.insert edge.2 (degree indegree edge.2 + 1)

def start (nodes : List K) (edges : List (K × K)) : Frontier K :=
  let indegree := edges.foldl countIndegree (SortedMap.ofList (nodes.map fun node => (node, 0)))
  ⟨indegree, (indegree.entries.filter fun e => e.2 = 0).map Prod.fst⟩

/-- The order in which the nodes of a graph are visited. -/
def order (nodes : List K) (edges : List (K × K)) : List K :=
  visits edges nodes.length (start nodes edges)

/-! The same with every step checked: `none` where a node has no degree, where a degree is
zero before it is lowered, and where the rounds are not enough. -/

def settleEdge? (frontier : Frontier K) (edge : K × K) : Option (Frontier K) :=
  match frontier.indegree.find? edge.2 with
  | some (left + 1) => some ⟨frontier.indegree.insert edge.2 left,
      if left = 0 then frontier.ready ++ [edge.2] else frontier.ready⟩
  | _ => none

def visits? (edges : List (K × K)) : ℕ → Frontier K → Option (List K)
  | 0, frontier => if frontier.ready.isEmpty then some [] else none
  | rounds + 1, frontier =>
    match frontier.ready with
    | [] => some []
    | node :: ready => do
      let next ← (edges.filter fun edge => edge.1 = node).foldlM settleEdge?
        { frontier with ready }
      return node :: (← visits? edges rounds next)

def countIndegree? (indegree : SortedMap K ℕ) (edge : K × K) : Option (SortedMap K ℕ) :=
  (indegree.find? edge.2).map fun n => indegree.insert edge.2 (n + 1)

def order? (nodes : List K) (edges : List (K × K)) : Option (List K) := do
  let indegree ← edges.foldlM countIndegree? (SortedMap.ofList (nodes.map fun node => (node, 0)))
  visits? edges nodes.length ⟨indegree, (indegree.entries.filter fun e => e.2 = 0).map Prod.fst⟩

/-- No node reaches itself along the edges. -/
def Acyclic (edges : List (K × K)) : Prop :=
  ∀ node, ¬ Relation.TransGen (fun a b => (a, b) ∈ edges) node node

section Degrees

@[simp]
theorem degree_insert (indegree : SortedMap K ℕ) (node other : K) (n : ℕ) :
    degree (indegree.insert node n) other = if node = other then n else degree indegree other := by
  unfold degree
  rw [find?_insert]
  split_ifs <;> rfl

/-- The number of edges into a node whose source is not visited yet. -/
def pending (edges : List (K × K)) (visited : List K) (node : K) : ℕ :=
  edges.countP fun edge => decide (edge.2 = node ∧ edge.1 ∉ visited)

theorem pending_eq_zero {edges : List (K × K)} {visited : List K} {node : K} :
    pending edges visited node = 0 ↔ ∀ edge ∈ edges, edge.2 = node → edge.1 ∈ visited := by
  simp [pending, countP_eq_zero]

private theorem countP_eq_add {α : Type} {p q r : α → Bool} {xs : List α}
    (h : ∀ a, (p a).toNat = (q a).toNat + (r a).toNat) :
    xs.countP p = xs.countP q + xs.countP r := by
  have hif (b : Bool) : (if b = true then 1 else 0) = b.toNat := by cases b <;> rfl
  induction xs with
  | nil => rfl
  | cons a rest ih =>
    rw [countP_cons, countP_cons, countP_cons, hif, hif, hif, ih, h a]
    omega

theorem pending_append {edges : List (K × K)} {visited : List K} {node : K}
    (hnew : node ∉ visited) (other : K) :
    pending edges visited other = pending edges (visited ++ [node]) other +
      (edges.filter fun edge => edge.1 = node).countP fun edge => decide (edge.2 = other) := by
  rw [countP_filter]
  refine countP_eq_add fun edge => ?_
  by_cases htgt : edge.2 = other
  · by_cases hs : edge.1 = node
    · simp [htgt, hs, hnew]
    · by_cases hv : edge.1 ∈ visited <;> simp [htgt, hs, hv]
  · simp [htgt]

theorem settleEdge_ready (f : Frontier K) (edge : K × K) :
    (settleEdge f edge).ready = if degree f.indegree edge.2 - 1 = 0 then
      f.ready ++ [edge.2] else f.ready := rfl

theorem degree_settleEdge (f : Frontier K) (edge : K × K) (node : K) :
    degree (settleEdge f edge).indegree node = if edge.2 = node then
      degree f.indegree edge.2 - 1 else degree f.indegree node :=
  degree_insert ..

theorem degree_foldl_countIndegree (edges : List (K × K)) (indegree : SortedMap K ℕ) (node : K) :
    degree (edges.foldl countIndegree indegree) node =
      degree indegree node + edges.countP fun edge => decide (edge.2 = node) := by
  induction edges generalizing indegree with
  | nil => rfl
  | cons edge rest ih =>
    rw [foldl_cons, ih, countIndegree, degree_insert, countP_cons]
    by_cases h : edge.2 = node
    · simp [h]
      omega
    · simp [h]

end Degrees

section Invariant
variable {nodes visited taken : List K} {edges rest : List (K × K)} {edge : K × K} {left : K → ℕ}
  {f : Frontier K}

structure Invariant (nodes : List K) (edges : List (K × K)) (visited : List K)
    (frontier : Frontier K) : Prop where
  nodup : (visited ++ frontier.ready).Nodup
  degrees : ∀ node, degree frontier.indegree node = pending edges visited node
  settled : ∀ node ∈ visited ++ frontier.ready, pending edges visited node = 0
  known : ∀ node ∈ visited ++ frontier.ready, node ∈ nodes
  complete : ∀ node ∈ nodes, pending edges visited node = 0 → node ∈ visited ++ frontier.ready
  ordered : ∀ edge ∈ edges, edge.2 ∈ visited → visited.idxOf edge.1 < visited.idxOf edge.2

/-- What holds while the edges of a visited node are settled: `rest` is still to come. -/
structure Settling (nodes taken : List K) (left : K → ℕ) (rest : List (K × K))
    (frontier : Frontier K) : Prop where
  degrees : ∀ node, degree frontier.indegree node =
    left node + rest.countP fun edge => decide (edge.2 = node)
  nodup : (taken ++ frontier.ready).Nodup
  settled : ∀ node ∈ frontier.ready, degree frontier.indegree node = 0
  known : ∀ node ∈ frontier.ready, node ∈ nodes
  complete : ∀ node ∈ nodes, degree frontier.indegree node = 0 → node ∈ taken ++ frontier.ready

theorem Settling.degree_pos (h : Settling nodes taken left (edge :: rest) f) :
    degree f.indegree edge.2 =
      left edge.2 + (rest.countP (fun e => decide (e.2 = edge.2)) + 1) := by
  rw [h.degrees, countP_cons]
  simp

theorem Settling.step (h : Settling nodes taken left (edge :: rest) f)
    (hf : edge.2 ∉ taken) (hk : edge.2 ∈ nodes) :
    Settling nodes taken left rest (settleEdge f edge) := by
  have hd := h.degree_pos
  have hl (node : K) : degree (settleEdge f edge).indegree node =
      left node + rest.countP fun e => decide (e.2 = node) := by
    rw [degree_settleEdge]
    split_ifs with heq
    · rw [← heq, hd]
      omega
    · rw [h.degrees, countP_cons]
      simp [heq]
  have hnr : edge.2 ∉ f.ready := by
    intro hr
    have := h.settled _ hr
    omega
  refine ⟨hl, ?_, fun node hnode => ?_, fun node hnode => ?_, fun node hnode hz => ?_⟩
  · rw [settleEdge_ready]
    split_ifs
    · rw [← append_assoc, nodup_append]
      refine ⟨h.nodup, by simp, ?_⟩
      intro a ha b hb hab
      rw [mem_singleton] at hb
      rw [hab, hb] at ha
      rcases mem_append.mp ha with ha | ha
      · exact hf ha
      · exact hnr ha
    · exact h.nodup
  · rw [settleEdge_ready] at hnode
    rw [degree_settleEdge]
    by_cases heq : edge.2 = node
    · rw [if_pos heq]
      split_ifs at hnode with hz
      · exact hz
      · exact absurd (heq ▸ hnode) hnr
    · rw [if_neg heq]
      apply h.settled node
      split_ifs at hnode
      · rcases mem_append.mp hnode with hnode | hnode
        · exact hnode
        · exact absurd (mem_singleton.mp hnode).symm heq
      · exact hnode
  · rw [settleEdge_ready] at hnode
    split_ifs at hnode
    · rcases mem_append.mp hnode with hnode | hnode
      · exact h.known node hnode
      · rw [mem_singleton.mp hnode]
        exact hk
    · exact h.known node hnode
  · rw [degree_settleEdge] at hz
    rw [settleEdge_ready]
    split_ifs at hz with heq
    · rw [if_pos hz, ← heq]
      simp
    · have hm := h.complete node hnode hz
      split_ifs
      · rw [← append_assoc]
        exact mem_append_left _ hm
      · exact hm

theorem Settling.run (h : Settling nodes taken left rest f)
    (hf : ∀ edge ∈ rest, edge.2 ∉ taken) (hk : ∀ edge ∈ rest, edge.2 ∈ nodes) :
    Settling nodes taken left [] (rest.foldl settleEdge f) := by
  induction rest generalizing f with
  | nil => exact h
  | cons edge rest ih =>
    rw [foldl_cons]
    apply ih
    · exact h.step (hf edge (mem_cons_self ..)) (hk edge (mem_cons_self ..))
    · exact fun e he => hf e (mem_cons_of_mem _ he)
    · exact fun e he => hk e (mem_cons_of_mem _ he)

theorem Invariant.subperm (h : Invariant nodes edges visited f) : visited.Subperm nodes :=
  subperm_of_subset (nodup_append.mp h.nodup).1 fun node hnode =>
    h.known node (mem_append_left _ hnode)

theorem settleEdge?_eq (h : 0 < degree f.indegree edge.2) :
    settleEdge? f edge = some (settleEdge f edge) := by
  unfold settleEdge? settleEdge
  unfold degree at h ⊢
  generalize f.indegree.find? edge.2 = found at h ⊢
  rcases found with _ | _ | left
  · cases h
  · cases h
  · rfl

theorem Settling.run_checked (h : Settling nodes taken left rest f)
    (hf : ∀ edge ∈ rest, edge.2 ∉ taken) (hk : ∀ edge ∈ rest, edge.2 ∈ nodes) :
    rest.foldlM settleEdge? f = some (rest.foldl settleEdge f) := by
  induction rest generalizing f with
  | nil => rfl
  | cons edge rest ih =>
    have hp := h.degree_pos
    rw [foldlM_cons, settleEdge?_eq (by omega), foldl_cons]
    apply ih
    · exact h.step (hf edge (mem_cons_self ..)) (hk edge (mem_cons_self ..))
    · exact fun e he => hf e (mem_cons_of_mem _ he)
    · exact fun e he => hk e (mem_cons_of_mem _ he)

section Visit
variable {ready : List K} {node : K} {indegree : SortedMap K ℕ}

section
variable (h : Invariant nodes edges visited ⟨indegree, node :: ready⟩)
include h

theorem Invariant.sources {other : K} (ho : other ∈ visited ++ node :: ready) :
    ∀ edge ∈ edges, edge.2 = other → edge.1 ∈ visited :=
  pending_eq_zero.mp (h.settled other ho)

theorem Invariant.fresh :
    ∀ edge ∈ edges.filter fun edge => edge.1 = node, edge.2 ∉ visited ++ [node] := by
  intro edge he hv
  obtain ⟨he, hf⟩ := mem_filter.mp he
  have hm : edge.2 ∈ visited ++ node :: ready := by
    rw [append_cons]
    exact mem_append_left _ hv
  have hs := h.sources hm edge he rfl
  rw [of_decide_eq_true hf] at hs
  exact (nodup_append.mp h.nodup).2.2 _ hs _ (mem_cons_self ..) rfl

theorem Invariant.settling : Settling nodes (visited ++ [node]) (pending edges (visited ++ [node]))
      (edges.filter fun edge => edge.1 = node) ⟨indegree, ready⟩ := by
  have hn : (visited ++ [node] ++ ready).Nodup := by simpa using h.nodup
  have hnew : node ∉ visited := by
    intro hm
    exact (nodup_append.mp h.nodup).2.2 _ hm _ (mem_cons_self ..) rfl
  refine ⟨fun other => ?_, hn, fun other ho => ?_, fun other ho => ?_, fun other ho hz => ?_⟩
  · rw [← pending_append hnew]
    exact h.degrees other
  · rw [h.degrees other]
    exact h.settled other (by simp [ho])
  · exact h.known other (by simp [ho])
  · rw [h.degrees other] at hz
    simpa using h.complete other ho hz

/-- A visit keeps the invariant. -/
theorem Invariant.visit (ht : ∀ edge ∈ edges, edge.2 ∈ nodes) :
    Invariant nodes edges (visited ++ [node]) (visit edges node ⟨indegree, ready⟩) := by
  have htaken {other : K} (ho : other ∈ visited ++ [node]) : other ∈ visited ++ node :: ready := by
    rw [append_cons]
    exact mem_append_left _ ho
  have hdone := h.settling.run h.fresh fun edge he => ht edge (mem_filter.mp he).1
  have hd (other : K) : degree (Kahn.visit edges node ⟨indegree, ready⟩).indegree other =
      pending edges (visited ++ [node]) other := by
    rw [Kahn.visit, hdone.degrees]
    rfl
  refine ⟨hdone.nodup, hd, fun other ho => ?_, fun other ho => ?_,
    fun other ho hz => ?_, fun edge he hv => ?_⟩
  · rcases mem_append.mp ho with ho | ho
    · rw [pending_eq_zero]
      intro edge he htgt
      exact mem_append_left _ (h.sources (htaken ho) edge he htgt)
    · rw [← hd]
      exact hdone.settled other ho
  · rcases mem_append.mp ho with ho | ho
    · exact h.known other (htaken ho)
    · exact hdone.known other ho
  · rw [← hd] at hz
    exact hdone.complete other ho hz
  · have hs : edge.1 ∈ visited := h.sources (htaken hv) edge he rfl
    rw [idxOf_append_of_mem hs]
    by_cases htgt : edge.2 ∈ visited
    · rw [idxOf_append_of_mem htgt]
      exact h.ordered edge he htgt
    · rw [idxOf_append_of_notMem htgt]
      exact Nat.lt_add_right _ (idxOf_lt_length_iff.mpr hs)

end

end Visit

theorem Invariant.ready_eq_nil (h : Invariant nodes edges visited f)
    (hall : nodes.length ≤ visited.length) : f.ready = [] := by
  have hle := (subperm_of_subset h.nodup h.known).length_le
  rw [length_append] at hle
  exact eq_nil_of_length_eq_zero (by omega)

theorem visits_ordered (rounds : ℕ) (h : Invariant nodes edges visited f)
    (ht : ∀ edge ∈ edges, edge.2 ∈ nodes) :
    ∃ f', Invariant nodes edges (visited ++ visits edges rounds f) f' ∧
      (nodes.length ≤ visited.length + rounds → f'.ready = []) := by
  induction rounds generalizing visited f with
  | zero => exact ⟨f, by simpa [visits] using h, h.ready_eq_nil⟩
  | succ rounds ih =>
    obtain ⟨indegree, ready⟩ := f
    cases ready with
    | nil => exact ⟨⟨indegree, []⟩, by simpa [visits] using h, fun _ => rfl⟩
    | cons node ready =>
      obtain ⟨f', hf, hr⟩ := ih (h.visit ht)
      refine ⟨f', by simpa [visits] using hf, fun hall => hr ?_⟩
      rw [length_append, length_singleton]
      omega

theorem visits?_eq {rounds : ℕ} (h : Invariant nodes edges visited f)
    (ht : ∀ edge ∈ edges, edge.2 ∈ nodes) (hall : nodes.length ≤ visited.length + rounds) :
    visits? edges rounds f = some (visits edges rounds f) := by
  induction rounds generalizing visited f with
  | zero =>
    rw [visits?, h.ready_eq_nil hall]
    rfl
  | succ rounds ih =>
    obtain ⟨indegree, ready⟩ := f
    cases ready with
    | nil => rfl
    | cons node ready =>
      have hr := h.settling.run_checked h.fresh fun edge he =>
        ht edge (mem_filter.mp he).1
      simp only [visits?, visits, hr, Option.bind_eq_bind, Option.bind_some]
      rw [← Kahn.visit, ih (h.visit ht)]
      · rfl
      · rw [length_append, length_singleton]
        omega

private theorem degree_zeros (l : List K) (m : SortedMap K ℕ) (node : K) (h : degree m node = 0) :
    degree ((l.map fun node => (node, 0)).foldl (fun m e => m.insert e.1 e.2) m) node = 0 := by
  induction l generalizing m with
  | nil => exact h
  | cons a l ih =>
    apply ih
    rw [degree_insert]
    split_ifs
    · rfl
    · exact h

private theorem isSome_foldl {α : Type} (key : α → K) (count : SortedMap K ℕ → α → ℕ)
    (xs : List α) (m : SortedMap K ℕ) (node : K) :
    ((xs.foldl (fun m a => m.insert (key a) (count m a)) m).find? node).isSome ↔
      (∃ a ∈ xs, key a = node) ∨ (m.find? node).isSome := by
  induction xs generalizing m with
  | nil => simp
  | cons a xs ih =>
    rw [foldl_cons, ih, find?_insert]
    split_ifs with heq
    · simp [heq]
    · simp [heq]

private theorem isSome_zeros (nodes : List K) (node : K) :
    ((SortedMap.ofList (nodes.map fun node => (node, 0))).find? node).isSome ↔ node ∈ nodes := by
  refine (isSome_foldl Prod.fst (fun _ e => e.2) _ ∅ node).trans ?_
  simp

theorem isSome_start (ht : ∀ edge ∈ edges, edge.2 ∈ nodes) (node : K) :
    ((start nodes edges).indegree.find? node).isSome ↔ node ∈ nodes := by
  refine (isSome_foldl Prod.snd _ edges _ node).trans ?_
  rw [isSome_zeros]
  constructor
  · rintro (⟨edge, he, rfl⟩ | hnode)
    · exact ht edge he
    · exact hnode
  · exact Or.inr

private theorem foldlM_countIndegree? {m : SortedMap K ℕ} {edges : List (K × K)}
    (h : ∀ edge ∈ edges, (m.find? edge.2).isSome) :
    edges.foldlM countIndegree? m = some (edges.foldl countIndegree m) := by
  induction edges generalizing m with
  | nil => rfl
  | cons edge rest ih =>
    obtain ⟨n, hn⟩ := Option.isSome_iff_exists.mp (h edge mem_cons_self)
    have hc : countIndegree? m edge = some (countIndegree m edge) := by
      simp [countIndegree?, countIndegree, degree, hn]
    rw [foldlM_cons, hc, foldl_cons]
    apply ih
    intro other ho
    rw [countIndegree, find?_insert]
    split_ifs
    · rfl
    · exact h other (mem_cons_of_mem _ ho)

theorem start_invariant (ht : ∀ edge ∈ edges, edge.2 ∈ nodes) :
    Invariant nodes edges [] (start nodes edges) := by
  have hd (node : K) : degree (start nodes edges).indegree node = pending edges [] node := by
    have hf := degree_foldl_countIndegree edges
      (SortedMap.ofList (nodes.map fun node => (node, 0))) node
    rw [start, hf, SortedMap.ofList, degree_zeros _ _ _ rfl, zero_add]
    simp [pending]
  have hr {node : K} (h : node ∈ (start nodes edges).ready) :
      (start nodes edges).indegree.find? node = some 0 := by
    obtain ⟨e, he, rfl⟩ := mem_map.mp h
    obtain ⟨hentry, hz⟩ := mem_filter.mp he
    have hfind : (start nodes edges).indegree.find? e.1 = some e.2 :=
      mem_entries_iff.mp hentry
    rw [hfind, of_decide_eq_true hz]
  refine ⟨?_, hd, fun node hnode => ?_, fun node hnode => ?_, fun node hnode hz => ?_, by simp⟩
  · exact ((filter_sublist).map _).nodup (start nodes edges).indegree.keys_nodup
  · rw [← hd, degree, hr hnode]
    rfl
  · rw [← isSome_start ht, hr hnode]
    rfl
  · obtain ⟨n, hn⟩ := Option.isSome_iff_exists.mp ((isSome_start ht node).mpr hnode)
    rw [← hd, degree, hn, Option.getD_some] at hz
    rw [hz] at hn
    exact mem_map.mpr ⟨(node, 0), mem_filter.mpr
      ⟨mem_entries_iff.mpr hn, decide_eq_true rfl⟩, rfl⟩

theorem order?_eq (ht : ∀ edge ∈ edges, edge.2 ∈ nodes) :
    order? nodes edges = some (order nodes edges) := by
  have hs := foldlM_countIndegree? (m := SortedMap.ofList (nodes.map fun node => (node, 0)))
    fun edge he => (isSome_zeros nodes edge.2).mpr (ht edge he)
  rw [order?, hs]
  exact visits?_eq (start_invariant ht) ht (by simp)

theorem order_ranks (ht : ∀ edge ∈ edges, edge.2 ∈ nodes)
    (hall : nodes.length ≤ (order nodes edges).length) :
    ∀ edge ∈ edges, (order nodes edges).idxOf edge.1 < (order nodes edges).idxOf edge.2 ∧
      edge.2 ∈ order nodes edges := by
  obtain ⟨f, h, -⟩ := visits_ordered nodes.length (start_invariant ht) ht
  rw [nil_append] at h
  have hp : (order nodes edges).Perm nodes := h.subperm.perm_of_length_le hall
  intro edge he
  have htgt : edge.2 ∈ order nodes edges := hp.mem_iff.mpr (ht edge he)
  exact ⟨h.ordered edge he htgt, htgt⟩

/-- Every node is visited exactly when there is no cycle. -/
theorem length_order_eq_iff (hs : ∀ edge ∈ edges, edge.1 ∈ nodes)
    (ht : ∀ edge ∈ edges, edge.2 ∈ nodes) (hn : nodes.Nodup) :
    (order nodes edges).length = nodes.length ↔ Acyclic edges := by
  constructor
  · intro hall node hc
    have hrank {a b : K} (hp : Relation.TransGen (fun a b => (a, b) ∈ edges) a b) :
        (order nodes edges).idxOf a < (order nodes edges).idxOf b := by
      induction hp with
      | single he => exact (order_ranks ht hall.ge _ he).1
      | tail _ he ih => exact ih.trans (order_ranks ht hall.ge _ he).1
    exact lt_irrefl _ (hrank hc)
  · intro ha
    obtain ⟨f, h, hr⟩ :=
      visits_ordered nodes.length (start_invariant ht) ht
    rw [nil_append] at h
    have hstrict : IsStrictOrder K (Relation.TransGen fun a b => (a, b) ∈ edges) :=
      { irrefl := ha, trans := fun _ _ _ => Relation.TransGen.trans }
    have hf : {node | node ∈ nodes}.WellFoundedOn
        (Relation.TransGen fun a b => (a, b) ∈ edges) := nodes.finite_toSet.wellFoundedOn
    -- by induction along the edges: once its sources are visited, a node has been ready
    have hv : nodes ⊆ order nodes edges := by
      intro node hnode
      refine hf.induction hnode fun other ho ih => ?_
      have hz : pending edges (order nodes edges) other = 0 := by
        rw [pending_eq_zero]
        rintro edge he rfl
        exact ih edge.1 (hs edge he) (.single he)
      have hm := h.complete other ho hz
      rwa [hr (by simp), append_nil] at hm
    exact le_antisymm h.subperm.length_le (subperm_of_subset hn hv).length_le

end Invariant
end Kahn
