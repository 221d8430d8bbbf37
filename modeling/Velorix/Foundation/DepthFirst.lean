import Mathlib.Data.Finset.Card

/-! Depth-first search that lists a node after everything it points to, and stops at a node that
it is still inside of. It stops exactly when there is a cycle. -/
namespace DepthFirst

open Finset

variable {K : Type} [DecidableEq K]

structure Walk (K : Type) where
  visited : Finset K
  onStack : Finset K
  order : List K

inductive Stop
  | cycle
  /-- The depth was not enough. -/
  | depth

/-- Visits a node, and first what it points to, to a depth that is left. -/
def visit (next : K → List K) : ℕ → Walk K → K → Except Stop (Walk K)
  | 0, _, _ => .error .depth
  | depth + 1, walk, node =>
    if node ∈ walk.onStack then .error .cycle
    else if node ∈ walk.visited then .ok walk
    else do
      let later ← (next node).foldlM (visit next depth)
        ⟨insert node walk.visited, insert node walk.onStack, walk.order⟩
      return ⟨later.visited, later.onStack.erase node, later.order ++ [node]⟩

def Cyclic (next : K → List K) : Prop := ∃ a, Relation.TransGen (fun a b => b ∈ next a) a a

/-- What has been left is listed, each node after what it points to. -/
structure Sound (next : K → List K) (nodes : Finset K) (walk : Walk K) : Prop where
  within : walk.visited ⊆ nodes
  stacked : walk.onStack ⊆ walk.visited
  listed : ∀ a, a ∈ walk.order ↔ a ∈ walk.visited ∧ a ∉ walk.onStack
  nodup : walk.order.Nodup
  after : ∀ l a r, walk.order = l ++ a :: r → next a ⊆ l

/-- A later walk, with the same nodes on the stack, that lists the given ones. -/
structure Lists (next : K → List K) (nodes : Finset K) (walk : Walk K) (l : List K)
    (later : Walk K) : Prop where
  sound : Sound next nodes later
  stack : later.onStack = walk.onStack
  visited : walk.visited ⊆ later.visited
  listed : ∀ a ∈ l, a ∈ later.order

def Outcome (next : K → List K) (nodes : Finset K) (walk : Walk K) (l : List K) :
    Except Stop (Walk K) → Prop
  | .ok later => Lists next nodes walk l later
  | .error stop => stop = .cycle ∧ Cyclic next

variable {next : K → List K} {nodes : Finset K} {w : Walk K} {a b : K} {l : List K}

omit [DecidableEq K] in
theorem sound_empty : Sound next nodes ⟨∅, ∅, []⟩ :=
  ⟨by simp, by simp, by simp, by simp, by simp⟩

theorem Sound.enter (h : Sound next nodes w) (ha : a ∈ nodes) (hnew : a ∉ w.visited) :
    Sound next nodes ⟨insert a w.visited, insert a w.onStack, w.order⟩ where
  within := insert_subset ha h.within
  stacked := insert_subset_insert a h.stacked
  listed b := by
    rw [h.listed]
    by_cases hb : b = a
    · simp [hb, hnew]
    · simp [hb]
  nodup := h.nodup
  after := h.after

theorem Sound.leave (h : Sound next nodes w) (ha : a ∈ w.onStack) (hn : next a ⊆ w.order) :
    Sound next nodes ⟨w.visited, w.onStack.erase a, w.order ++ [a]⟩ where
  within := h.within
  stacked := (erase_subset a w.onStack).trans h.stacked
  listed b := by
    rw [List.mem_append, h.listed, List.mem_singleton, mem_erase]
    by_cases hb : b = a
    · simp [hb, h.stacked ha]
    · simp [hb]
  nodup := by
    have hnew : a ∉ w.order := fun hm => ((h.listed a).mp hm).2 ha
    simpa [List.nodup_append] using ⟨h.nodup, fun b hb hba => hnew (hba ▸ hb)⟩
  after l b r hs := by
    rcases List.eq_nil_or_concat r with rfl | ⟨r, c, rfl⟩
    · obtain ⟨rfl, hb⟩ := List.append_inj' hs rfl
      cases hb
      exact hn
    · have hs : w.order ++ [a] = (l ++ b :: r) ++ [c] := by simpa using hs
      exact h.after l b r (List.append_inj' hs rfl).1

omit [DecidableEq K] in
theorem Outcome.bind {w₀ : Walk K} {l₀ : List K} {x : Except Stop (Walk K)}
    {f : Walk K → Except Stop (Walk K)} (hx : Outcome next nodes w₀ l₀ x)
    (hf : ∀ later, Lists next nodes w₀ l₀ later → Outcome next nodes w l (f later)) :
    Outcome next nodes w l (x >>= f) := by
  cases x with
  | error stop => exact hx
  | ok later => exact hf later hx

omit [DecidableEq K] in
theorem foldlM_outcome {step : Walk K → K → Except Stop (Walk K)} (start : Walk K)
    (hs : ∀ w, ∀ a ∈ l, Sound next nodes w → w.onStack = start.onStack →
      start.visited ⊆ w.visited → Outcome next nodes w [a] (step w a))
    (hstart : Sound next nodes start) : Outcome next nodes start l (l.foldlM step start) := by
  induction l using List.reverseRecOn with
  | nil => exact ⟨hstart, rfl, Finset.Subset.refl _, by simp⟩
  | append_singleton l a ih =>
    rw [List.foldlM_append]
    refine (ih fun w b hb => hs w b (List.mem_append_left _ hb)).bind fun w hw => ?_
    rw [List.foldlM_cons]
    refine (hs w a (by simp) hw.sound hw.stack hw.visited).bind fun later hl => ?_
    refine ⟨hl.sound, hl.stack.trans hw.stack, hw.visited.trans hl.visited, ?_⟩
    intro b hb
    rcases List.mem_append.mp hb with hb | hb
    · obtain ⟨hv, hleft⟩ := (hw.sound.listed b).mp (hw.listed b hb)
      exact (hl.sound.listed b).mpr ⟨hl.visited hv, hl.stack ▸ hleft⟩
    · exact hl.listed b hb

/-- A visit lists its node, unless there is a cycle: every node on the stack leads to it. -/
theorem visit_outcome (hn : ∀ a ∈ nodes, ∀ b ∈ next a, b ∈ nodes) {depth : ℕ}
    (hd : (nodes \ w.visited).card < depth) (hw : Sound next nodes w) (ha : a ∈ nodes)
    (hs : ∀ b ∈ w.onStack, Relation.TransGen (fun a b => b ∈ next a) b a) :
    Outcome next nodes w [a] (visit next depth w a) := by
  induction depth generalizing w a with
  | zero => omega
  | succ depth ih =>
    rw [visit]
    split_ifs with hon hv
    · exact ⟨rfl, a, hs a hon⟩
    · exact ⟨hw, rfl, Finset.Subset.refl _, by simpa using (hw.listed a).mpr ⟨hv, hon⟩⟩
    refine (foldlM_outcome _ ?_ (hw.enter ha hv)).bind fun later hl => ?_
    · -- inside, the node counts as visited, and it leads to what it points to
      intro inner b hb hi hsame hg
      refine ih ?_ hi (hn a ha b hb) ?_
      · have hless : nodes \ inner.visited ⊂ nodes \ w.visited := by
          refine ssubset_iff_of_subset ?_ |>.mpr ⟨a, ?_, ?_⟩
          · exact sdiff_subset_sdiff (Finset.Subset.refl _)
              ((subset_insert a _).trans hg)
          · exact mem_sdiff.mpr ⟨ha, hv⟩
          · exact fun h => (mem_sdiff.mp h).2 (hg (mem_insert_self a _))
        have := card_lt_card hless
        omega
      · intro c hc
        rcases mem_insert.mp (hsame ▸ hc) with rfl | hc
        · exact .single hb
        · exact (hs c hc).tail hb
    · have hon' : a ∈ later.onStack := hl.stack ▸ mem_insert_self a _
      refine ⟨hl.sound.leave hon' hl.listed, ?_,
        (subset_insert a _).trans hl.visited, by simp⟩
      show later.onStack.erase a = w.onStack
      rw [hl.stack, erase_insert hon]

theorem run_outcome (hn : ∀ a ∈ nodes, ∀ b ∈ next a, b ∈ nodes) {depth : ℕ}
    (hd : nodes.card < depth) (hl : ∀ a ∈ l, a ∈ nodes) :
    Outcome next nodes ⟨∅, ∅, []⟩ l (l.foldlM (visit next depth) ⟨∅, ∅, []⟩) := by
  refine foldlM_outcome _ (fun w a ha hw hs _ => ?_) sound_empty
  refine visit_outcome hn ?_ hw (hl a ha) (by simp [hs])
  exact (card_le_card sdiff_subset).trans_lt hd

theorem Sound.before (h : Sound next nodes w) (ha : a ∈ w.order) (hb : b ∈ next a) :
    b ∈ w.order ∧ w.order.idxOf b < w.order.idxOf a := by
  obtain ⟨l, r, hs⟩ := List.append_of_mem ha
  have hbl := h.after l a r hs hb
  have hal : a ∉ l := by
    have := hs ▸ h.nodup
    intro hm
    exact (List.nodup_append.mp this).2.2 a hm a List.mem_cons_self rfl
  rw [hs, List.idxOf_append_of_mem hbl, List.idxOf_append_of_notMem hal, List.idxOf_cons_self]
  exact ⟨List.mem_append_left _ hbl, by simpa using List.idxOf_lt_length_of_mem hbl⟩

theorem Sound.acyclic (h : Sound next nodes w) (ha : ∀ a, next a ≠ [] → a ∈ w.order) :
    ¬ Cyclic next := by
  rintro ⟨a, hc⟩
  have hl {a b : K} (hp : Relation.TransGen (fun a b => b ∈ next a) a b) :
      w.order.idxOf b < w.order.idxOf a := by
    induction hp with
    | single hb => exact (h.before (ha _ (List.ne_nil_of_mem hb)) hb).2
    | tail _ hb ih => exact (h.before (ha _ (List.ne_nil_of_mem hb)) hb).2.trans ih
  exact lt_irrefl _ (hl hc)

end DepthFirst
