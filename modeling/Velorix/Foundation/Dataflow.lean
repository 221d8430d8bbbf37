import Mathlib.Algebra.BigOperators.Group.List.Basic
import Mathlib.Tactic.Abel

/-! Acyclic networks of functions over a commutative group. A network can be evaluated once,
or incrementally: changes are delivered one at a time, each operator emits the difference of
its results, and what it emits is delivered along its edges. Once nothing is pending, what
each operator has emitted is the result of evaluating the network once. -/
namespace Dataflow

open Function List

variable {N P G : Type*} [DecidableEq N] [DecidableEq P] [AddCommGroup G]

/-- An edge leads from a node to a port of another; every node computes a value from the
values at its ports. -/
structure Network (N P G : Type*) where
  edges : List (N × N × P)
  operator : N → (P → G) → G

/-- The part of a list of addressed values that goes to one port of one node. -/
def arriving (items : List ((N × P) × G)) (n : N) (p : P) : G :=
  ((items.filter fun item => item.1 = (n, p)).map Prod.snd).sum

@[simp]
theorem arriving_nil (n : N) (p : P) : arriving ([] : List ((N × P) × G)) n p = 0 := rfl

@[simp]
theorem arriving_cons (item : (N × P) × G) (xs : List ((N × P) × G)) (n : N) (p : P) :
    arriving (item :: xs) n p = (if item.1 = (n, p) then item.2 else 0) + arriving xs n p := by
  unfold arriving
  by_cases h : item.1 = (n, p) <;> simp [h]

@[simp]
theorem arriving_append (left right : List ((N × P) × G)) (n : N) (p : P) :
    arriving (left ++ right) n p = arriving left n p + arriving right n p := by
  simp [arriving]

theorem arriving_perm {left right : List ((N × P) × G)} (h : left.Perm right) (n : N) (p : P) :
    arriving left n p = arriving right n p :=
  ((h.filter _).map _).sum_eq

namespace Network

/-- What flows into a port when every node has the given value. -/
def inflow (net : Network N P G) (value : N → G) (n : N) (p : P) : G :=
  arriving (net.edges.map fun edge => (edge.2, value edge.1)) n p

@[simp]
theorem inflow_zero (net : Network N P G) (n : N) (p : P) : net.inflow 0 n p = 0 := by
  unfold inflow arriving
  induction net.edges with
  | nil => rfl
  | cons edge edges ih =>
    by_cases h : edge.2 = (n, p) <;> simpa [h] using ih

theorem inflow_congr {net : Network N P G} {value other : N → G} {n : N}
    (h : ∀ edge ∈ net.edges, edge.2.1 = n → value edge.1 = other edge.1) (p : P) :
    net.inflow value n p = net.inflow other n p := by
  unfold inflow arriving
  congr 1
  rw [filter_map, filter_map, map_map, map_map]
  apply map_congr_left
  intro edge he
  obtain ⟨hm, hto⟩ := mem_filter.mp he
  have hto : edge.2 = (n, p) := by simpa using hto
  exact h edge hm (by rw [hto])

def sendings (net : Network N P G) (n : N) (value : G) : List ((N × P) × G) :=
  (net.edges.filter fun edge => edge.1 = n).map fun edge => (edge.2, value)

theorem inflow_update (net : Network N P G) (value : N → G) (m : N) (c : G) (n : N) (p : P) :
    net.inflow (Function.update value m (value m + c)) n p =
      net.inflow value n p + arriving (net.sendings m c) n p := by
  unfold inflow sendings
  induction net.edges with
  | nil => simp
  | cons edge edges ih =>
    rw [map_cons, map_cons, arriving_cons, arriving_cons, ih, filter_cons]
    by_cases hf : edge.1 = m
    · by_cases hto : edge.2 = (n, p)
      · simp only [hto, hf, update_self, decide_true, if_true, map_cons,
          arriving_cons]
        abel
      · simp only [hto, hf, decide_true, if_true, if_false, map_cons, arriving_cons]
        abel
    · simp only [hf, update_of_ne hf, decide_false, Bool.false_eq_true, if_false,
        add_assoc]

/-- The values a network has on given external inputs. -/
def IsSolution (net : Network N P G) (external : N → P → G) (value : N → G) : Prop :=
  ∀ n, value n = net.operator n fun p => external n p + net.inflow value n p

/-- Evaluation once, following at most `depth` edges backwards. -/
def evaluate (net : Network N P G) (external : N → P → G) : ℕ → N → G
  | 0, n => net.operator n (external n)
  | depth + 1, n => net.operator n fun p =>
      external n p + net.inflow (evaluate net external depth) n p

/-- A rank that grows along every edge: the network is acyclic. -/
def Ranked (net : Network N P G) (rank : N → ℕ) : Prop :=
  ∀ edge ∈ net.edges, rank edge.1 < rank edge.2.1

variable {net : Network N P G} {rank : N → ℕ} {x : N → P → G}

theorem evaluate_succ (hr : net.Ranked rank) {depth : ℕ} {n : N} (hd : rank n ≤ depth) :
    net.evaluate x (depth + 1) n = net.evaluate x depth n := by
  induction depth generalizing n with
  | zero =>
    -- nothing leads to a node of rank zero
    rw [evaluate, evaluate]
    congr 1
    funext p
    have hn : net.inflow (net.evaluate x 0) n p = net.inflow 0 n p := by
      apply inflow_congr
      intro edge he hto
      have := hr edge he
      rw [hto] at this
      omega
    rw [hn, inflow_zero, add_zero]
  | succ depth ih =>
    rw [evaluate, evaluate]
    congr 1
    funext p
    congr 1
    apply inflow_congr
    intro edge he hto
    apply ih
    have := hr edge he
    rw [hto] at this
    omega

theorem evaluate_isSolution (hr : net.Ranked rank) {depth : ℕ} (hd : ∀ n, rank n ≤ depth) :
    net.IsSolution x (net.evaluate x depth) := by
  intro n
  rw [← evaluate_succ hr (hd n), evaluate]

theorem IsSolution.unique (hr : net.Ranked rank) {value other : N → G}
    (hv : net.IsSolution x value) (ho : net.IsSolution x other) : value = other := by
  funext n
  induction hn : rank n using Nat.strong_induction_on generalizing n with
  | _ r ih =>
    subst hn
    rw [hv n, ho n]
    congr 1
    funext p
    congr 1
    apply inflow_congr
    intro edge he hto
    apply ih _ _ _ rfl
    rw [← hto]
    exact hr edge he

/-- What has been delivered to every port, what is still pending and what every node has
emitted, in an incremental evaluation of the external inputs so far. -/
structure Progress (net : Network N P G) (external : N → P → G) (delivered : N → P → G)
    (pending : List ((N × P) × G)) (emitted : N → G) : Prop where
  computed : ∀ n, emitted n = net.operator n (delivered n)
  balance : ∀ n p, delivered n p + arriving pending n p = external n p + net.inflow emitted n p

/-- Adds a change to what a port has received. -/
def received (delivered : N → P → G) (n : N) (p : P) (change : G) : N → P → G :=
  Function.update delivered n (Function.update (delivered n) p (delivered n p + change))

theorem received_apply (delivered : N → P → G) (n : N) (p : P) (c : G) (m : N) (q : P) :
    received delivered n p c m q = (if (n, p) = (m, q) then c else 0) + delivered m q := by
  unfold received
  by_cases hm : m = n
  · subst hm
    by_cases hq : q = p
    · subst hq
      simp [add_comm]
    · simp [hq, Ne.symm hq]
  · simp [hm, Ne.symm hm]

namespace Progress

variable {delivered : N → P → G} {pending : List ((N × P) × G)} {emitted : N → G}

theorem start (hz : ∀ n, net.operator n 0 = 0) : net.Progress 0 0 [] 0 where
  computed := by
    intro n
    exact (hz n).symm
  balance := by
    intro n p
    simp

theorem add_inputs (h : net.Progress x delivered [] emitted) (ins : List ((N × P) × G)) :
    net.Progress (fun n p => x n p + arriving ins n p) delivered ins emitted where
  computed := h.computed
  balance := by
    intro n p
    have hb := h.balance n p
    rw [arriving_nil, add_zero] at hb
    rw [hb]
    abel

theorem perm (h : net.Progress x delivered pending emitted)
    {others : List ((N × P) × G)} (hp : others.Perm pending) :
    net.Progress x delivered others emitted where
  computed := h.computed
  balance := by
    intro n p
    rw [arriving_perm hp]
    exact h.balance n p

theorem deliver {n : N} {p : P} {c : G}
    (h : net.Progress x delivered (((n, p), c) :: pending) emitted) {o : G}
    (ho : o = net.operator n (received delivered n p c n) -
      net.operator n (delivered n)) :
    net.Progress x (received delivered n p c) (pending ++ net.sendings n o)
      (Function.update emitted n (emitted n + o)) where
  computed := by
    intro m
    by_cases hm : m = n
    · subst hm
      rw [update_self, ho, h.computed]
      abel
    · rw [update_of_ne hm, h.computed, received, update_of_ne hm]
  balance := by
    intro m q
    have hb := h.balance m q
    rw [arriving_cons] at hb
    rw [received_apply, arriving_append, inflow_update, ← add_assoc (x m q), ← hb]
    abel

theorem emitted_eq_evaluate (h : net.Progress x delivered [] emitted)
    (hr : net.Ranked rank) {depth : ℕ} (hd : ∀ n, rank n ≤ depth) :
    emitted = net.evaluate x depth := by
  have hs : net.IsSolution x emitted := by
    intro n
    rw [h.computed n]
    congr 1
    funext p
    have hb := h.balance n p
    rwa [arriving_nil, add_zero] at hb
  exact hs.unique hr (evaluate_isSolution hr hd)

end Progress
end Network
end Dataflow
