import Velorix.Foundation.Derivation
import Velorix.View.RecursiveFixpoint

/-! The closure of a recursive view: the rows that anchors and joins derive, however the base rows
are ordered, and the limits that stop its computation. -/
namespace Velorix.View.RecursiveFixpointRuntime

open Json Derivation Result List

variable {plan : RecursiveFixpointPlan} {base : BaseRows} {d : Derived} {S : Set Value}

abbrev BaseRow := Kept (SortedMap String Value)

def anchors (plan : RecursiveFixpointPlan) (base : BaseRows) : Set Value :=
  {v | ∃ row ∈ base.values, anchorRow plan row.content = .ok (some v)}

/-- Joined with a base row, a derived row gives another one. -/
def Joins (plan : RecursiveFixpointPlan) (base : BaseRows) (a b : Value) : Prop :=
  ∃ row ∈ base.values, recursiveCandidate plan a row.content = .ok (some b)

abbrev rowsWithin (plan : RecursiveFixpointPlan) (base : BaseRows) (n : ℕ) : Set Value :=
  within (anchors plan base) (Joins plan base) n

abbrev derivedRows (plan : RecursiveFixpointPlan) (base : BaseRows) : Set Value :=
  derivable (anchors plan base) (Joins plan base)

structure Evaluates (plan : RecursiveFixpointPlan) (base : BaseRows) : Prop where
  anchor : ∀ row ∈ base.values, ∃ v, anchorRow plan row.content = .ok v
  join : ∀ a ∈ derivedRows plan base, ∀ row ∈ base.values,
    ∃ v, recursiveCandidate plan a row.content = .ok v

/-- Every derived row is compared once with every base row. -/
noncomputable def comparisons (plan : RecursiveFixpointPlan) (base : BaseRows) : ℕ∞ :=
  (derivedRows plan base).encard * base.size

def ExceedsContract (plan : RecursiveFixpointPlan) (base : BaseRows) : Prop :=
  plan.maxDerivedRows.toNat < (anchors plan base).encard ∨
  plan.maxDerivedRows.toNat < (derivedRows plan base).encard ∨
  (∃ v ∈ derivedRows plan base, v ∉ rowsWithin plan base (plan.maxIterations.toNat - 1)) ∨
  plan.maxWorkUnitsPerEpoch.toNat < comparisons plan base

/-- The counter of comparisons fails before its limit. -/
def CounterFails (plan : RecursiveFixpointPlan) (base : BaseRows) : Prop :=
  plan.maxWorkUnitsPerEpoch.toNat = 2 ^ 64 - 1 ∧ (2 ^ 64 : ℕ) ≤ comparisons plan base

section Errors
variable {α β : Type}

/-- The result is not refused for its resources. -/
def Uncontracted (result : Except RuntimeError α) : Prop := result ≠ .error contractError

theorem Uncontracted.bind {p : Except RuntimeError α} {f : α → Except RuntimeError β}
    (h : Uncontracted p) (hf : ∀ a, Uncontracted (f a)) : Uncontracted (p >>= f) := by
  cases p with
  | error e => exact fun he => h (congrArg Except.error (Except.error.inj he))
  | ok a => exact hf a

theorem uncontracted_ok (a : α) : Uncontracted (.ok a) := nofun

theorem uncontracted_orMissing (value : Option α) : Uncontracted (orMissing value) := by
  cases value <;> simp [Uncontracted, orMissing, invalidRuntimeState, contractError]

theorem uncontracted_mapM {f : α → Except RuntimeError β} (h : ∀ a, Uncontracted (f a))
    (l : List α) : Uncontracted (l.mapM f) := by
  induction l with
  | nil => exact uncontracted_ok []
  | cons a l ih =>
    rw [mapM_cons]
    exact (h a).bind fun b => ih.bind fun _ => uncontracted_ok _

theorem uncontracted_predicateMatches (values : SortedMap String Value)
    (predicate : RecursiveBasePredicate) : Uncontracted (predicateMatches values predicate) := by
  have hcompare {γ : Type} [LinearOrder γ] (actual expected : γ) :
      Uncontracted (comparePredicate predicate.op actual expected) := by
    cases predicate.op <;> simp [Uncontracted, comparePredicate, invalidPredicate, contractError]
  refine (uncontracted_orMissing _).bind fun value => ?_
  split
  · exact (uncontracted_orMissing _).bind fun _ => (uncontracted_orMissing _).bind fun _ =>
      hcompare _ _
  · exact hcompare _ _
  · simp [Uncontracted, invalidPredicate, contractError]

theorem uncontracted_predicatesMatch (values : SortedMap String Value)
    (predicates : List RecursiveBasePredicate) :
    Uncontracted (recursiveBasePredicatesMatch values predicates) := by
  induction predicates with
  | nil => exact uncontracted_ok true
  | cons predicate rest ih =>
    refine (uncontracted_predicateMatches values predicate).bind fun holds => ?_
    split_ifs
    · exact ih
    · exact uncontracted_ok false

theorem uncontracted_anchorRow (values : SortedMap String Value) :
    Uncontracted (anchorRow plan values) := by
  refine (uncontracted_predicatesMatch values _).bind fun holds => ?_
  split_ifs
  · exact uncontracted_ok none
  · exact (uncontracted_mapM (fun _ => uncontracted_orMissing _) _).bind fun _ => uncontracted_ok _

theorem uncontracted_recursiveCandidate (derived : Value) (values : SortedMap String Value) :
    Uncontracted (recursiveCandidate plan derived values) := by
  refine (uncontracted_predicatesMatch values _).bind fun holds => ?_
  split_ifs
  · exact uncontracted_ok none
  refine (uncontracted_orMissing _).bind fun fields => (uncontracted_orMissing _).bind fun _ =>
    (uncontracted_orMissing _).bind fun _ => ?_
  split_ifs
  · exact uncontracted_ok none
  · refine (uncontracted_mapM (fun column => ?_) _).bind fun _ => uncontracted_ok _
    cases column <;> exact uncontracted_orMissing _

end Errors

/-- A map holds the rows of a set under their texts. -/
def Represents (d : Derived) (S : Set Value) : Prop :=
  ∀ key v, d.find? key = some v ↔ key = canonicalJson v ∧ v ∈ S

theorem Represents.insert (h : Represents d S) (v : Value) :
    Represents (d.insert (canonicalJson v) v) (insert v S) := by
  intro key w
  rw [SortedMap.find?_insert, Set.mem_insert_iff]
  split_ifs with hk
  · constructor
    · intro he
      cases he
      exact ⟨hk.symm, .inl rfl⟩
    · rintro ⟨rfl, -⟩
      rw [canonicalJson_injective hk]
  · rw [h key w]
    refine and_congr_right fun hw => (or_iff_right ?_).symm
    rintro rfl
    exact hk hw.symm

theorem Represents.mem_values (h : Represents d S) {v : Value} : v ∈ d.values ↔ v ∈ S := by
  rw [SortedMap.mem_values_iff]
  constructor
  · rintro ⟨key, hkey⟩
    exact ((h key v).mp hkey).2
  · intro hv
    exact ⟨_, (h _ v).mpr ⟨rfl, hv⟩⟩

theorem Represents.keys_eq (h : Represents d S) : d.keys = d.values.map canonicalJson := by
  rw [SortedMap.values, SortedMap.keys, map_map]
  exact map_congr_left fun e he => ((h e.1 e.2).mp (SortedMap.mem_entries_iff.mp he)).1

theorem Represents.encard (h : Represents d S) : S.encard = d.size := by
  have hn : d.values.Nodup := List.Nodup.of_map _ (h.keys_eq ▸ d.keys_nodup)
  rw [show S = {v | v ∈ d.values} from Set.ext fun v => h.mem_values.symm, encard_list hn,
    SortedMap.values, length_map, SortedMap.size]

theorem Represents.unique {d' : Derived} (h : Represents d S) (h' : Represents d' S) : d = d' := by
  refine SortedMap.ext fun key => Option.ext fun v => ?_
  rw [h key v, h' key v]

/-- What a round has done after it met some pairs. -/
structure RoundSpec (plan : RecursiveFixpointPlan) (d : Derived) (w : ℕ)
    (met : List (Value × BaseRow)) (round : Round) : Prop where
  work : round.workUnits = w + met.length
  fits : round.workUnits ≤ plan.maxWorkUnitsPerEpoch.toNat
  evaluated : ∀ p ∈ met, ∃ v, recursiveCandidate plan p.1 p.2.content = .ok v
  keyed : ∀ e ∈ round.newFrontier, e.1 = canonicalJson e.2
  nodup : (round.newFrontier.map (·.2)).Nodup
  rows : ∀ v, v ∈ round.newFrontier.map (·.2) ↔ d.find? (canonicalJson v) = none ∧
    ∃ p ∈ met, recursiveCandidate plan p.1 p.2.content = .ok (some v)

section Round

variable {a : Value} {row : BaseRow} {w : ℕ} {round round' : Round}
  {met : List (Value × BaseRow)}

theorem RoundSpec.meetBase (h : RoundSpec plan d w met round) (hpos : 0 < row.weight.val)
    (hok : meetBase plan d a round row = .ok round') :
    RoundSpec plan d w (met ++ [(a, row)]) round' := by
  unfold RecursiveFixpointRuntime.meetBase at hok
  rw [if_neg hpos.not_ge] at hok
  split_ifs at hok with h64 hmax
  obtain ⟨v, hv, hok⟩ := bind_eq_ok.mp hok
  have hw : round.workUnits + 1 = w + (met ++ [(a, row)]).length := by
    rw [h.work, length_append, length_singleton, add_assoc]
  have he : ∀ p ∈ met ++ [(a, row)], ∃ v, recursiveCandidate plan p.1 p.2.content = .ok v := by
    rw [forall_mem_append, forall_mem_singleton]
    exact ⟨h.evaluated, v, hv⟩
  -- the rows that the pairs give: those of the earlier pairs, and the candidate
  have hc (b : Value) : (∃ p ∈ met ++ [(a, row)],
      recursiveCandidate plan p.1 p.2.content = .ok (some b)) ↔
      (∃ p ∈ met, recursiveCandidate plan p.1 p.2.content = .ok (some b)) ∨ v = some b := by
    simp only [mem_append, mem_singleton, or_and_right, exists_or, exists_eq_left, hv,
      Except.ok.injEq]
  cases v with
  | none =>
    cases hok
    refine ⟨hw, not_lt.mp hmax, he, h.keyed, h.nodup, fun b => ?_⟩
    rw [hc, h.rows, or_iff_left (by simp)]
  | some c =>
    dsimp only at hok
    split_ifs at hok with hnew
    · cases hok
      rw [Bool.and_eq_true, Option.isNone_iff_eq_none, all_eq_true] at hnew
      have hn : c ∉ round.newFrontier.map (·.2) := by
        intro hmem
        obtain ⟨e, hm, rfl⟩ := mem_map.mp hmem
        exact of_decide_eq_true (hnew.2 e hm) (h.keyed e hm)
      refine ⟨hw, not_lt.mp hmax, he, ?_, ?_, fun b => ?_⟩
      · rw [forall_mem_append, forall_mem_singleton]
        exact ⟨h.keyed, rfl⟩
      · rw [map_append]
        exact h.nodup.append (nodup_singleton c) (disjoint_singleton.mpr hn)
      · rw [hc, map_append, mem_append, h.rows, and_or_left]
        refine or_congr_right ?_
        simp only [map_cons, map_nil, mem_singleton, Option.some.injEq]
        constructor
        · rintro rfl
          exact ⟨hnew.1, rfl⟩
        · rintro ⟨-, rfl⟩
          rfl
    · cases hok
      refine ⟨hw, not_lt.mp hmax, he, h.keyed, h.nodup, fun b => ?_⟩
      rw [hc, and_or_left, ← h.rows]
      refine (or_iff_left_of_imp ?_).symm
      rintro ⟨hnone, he⟩
      cases he
      -- a candidate that is not new, and not derived, is on the frontier already
      by_contra hmem
      refine hnew (Bool.and_eq_true _ _ ▸ ⟨Option.isNone_iff_eq_none.mpr hnone, ?_⟩)
      rw [all_eq_true]
      refine fun e hm => decide_eq_true fun hkey => hmem (mem_map.mpr ⟨e, hm, ?_⟩)
      exact canonicalJson_injective ((h.keyed e hm).symm.trans hkey)

theorem meetBase_error {e : RuntimeError} (hpos : 0 < row.weight.val)
    (hfits : round.workUnits ≤ plan.maxWorkUnitsPerEpoch.toNat)
    (h : RecursiveFixpointRuntime.meetBase plan d a round row = .error e) :
    (e = contractError ∧ plan.maxWorkUnitsPerEpoch.toNat < round.workUnits + 1) ∨
      e ≠ contractError ∧
        ((plan.maxWorkUnitsPerEpoch.toNat = 2 ^ 64 - 1 ∧ 2 ^ 64 ≤ round.workUnits + 1) ∨
          ¬ ∃ v, recursiveCandidate plan a row.content = .ok v) := by
  unfold RecursiveFixpointRuntime.meetBase at h
  rw [if_neg hpos.not_ge] at h
  split_ifs at h with h64 hmax
  · have := plan.maxWorkUnitsPerEpoch.toNat_lt
    cases h
    exact .inr ⟨by decide, .inl ⟨by omega, h64⟩⟩
  · cases h
    exact .inl ⟨rfl, hmax⟩
  · cases hv : recursiveCandidate plan a row.content with
    | error e' =>
      rw [hv] at h
      cases h
      refine .inr ⟨fun he => uncontracted_recursiveCandidate a row.content (he ▸ hv), .inr ?_⟩
      rintro ⟨v, hv⟩
      cases hv
    | ok v =>
      rw [hv] at h
      cases v with
      | none => cases h
      | some c =>
        dsimp only [ok_bind] at h
        split_ifs at h <;> cases h

theorem foldlM_meetFrontierRow {F : List Value} (round : Round)
    (h : ∀ a ∈ F, d.find? (canonicalJson a) = some a) :
    (F.map canonicalJson).foldlM (meetFrontierRow plan base d) round =
      (F ×ˢ base.values).foldlM (fun r p => RecursiveFixpointRuntime.meetBase plan d p.1 r p.2)
        round := by
  induction F generalizing round with
  | nil => rfl
  | cons a F ih =>
    rw [map_cons, foldlM_cons, meetFrontierRow, h a mem_cons_self,
      product_cons, foldlM_append, foldlM_map]
    exact bind_congr fun r => ih r fun b hb => h b (mem_cons_of_mem a hb)

@[simp]
theorem length_values (base : BaseRows) : base.values.length = base.size := length_map ..

/-- A round in which every base row counts. -/
def Met (plan : RecursiveFixpointPlan) (d : Derived) (w : ℕ) (met : List (Value × BaseRow))
    (round : Round) : Prop := (∀ p ∈ met, 0 < p.2.weight.val) → RoundSpec plan d w met round

theorem met_nil (h : w ≤ plan.maxWorkUnitsPerEpoch.toNat) : Met plan d w [] { workUnits := w } :=
  fun _ => ⟨rfl, h, by simp, by simp, by simp, by simp⟩

theorem Met.step {p : Value × BaseRow} (h : Met plan d w met round)
    (hok : RecursiveFixpointRuntime.meetBase plan d p.1 round p.2 = .ok round') :
    Met plan d w (met ++ [p]) round' := by
  intro hall
  rw [forall_mem_append, forall_mem_singleton] at hall
  exact (h hall.1).meetBase hall.2 hok

section
variable {F : List Value} (hpos : ∀ row ∈ base.values, 0 < row.weight.val)
  (hF : ∀ a ∈ F, d.find? (canonicalJson a) = some a) (hw : w ≤ plan.maxWorkUnitsPerEpoch.toNat)
include hpos hF hw

theorem round_ok
    (h : (F.map canonicalJson).foldlM (meetFrontierRow plan base d) { workUnits := w } =
      .ok round) : RoundSpec plan d w (F ×ˢ base.values) round := by
  rw [foldlM_meetFrontierRow _ hF] at h
  exact foldlM_ok_induct (P := Met plan d w) h (met_nil hw) Met.step
    fun p hp => hpos p.2 (mem_product.mp hp).2

theorem round_error {e : RuntimeError}
    (h : (F.map canonicalJson).foldlM (meetFrontierRow plan base d) { workUnits := w } =
      .error e) :
    (e = contractError ∧ plan.maxWorkUnitsPerEpoch.toNat < w + F.length * base.size) ∨
      e ≠ contractError ∧
        ((plan.maxWorkUnitsPerEpoch.toNat = 2 ^ 64 - 1 ∧ 2 ^ 64 ≤ w + F.length * base.size) ∨
          ∃ a ∈ F, ∃ row ∈ base.values,
            ¬ ∃ v, recursiveCandidate plan a row.content = .ok v) := by
  rw [foldlM_meetFrontierRow _ hF] at h
  obtain ⟨seen, p, rest, r, hs, hr, he⟩ :=
    foldlM_eq_error (P := Met plan d w) h (met_nil hw) Met.step
  have hmem (q) (hq : q ∈ seen ++ p :: rest) : q.1 ∈ F ∧ q.2 ∈ base.values := by
    rw [← hs] at hq
    exact mem_product.mp hq
  have hspec := hr fun q hq => hpos _ (hmem q (mem_append_left _ hq)).2
  obtain ⟨ha, hrow⟩ := hmem p (by simp)
  have hlen : seen.length + 1 ≤ F.length * base.size := by
    rw [← length_values, ← length_product, hs, length_append, length_cons]
    omega
  have hwork := hspec.work
  rcases meetBase_error (hpos _ hrow) hspec.fits he with
    ⟨rfl, hmax⟩ | ⟨hne, ⟨hmax, h64⟩ | hfail⟩
  · exact .inl ⟨rfl, by omega⟩
  · exact .inr ⟨hne, .inl ⟨hmax, by omega⟩⟩
  · exact .inr ⟨hne, .inr ⟨p.1, ha, p.2, hrow, hfail⟩⟩

end

end Round

section Loop

variable {l : List (List Char × Value)} {d' : Derived} {e : RuntimeError} {i n w : ℕ}
  {F : List Value}

theorem addDerived_eq_ok {entry : List Char × Value} : addDerived plan d entry = .ok d' ↔
    (d.insert entry.1 entry.2).size ≤ plan.maxDerivedRows.toNat ∧
      d.insert entry.1 entry.2 = d' := by
  unfold addDerived
  dsimp only
  split_ifs with h
  · simp [h]
  · simp [not_lt.mp h]

theorem addDerived_step {seen : List (List Char × Value)} {entry : List Char × Value}
    (h : Represents d (S ∪ {v | v ∈ seen.map (·.2)})) (hk : entry.1 = canonicalJson entry.2) :
    Represents (d.insert entry.1 entry.2) (S ∪ {v | v ∈ (seen ++ [entry]).map (·.2)}) := by
  have hs : S ∪ {v | v ∈ (seen ++ [entry]).map (·.2)} =
      insert entry.2 (S ∪ {v | v ∈ seen.map (·.2)}) := by
    ext v
    simp only [map_append, map_cons, map_nil, mem_append, mem_singleton,
      Set.mem_union, Set.mem_ofPred_eq, Set.mem_insert_iff]
    tauto
  rw [hs, hk]
  exact h.insert entry.2

theorem addDerived_ok (hk : ∀ e ∈ l, e.1 = canonicalJson e.2) (h : Represents d S)
    (hd : d.size ≤ plan.maxDerivedRows.toNat) (hok : l.foldlM (addDerived plan) d = .ok d') :
    Represents d' (S ∪ {v | v ∈ l.map (·.2)}) ∧ d'.size ≤ plan.maxDerivedRows.toNat := by
  refine foldlM_ok_induct (P := fun seen d' => (∀ e ∈ seen, e.1 = canonicalJson e.2) →
    Represents d' (S ∪ {v | v ∈ seen.map (·.2)}) ∧ d'.size ≤ plan.maxDerivedRows.toNat)
    hok ?_ ?_ hk
  · exact fun _ => ⟨by simpa using h, hd⟩
  · intro seen d₁ entry d₂ hP hstep hall
    rw [forall_mem_append, forall_mem_singleton] at hall
    obtain ⟨hsize, rfl⟩ := addDerived_eq_ok.mp hstep
    exact ⟨addDerived_step (hP hall.1).1 hall.2, hsize⟩

theorem addDerived_error (hk : ∀ e ∈ l, e.1 = canonicalJson e.2) (h : Represents d S)
    (he : l.foldlM (addDerived plan) d = .error e) :
    e = contractError ∧ plan.maxDerivedRows.toNat < (S ∪ {v | v ∈ l.map (·.2)}).encard := by
  obtain ⟨seen, entry, rest, d₁, rfl, hP, hstep⟩ := foldlM_eq_error
    (P := fun seen d' => (∀ e ∈ seen, e.1 = canonicalJson e.2) →
      Represents d' (S ∪ {v | v ∈ seen.map (·.2)})) he (fun _ => by simpa using h) (by
      intro seen d₁ entry d₂ hP hstep hall
      rw [forall_mem_append, forall_mem_singleton] at hall
      obtain ⟨-, rfl⟩ := addDerived_eq_ok.mp hstep
      exact addDerived_step (hP hall.1) hall.2)
  have hrep := addDerived_step (hP fun e he => hk e (mem_append_left _ he))
    (hk entry (by simp))
  unfold addDerived at hstep
  dsimp only at hstep
  split_ifs at hstep with hsize
  cases hstep
  refine ⟨rfl, lt_of_lt_of_le (Nat.cast_lt.mpr hsize) ?_⟩
  rw [← hrep.encard]
  refine Set.encard_le_encard (Set.union_subset_union_right S fun v hv => ?_)
  simp only [Set.mem_ofPred_eq, map_append, mem_append, map_cons,
    mem_cons, map_nil, not_mem_nil, or_false] at hv ⊢
  tauto

/-- What the iterations rely on: all rows but those of the frontier have been joined. -/
structure LoopInv (plan : RecursiveFixpointPlan) (base : BaseRows) (i : ℕ) (d : Derived)
    (F : List Value) (w : ℕ) : Prop where
  rows : Represents d (rowsWithin plan base i)
  frontier : ∀ a ∈ F, a ∈ rowsWithin plan base i
  met : ∀ a ∈ rowsWithin plan base i, a ∉ F → ∀ row ∈ base.values,
    ∃ v, recursiveCandidate plan a row.content = .ok v ∧
      ∀ b, v = some b → b ∈ rowsWithin plan base i
  work : w + F.length * base.size = d.size * base.size
  fits : w ≤ plan.maxWorkUnitsPerEpoch.toNat
  size : d.size ≤ plan.maxDerivedRows.toNat

def Outcome (plan : RecursiveFixpointPlan) (base : BaseRows) :
    Except RuntimeError Derived → Prop
  | .ok d => Represents d (derivedRows plan base) ∧ Evaluates plan base ∧
      ¬ ExceedsContract plan base
  | .error e => (e = contractError ∧ ExceedsContract plan base) ∨
      e ≠ contractError ∧ (CounterFails plan base ∨ ¬ Evaluates plan base)

theorem LoopInv.find (h : LoopInv plan base i d F w) :
    ∀ a ∈ F, d.find? (canonicalJson a) = some a :=
  fun a ha => (h.rows _ a).mpr ⟨rfl, h.frontier a ha⟩

theorem LoopInv.comparisons_ge (h : LoopInv plan base i d F w) :
    ((w + F.length * base.size : ℕ) : ℕ∞) ≤ comparisons plan base := by
  rw [h.work, Nat.cast_mul, comparisons, ← h.rows.encard]
  exact mul_le_mul_left (Set.encard_le_encard (within_subset_derivable i)) _

/-- The rows that a round finds are those that one more step derives. -/
theorem LoopInv.next {round : Round} (h : LoopInv plan base i d F w)
    (hr : RoundSpec plan d w (F ×ˢ base.values) round) :
    rowsWithin plan base (i + 1) =
        rowsWithin plan base i ∪ {v | v ∈ round.newFrontier.map (·.2)} ∧
      ∀ v ∈ round.newFrontier.map (·.2), v ∉ rowsWithin plan base i := by
  have hnew (v : Value) : d.find? (canonicalJson v) = none ↔ v ∉ rowsWithin plan base i := by
    rw [Option.eq_none_iff_forall_ne_some, ← not_iff_not, not_not]
    push Not
    constructor
    · rintro ⟨u, hu⟩
      obtain ⟨hkey, hmem⟩ := (h.rows _ u).mp hu
      rwa [canonicalJson_injective hkey]
    · intro hv
      exact ⟨v, (h.rows _ v).mpr ⟨rfl, hv⟩⟩
  have hjoin (v : Value) : (∃ p ∈ F ×ˢ base.values,
      recursiveCandidate plan p.1 p.2.content = .ok (some v)) ↔ ∃ a ∈ F, Joins plan base a v := by
    constructor
    · rintro ⟨p, hp, hv⟩
      obtain ⟨ha, hrow⟩ := mem_product.mp hp
      exact ⟨p.1, ha, p.2, hrow, hv⟩
    · rintro ⟨a, ha, row, hrow, hv⟩
      exact ⟨(a, row), mem_product.mpr ⟨ha, hrow⟩, hv⟩
  have hs := within_succ (F := {a | a ∈ F}) (n := i) (A := anchors plan base)
    (R := Joins plan base) h.frontier (by
      rintro a ha haF b ⟨row, hrow, hb⟩
      obtain ⟨v, hv, hin⟩ := h.met a ha haF row hrow
      rw [hv] at hb
      exact hin b (Except.ok.inj hb))
  refine ⟨hs.trans (Set.ext fun v => ?_), fun v hv => (hnew v).mp ((hr.rows v).mp hv).1⟩
  simp only [Set.mem_union, Set.mem_ofPred_eq, hr.rows, hjoin, hnew]
  tauto

/-- A round that finds nothing has reached the closure. -/
theorem LoopInv.finished {round : Round} (h : LoopInv plan base i d F w)
    (hanchor : ∀ row ∈ base.values, ∃ v, anchorRow plan row.content = .ok v)
    (hi : i < plan.maxIterations.toNat) (hr : RoundSpec plan d w (F ×ˢ base.values) round)
    (hnil : round.newFrontier = []) : Outcome plan base (.ok d) := by
  obtain ⟨hs, -⟩ := h.next hr
  have hder : derivedRows plan base = rowsWithin plan base i :=
    derivable_eq_within (by simp [hs, hnil])
  have hall : round.workUnits = d.size * base.size := by
    rw [hr.work, length_product, length_values, h.work]
  have hsize : (derivedRows plan base).encard = d.size := by rw [hder, h.rows.encard]
  refine ⟨hder ▸ h.rows, ⟨hanchor, fun a ha row hrow => ?_⟩, ?_⟩
  · rw [hder] at ha
    by_cases haF : a ∈ F
    · exact hr.evaluated (a, row) (mem_product.mpr ⟨haF, hrow⟩)
    · obtain ⟨v, hv, -⟩ := h.met a ha haF row hrow
      exact ⟨v, hv⟩
  · rintro (hx | hx | ⟨v, hv, hx⟩ | hx)
    · have hle := Set.encard_le_encard (within_subset_derivable (A := anchors plan base)
        (R := Joins plan base) 0)
      rw [hsize] at hle
      exact (Nat.cast_lt.mp (hx.trans_le hle)).not_ge h.size
    · rw [hsize] at hx
      exact (Nat.cast_lt.mp hx).not_ge h.size
    · rw [hder] at hv
      exact hx (within_mono (by omega) hv)
    · rw [comparisons, hsize, ← Nat.cast_mul, ← hall] at hx
      exact (Nat.cast_lt.mp hx).not_ge hr.fits

theorem LoopInv.step {round : Round} (h : LoopInv plan base i d F w)
    (hr : RoundSpec plan d w (F ×ˢ base.values) round)
    (hok : round.newFrontier.foldlM (addDerived plan) d = .ok d') :
    LoopInv plan base (i + 1) d' (round.newFrontier.map (·.2)) round.workUnits := by
  obtain ⟨hs, hnew⟩ := h.next hr
  obtain ⟨hrep, hsize⟩ := addDerived_ok hr.keyed h.rows h.size hok
  rw [← hs] at hrep
  have hcard : d'.size = d.size + round.newFrontier.length := by
    have hdisj : Disjoint (rowsWithin plan base i) {v | v ∈ round.newFrontier.map (·.2)} :=
      Set.disjoint_right.mpr hnew
    have hc := hrep.encard
    rw [hs, Set.encard_union_eq hdisj, h.rows.encard, encard_list hr.nodup, length_map] at hc
    exact_mod_cast hc.symm
  refine ⟨hrep, fun a ha => hs ▸ .inr ha, fun a ha haF row hrow => ?_, ?_, hr.fits, hsize⟩
  · -- a row that is not new has met the base rows in this round or before
    have hold : a ∈ rowsWithin plan base i := by
      rw [hs] at ha
      exact ha.resolve_right haF
    have hin (b : Value) (hb : recursiveCandidate plan a row.content = .ok (some b)) :
        b ∈ rowsWithin plan base (i + 1) := .inr ⟨a, hold, row, hrow, hb⟩
    by_cases hmem : a ∈ F
    · obtain ⟨v, hv⟩ := hr.evaluated (a, row) (mem_product.mpr ⟨hmem, hrow⟩)
      exact ⟨v, hv, fun b hb => hin b (hb ▸ hv)⟩
    · obtain ⟨v, hv, -⟩ := h.met a hold hmem row hrow
      exact ⟨v, hv, fun b hb => hin b (hb ▸ hv)⟩
  · rw [hr.work, length_product, length_values, h.work, length_map, hcard, add_mul]

section
variable (hpos : ∀ row ∈ base.values, 0 < row.weight.val)
  (hanchor : ∀ row ∈ base.values, ∃ v, anchorRow plan row.content = .ok v)
  (hn : i + (n + 1) = plan.maxIterations.toNat) (h : LoopInv plan base i d F w)
include hpos hanchor hn h

theorem closureLoop_step (hrest : 0 < n → ∀ d' F' w', LoopInv plan base (i + 1) d' F' w' →
      Outcome plan base (closureLoop plan base n d' (F'.map canonicalJson) w')) :
    Outcome plan base (closureLoop plan base (n + 1) d (F.map canonicalJson) w) := by
  unfold closureLoop
  cases hround : (F.map canonicalJson).foldlM (meetFrontierRow plan base d) { workUnits := w } with
  | error e =>
    rcases round_error hpos h.find h.fits hround with
      ⟨rfl, hx⟩ | ⟨hne, ⟨hx, h64⟩ | ⟨a, ha, row, hrow, hx⟩⟩
    · exact .inl ⟨rfl, .inr (.inr (.inr ((Nat.cast_lt.mpr hx).trans_le h.comparisons_ge)))⟩
    · exact .inr ⟨hne, .inl ⟨hx, (Nat.cast_le.mpr h64).trans h.comparisons_ge⟩⟩
    · exact .inr ⟨hne, .inr fun he => hx (he.join a
        (within_subset_derivable i (h.frontier a ha)) row hrow)⟩
  | ok round =>
    have hr := round_ok hpos h.find h.fits hround
    obtain ⟨hs, hnew⟩ := h.next hr
    rw [ok_bind]
    split_ifs with hnil hlast
    · exact h.finished hanchor (by omega) hr (List.isEmpty_iff.mp hnil)
    · -- the last iteration has found a row
      rw [List.isEmpty_iff] at hnil
      obtain ⟨entry, hentry⟩ := exists_mem_of_ne_nil _ hnil
      have hmem : entry.2 ∈ round.newFrontier.map (·.2) := mem_map_of_mem hentry
      have hin : entry.2 ∈ rowsWithin plan base (i + 1) := hs ▸ .inr hmem
      refine .inl ⟨rfl, .inr (.inr (.inl ⟨entry.2, within_subset_derivable (i + 1) hin, ?_⟩))⟩
      · rw [← hn, hlast]
        exact hnew _ hmem
    · cases hadd : round.newFrontier.foldlM (addDerived plan) d with
      | error e =>
        obtain ⟨rfl, hx⟩ := addDerived_error hr.keyed h.rows hadd
        rw [← hs] at hx
        exact .inl ⟨rfl, .inr (.inl (hx.trans_le
          (Set.encard_le_encard (within_subset_derivable _))))⟩
      | ok d' =>
        have hkeys : round.newFrontier.map (·.1) =
            (round.newFrontier.map (·.2)).map canonicalJson := by
          rw [map_map]
          exact map_congr_left hr.keyed
        rw [ok_bind, hkeys]
        exact hrest (Nat.pos_of_ne_zero hlast) _ _ _ (h.step hr hadd)

theorem closureLoop_outcome :
    Outcome plan base (closureLoop plan base (n + 1) d (F.map canonicalJson) w) := by
  induction n generalizing i d F w with
  | zero => exact closureLoop_step hpos hanchor hn h fun hlt => absurd hlt (lt_irrefl 0)
  | succ n ih => exact closureLoop_step hpos hanchor hn h fun _ _ _ _ h' => ih (by omega) h'

end

end Loop

def addAnchor (plan : RecursiveFixpointPlan) (derived : Derived)
    (row : BaseRow) : Except RuntimeError Derived := do
  match ← anchorRow plan row.content with
  | none => return derived
  | some v => return derived.insert (canonicalJson v) v

theorem recomputeClosureFrom_eq (plan : RecursiveFixpointPlan) (base : BaseRows) :
    recomputeClosureFrom plan base = base.values.foldlM (addAnchor plan) ∅ >>= fun d =>
      if plan.maxDerivedRows.toNat < d.size then .error contractError
      else closureLoop plan base plan.maxIterations.toNat d d.keys 0 := rfl

section Anchors

variable {rows : List BaseRow} {row : BaseRow}

/-- What has been seen so far has been evaluated, and its anchors are there. -/
def AnchorsOf (plan : RecursiveFixpointPlan) (rows : List BaseRow)
    (d : Derived) : Prop :=
  Represents d {v | ∃ row ∈ rows, anchorRow plan row.content = .ok (some v)} ∧
    ∀ row ∈ rows, ∃ v, anchorRow plan row.content = .ok v

theorem anchorsOf_nil (plan : RecursiveFixpointPlan) : AnchorsOf plan [] ∅ := by
  refine ⟨fun key v => ?_, by simp⟩
  simp

theorem AnchorsOf.add {d' : Derived} (h : AnchorsOf plan rows d)
    (hok : addAnchor plan d row = .ok d') : AnchorsOf plan (rows ++ [row]) d' := by
  obtain ⟨v, hv, hok⟩ := bind_eq_ok.mp hok
  have hs : {b | ∃ r ∈ rows ++ [row], anchorRow plan r.content = .ok (some b)} =
      {b | ∃ r ∈ rows, anchorRow plan r.content = .ok (some b)} ∪ {b | v = some b} := by
    ext b
    simp only [mem_append, mem_singleton, or_and_right, exists_or, exists_eq_left, hv,
      Except.ok.injEq, Set.mem_ofPred_eq, Set.mem_union]
  refine ⟨?_, ?_⟩
  · rw [hs]
    cases v with
    | none =>
      cases hok
      simpa using h.1
    | some c =>
      cases hok
      have hc : {b | some c = some b} = {c} := by
        ext b
        simp [eq_comm]
      rw [hc, Set.union_singleton]
      exact h.1.insert c
  · rw [forall_mem_append, forall_mem_singleton]
    exact ⟨h.2, v, hv⟩

theorem evaluates_addAnchor {v : Option Value} (h : anchorRow plan row.content = .ok v) :
    ∃ d', addAnchor plan d row = .ok d' := by
  rw [addAnchor, h]
  cases v with
  | none => exact ⟨_, rfl⟩
  | some c => exact ⟨_, rfl⟩

end Anchors

theorem recomputeClosureFrom_outcome (hpos : ∀ row ∈ base.values, 0 < row.weight.val)
    (hiter : 1 ≤ plan.maxIterations.toNat) :
    Outcome plan base (recomputeClosureFrom plan base) := by
  rw [recomputeClosureFrom_eq]
  cases hfold : base.values.foldlM (addAnchor plan) ∅ with
  | error e =>
    obtain ⟨seen, row, rest, d, hs, -, herr⟩ := foldlM_eq_error (P := AnchorsOf plan) hfold
      (anchorsOf_nil plan) AnchorsOf.add
    have hne : Uncontracted (addAnchor plan d row) :=
      (uncontracted_anchorRow _).bind fun v => by cases v <;> exact uncontracted_ok _
    refine .inr ⟨fun hc => hne (hc ▸ herr), .inr fun he => ?_⟩
    obtain ⟨v, hv⟩ := he.anchor row (hs ▸ mem_append_right _ mem_cons_self)
    obtain ⟨d', hd'⟩ := evaluates_addAnchor (d := d) hv
    cases herr.symm.trans hd'
  | ok d =>
    obtain ⟨hrep, heval⟩ := foldlM_ok_induct (P := AnchorsOf plan) hfold
      (anchorsOf_nil plan) AnchorsOf.add
    rw [ok_bind]
    split_ifs with hsize
    · refine .inl ⟨rfl, .inl ?_⟩
      rw [show (anchors plan base).encard = d.size from hrep.encard]
      exact Nat.cast_lt.mpr hsize
    · obtain ⟨n, hn⟩ := Nat.exists_eq_add_of_le' hiter
      rw [hrep.keys_eq, hn]
      refine closureLoop_outcome (i := 0) hpos heval (by omega)
        ⟨hrep, fun a ha => hrep.mem_values.mp ha, ?_, ?_, Nat.zero_le _, not_lt.mp hsize⟩
      · exact fun a ha hnot => absurd (hrep.mem_values.mpr ha) hnot
      · rw [zero_add, SortedMap.values, length_map]
        rfl

theorem not_counterFails (h : ¬ ExceedsContract plan base) : ¬ CounterFails plan base := by
  rintro ⟨hmax, hc⟩
  refine h (.inr (.inr (.inr (lt_of_lt_of_le (Nat.cast_lt.mpr ?_) hc))))
  omega

/-- An accepted closure is the least set of rows that holds the anchors and is closed under joins,
in any order of the base rows. It is refused for its resources only if a limit is exceeded, and
then it is never accepted. Where everything evaluates, it is refused exactly if one is. -/
theorem recomputeClosure_least (hpos : ∀ row ∈ base.values, 0 < row.weight.val)
    (hiter : 1 ≤ plan.maxIterations.toNat) :
    (∀ d, recomputeClosureFrom plan base = .ok d →
      IsLeast {S | Closed (anchors plan base) (Joins plan base) S} {v | v ∈ d.values} ∧
        ∀ other : BaseRows, other.values.Perm base.values →
          recomputeClosureFrom plan other = .ok d) ∧
    (recomputeClosureFrom plan base = .error contractError → ExceedsContract plan base) ∧
    (ExceedsContract plan base → ∀ d, recomputeClosureFrom plan base ≠ .ok d) ∧
    (Evaluates plan base → ¬ CounterFails plan base →
      (recomputeClosureFrom plan base = .error contractError ↔ ExceedsContract plan base)) := by
  have ho := recomputeClosureFrom_outcome hpos hiter
  have hrefused : recomputeClosureFrom plan base = .error contractError →
      ExceedsContract plan base := by
    intro h
    rw [h] at ho
    rcases ho with ⟨-, hx⟩ | ⟨hne, -⟩
    · exact hx
    · exact absurd rfl hne
  have haccepted (d : Derived) (h : recomputeClosureFrom plan base = .ok d) :
      ¬ ExceedsContract plan base := by
    rw [h] at ho
    exact ho.2.2
  refine ⟨fun d hd => ?_, hrefused, fun hx d hd => haccepted d hd hx, fun he hc =>
    ⟨hrefused, fun hx => ?_⟩⟩
  · rw [hd] at ho
    obtain ⟨hrep, heval, hfits⟩ := ho
    refine ⟨?_, fun other hperm => ?_⟩
    · rw [show {v | v ∈ d.values} = derivedRows plan base from Set.ext fun v => hrep.mem_values]
      exact isLeast_derivable
    · have ha : anchors plan other = anchors plan base := by simp only [anchors, hperm.mem_iff]
      have hj : Joins plan other = Joins plan base := by
        funext a b
        simp only [Joins, hperm.mem_iff]
      have hs : other.size = base.size := by rw [← length_values, hperm.length_eq, length_values]
      have ho' : Outcome plan other (recomputeClosureFrom plan other) :=
        recomputeClosureFrom_outcome (fun row hrow => hpos row (hperm.mem_iff.mp hrow)) hiter
      have hx : ¬ ExceedsContract plan other := by
        unfold ExceedsContract comparisons derivedRows rowsWithin
        rw [ha, hj, hs]
        exact hfits
      cases hr : recomputeClosureFrom plan other with
      | ok d' =>
        rw [hr] at ho'
        have hrep' := ho'.1
        rw [derivedRows, ha, hj] at hrep'
        rw [hrep'.unique hrep]
      | error e =>
        rw [hr] at ho'
        rcases ho' with ⟨-, h⟩ | ⟨-, h | h⟩
        · exact absurd h hx
        · exact absurd h (not_counterFails hx)
        · refine absurd ⟨?_, ?_⟩ h
          · exact fun row hrow => heval.anchor row (hperm.mem_iff.mp hrow)
          · intro a hmem row hrow
            rw [derivedRows, ha, hj] at hmem
            exact heval.join a hmem row (hperm.mem_iff.mp hrow)
  · cases hr : recomputeClosureFrom plan base with
    | ok d => exact absurd hx (haccepted d hr)
    | error e =>
      rw [hr] at ho
      rcases ho with ⟨rfl, -⟩ | ⟨-, h | h⟩
      · rfl
      · exact absurd h hc
      · exact absurd he h

/-- The nodes that edges lead to from node `a`. -/
def reachable (maxIterations maxDerivedRows : UInt64) : RecursiveFixpointPlan where
  inputRelationId := "edges"
  recursionColumnNames := ["node"]
  anchorProjection := ["to"]
  recursiveProjection := [.base "to"]
  joinBaseColumnId := "from"
  joinRecursiveColumnId := "node"
  recursiveBasePredicate := []
  anchorBasePredicate := [⟨"from", .eq, .string "a"⟩]
  maxIterations
  maxDerivedRows
  maxWorkUnitsPerEpoch := 9

def edgeRow (edge : Value × Value) : BaseRow :=
  ⟨.ofList [("from", edge.1), ("to", edge.2)], 1⟩

def edgeRows (edges : List (Value × Value)) : BaseRows :=
  .ofList (edges.map fun edge => (canonicalJson (.array [edge.1, edge.2]), edgeRow edge))

/-- An edge to `b`, and a cycle through `b` and `c`. -/
def cycle : BaseRows :=
  edgeRows [(.string "a", .string "b"), (.string "b", .string "c"), (.string "c", .string "b")]

/-- The nodes of the cycle are found in two rounds, and one round is not enough. -/
theorem cycle_least :
    (∃ d, recomputeClosureFrom (reachable 2 2) cycle = .ok d ∧ d.size = 2 ∧
      IsLeast {S | Closed (anchors (reachable 2 2) cycle) (Joins (reachable 2 2) cycle) S}
        {v | v ∈ d.values}) ∧
    recomputeClosureFrom (reachable 1 2) cycle = .error contractError ∧
    ExceedsContract (reachable 1 2) cycle := by
  have hpos : ∀ row ∈ cycle.values, 0 < row.weight.val := by decide +kernel
  obtain ⟨d, hd, hsize⟩ : ∃ d, recomputeClosureFrom (reachable 2 2) cycle = .ok d ∧ d.size = 2 := by
    have h : ((recomputeClosureFrom (reachable 2 2) cycle).toOption.any (·.size = 2)) = true := by
      decide +kernel
    obtain ⟨d, hd, hsize⟩ := (Option.any_eq_true _ _).mp h
    exact ⟨d, toOption_eq_some.mp hd, of_decide_eq_true hsize⟩
  have hrefused : recomputeClosureFrom (reachable 1 2) cycle = .error contractError := by
    decide +kernel
  exact ⟨⟨d, hd, hsize, ((recomputeClosure_least hpos (by decide)).1 d hd).1⟩, hrefused,
    (recomputeClosure_least hpos (by decide)).2.1 hrefused⟩

/-- Two anchors are one too many, but a null is compared before they are counted. -/
theorem null_node_fails :
    let base := edgeRows [(.string "a", .string "b"), (.string "a", .string "c"), (.null, .null)]
    (∀ row ∈ base.values, 0 < row.weight.val) ∧ 1 ≤ (reachable 2 1).maxIterations.toNat ∧
      ExceedsContract (reachable 2 1) base ∧
      recomputeClosureFrom (reachable 2 1) base = .error invalidPredicate ∧
      recomputeClosureFrom (reachable 2 1) base ≠ .error contractError := by
  intro base
  have herr : recomputeClosureFrom (reachable 2 1) base = .error invalidPredicate := rfl
  refine ⟨by decide, by decide, .inl ?_, herr, ?_⟩
  · refine Set.one_lt_encard_iff.mpr ⟨namedRow (reachable 2 1) [.string "b"],
      namedRow (reachable 2 1) [.string "c"],
      ⟨edgeRow (.string "a", .string "b"), by decide, rfl⟩,
      ⟨edgeRow (.string "a", .string "c"), by decide, rfl⟩, by decide⟩
  · rw [herr]
    decide

end Velorix.View.RecursiveFixpointRuntime
