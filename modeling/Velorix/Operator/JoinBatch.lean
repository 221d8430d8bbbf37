import Velorix.Delta.ZSet
import Velorix.Operator.Join

/-! The keyed join as a product of signed multisets: the sides add up what they receive,
and a batch is joined with everything on the opposite side. -/
namespace Velorix.Operator

open Json Delta WeightedSet Result SortedMap List

variable {rec : DeltaRecord} {i : DeltaBatch}

namespace SideState

def cellWeight (side : SideState) (pair : Value × Value) : ℤ :=
  ((side.cells.get (canonicalJson pair.1) (canonicalJson pair.2)).map fun r => r.weight.val).getD 0

theorem zset_batch_apply (side : SideState) (pair : Value × Value) :
    zset side.batch.records pair = side.cellWeight pair := by
  rw [zset_apply, cellWeight]
  rcases hg : side.cells.get (canonicalJson pair.1) (canonicalJson pair.2) with _ | r
  · apply DeltaBatch.pairWeight_eq_zero
    intro r hr hp
    have hs := get_of_mem_batch hr
    rw [← hp] at hg
    exact Option.some_ne_none r (hs.symm.trans hg)
  · have hp : r.pair = pair := by
      obtain ⟨hk, hv, -⟩ := side.stored hg
      exact Prod.ext (canonicalJson_injective hk) (canonicalJson_injective hv)
    have hn : (side.batch.records.map DeltaRecord.pair).Nodup := by
      apply List.Nodup.of_map (fun pair : Value × Value =>
        (canonicalJson pair.1, canonicalJson pair.2))
      rw [map_map]
      exact side.nodup_places
    rw [← hp]
    exact weightAt_of_nodup hn (NestedMap.mem_values_iff.mpr ⟨_, _, hg⟩)

theorem nextWeight_val {previous : Option DeltaRecord} {weight : I64}
    (h : nextWeight previous rec = .ok weight) :
    weight.val = (previous.map fun r => r.weight.val).getD 0 + rec.weight.val := by
  unfold nextWeight at h
  simp only at h
  split at h
  · cases h
  · rename_i sum hs
    split at h
    · cases h
    · rename_i narrow hn
      cases h
      have ha := SInt.ofInt?_eq_some.mp hs
      rw [SInt.toI64?_eq_some.mp hn, ha, SInt.toI128_val]
      cases previous <;> simp

theorem applyRecord_zset {side next : SideState} (h : side.applyRecord rec = .ok next) :
    zset next.batch.records = zset side.batch.records + Finsupp.single rec.pair rec.weight.val := by
  obtain ⟨weight, hw, h⟩ := bind_eq_ok.mp h
  cases h
  ext pair
  have hr : ((replacement rec weight).map fun r => r.weight.val).getD 0 = weight.val := by
    unfold replacement
    split_ifs with hz
    · rw [hz]
      rfl
    · rfl
  rw [Finsupp.add_apply, zset_batch_apply, zset_batch_apply, cellWeight, setCell,
    NestedMap.get_set, Finsupp.single_apply]
  by_cases hp : rec.pair = pair
  · rw [if_pos hp, ← hp, if_pos ⟨rfl, rfl⟩, hr, nextWeight_val hw]
    rfl
  · have hc : ¬ (canonicalJson rec.key = canonicalJson pair.1 ∧
        canonicalJson rec.value = canonicalJson pair.2) := by
      rintro ⟨hk, hv⟩
      exact hp (Prod.ext (canonicalJson_injective hk) (canonicalJson_injective hv))
    rw [if_neg hp, if_neg hc, add_zero]
    rfl

theorem applied_zset {side next : SideState} (h : side.applied i = .ok next) :
    zset next.batch.records = zset side.batch.records + zset i.records := by
  refine foldlM_ok_induct
    (P := fun seen s => zset s.batch.records = zset side.batch.records + zset seen) h ?_ ?_
  · rw [zset_nil, add_zero]
  · intro seen s rec s' hs hstep
    rw [applyRecord_zset hstep, hs, zset_append, zset_cons, zset_nil, add_zero, add_assoc]

/-- Of a quantity that only rows of one key have, the rows of the key hold all. -/
theorem sum_netRecordsForKey {M : Type*} [AddCommGroup M] (side : SideState) (key : Value)
    {quantity : DeltaRecord → M} (h : ∀ r, r.key ≠ key → quantity r = 0) :
    ((side.netRecordsForKey key).map quantity).sum = (side.batch.records.map quantity).sum := by
  have ht : (side.batch.records.map quantity).sum =
      side.cells.rows.total fun _ row => (row.values.map quantity).sum := by
    rw [batch, NestedMap.values, SortedMap.values, flatMap_map, map_flatMap,
      flatMap_def, sum_flatten, map_map]
    rfl
  have ho : (side.cells.rows.erase (canonicalJson key)).total
      (fun _ row => (row.values.map quantity).sum) = 0 := by
    apply total_eq_zero
    intro text row hrow
    rw [find?_erase] at hrow
    split_ifs at hrow with htext
    apply sum_eq_zero
    intro x hx
    obtain ⟨r, hr, rfl⟩ := mem_map.mp hx
    apply h
    intro hk
    obtain ⟨value, hv⟩ := mem_values_iff.mp hr
    have hg : side.cells.get text value = some r := by
      rw [NestedMap.get, NestedMap.row, hrow]
      exact hv
    obtain ⟨hs, -, -⟩ := side.stored hg
    exact htext (by rw [← hs, hk])
  rw [total_erase, sub_eq_zero] at ho
  rw [ht, ho, netRecordsForKey, NestedMap.row]
  rcases side.cells.rows.find? (canonicalJson key) with _ | row <;> rfl

theorem key_of_mem_netRecordsForKey (side : SideState) {key : Value}
    (h : rec ∈ side.netRecordsForKey key) : rec.key = key := by
  obtain ⟨value, hv⟩ := mem_values_iff.mp h
  obtain ⟨hk, -, -⟩ := side.stored (show side.cells.get (canonicalJson key) value = _ from hv)
  exact canonicalJson_injective hk

end SideState

namespace KeyedEquiJoin

variable {o : DeltaBatch}

/-- The value of a joined pair, if there is one. -/
def joinedValue (join : KeyedEquiJoin) (left right : Value) : Option Value :=
  (join.joinValues left right).toOption

/-- The product with one side fixed, from the side the batch is on. -/
noncomputable def productFrom (join : KeyedEquiJoin) (side : JoinInputSide)
    (own other : ZSet) : ZSet :=
  match side with
  | .left => product join.joinedValue own other
  | .right => product join.joinedValue other own

variable {join : KeyedEquiJoin} {side : JoinInputSide}

@[simp]
theorem productFrom_zero_left (other : ZSet) : join.productFrom side 0 other = 0 := by
  cases side
  · exact product_zero_left _ _
  · exact product_zero_right _ _

@[simp]
theorem productFrom_zero_right (own : ZSet) : join.productFrom side own 0 = 0 := by
  cases side
  · exact product_zero_right _ _
  · exact product_zero_left _ _

theorem productFrom_add_left (own more other : ZSet) : join.productFrom side (own + more) other =
    join.productFrom side own other + join.productFrom side more other := by
  cases side
  · exact product_add_left _ _ _ _
  · exact product_add_right _ _ _ _

theorem productFrom_add_right (own other more : ZSet) : join.productFrom side own (other + more) =
    join.productFrom side own other + join.productFrom side own more := by
  cases side
  · exact product_add_right _ _ _ _
  · exact product_add_left _ _ _ _

theorem productFrom_single_of_ne {other : DeltaRecord} (h : other.key ≠ rec.key) :
    join.productFrom side (Finsupp.single rec.pair rec.weight.val)
      (Finsupp.single other.pair other.weight.val) = 0 := by
  cases side
  · have hn : joined join.joinedValue rec.pair other.pair = none :=
      joined_eq_none _ (Ne.symm h)
    rw [productFrom, product_single, hn]
    rfl
  · have hn : joined join.joinedValue other.pair rec.pair = none := joined_eq_none _ h
    rw [productFrom, product_single, hn]
    rfl

theorem checkedWeightProduct_val {left right weight : I64}
    (h : checkedWeightProduct left right = .ok weight) : weight.val = left.val * right.val := by
  unfold checkedWeightProduct at h
  split at h
  · rename_i product hp
    cases h
    exact SInt.ofInt?_eq_some.mp hp
  · cases h

theorem joinRecord_zset {other row : DeltaRecord} (hk : other.key = rec.key)
    (h : join.joinRecord side rec other = .ok row) :
    Finsupp.single row.pair row.weight.val =
      join.productFrom side (Finsupp.single rec.pair rec.weight.val)
        (Finsupp.single other.pair other.weight.val) := by
  obtain ⟨weight, hw, h⟩ := bind_eq_ok.mp h
  have hp := checkedWeightProduct_val hw
  cases side with
  | left =>
    obtain ⟨value, hv, h⟩ := bind_eq_ok.mp h
    cases h
    have hj : joined join.joinedValue rec.pair other.pair = some (rec.key, value) :=
      joined_eq_some hk.symm (toOption_eq_some.mpr hv)
    rw [productFrom, product_single, hj, ← hp]
    rfl
  | right =>
    obtain ⟨value, hv, h⟩ := bind_eq_ok.mp h
    cases h
    have hj : joined join.joinedValue other.pair rec.pair = some (other.key, value) :=
      joined_eq_some hk (toOption_eq_some.mpr hv)
    rw [productFrom, product_single, hj, mul_comm, ← hp, hk]
    rfl

theorem joinAgainst_zset {other : SideState} (h : join.joinAgainst side i other = .ok o) :
    zset o.records = join.productFrom side (zset i.records) (zset other.batch.records) := by
  obtain ⟨outs, ho, h⟩ := bind_eq_ok.mp h
  cases h
  have hrec (rec : DeltaRecord) (rows : List DeltaRecord)
      (hrows : (other.netRecordsForKey rec.key).mapM (join.joinRecord side rec) = .ok rows) :
      zset rows = join.productFrom side (Finsupp.single rec.pair rec.weight.val)
        (zset other.batch.records) := by
    rw [eq_sum_of_additive (f := join.productFrom side _) (productFrom_zero_right _)
      (productFrom_add_right _), ← other.sum_netRecordsForKey rec.key
        fun r hr => productFrom_single_of_ne hr]
    have hk : ∀ r ∈ other.netRecordsForKey rec.key, r.key = rec.key :=
      fun r hr => other.key_of_mem_netRecordsForKey hr
    have ha := (forall₂_and_left _ _).mpr ⟨hk, mapM_eq_ok.mp hrows⟩
    unfold zset ofItems
    congr 1
    rw [← forall₂_eq_eq_eq, forall₂_map_left_iff, forall₂_map_right_iff]
    exact ha.flip.imp fun row stored hrow => joinRecord_zset hrow.1 hrow.2
  rw [zset_flatten, eq_sum_of_additive (f := fun own => join.productFrom side own _)
    (productFrom_zero_left _) (fun a b => productFrom_add_left a b _)]
  congr 1
  rw [← forall₂_eq_eq_eq, forall₂_map_left_iff, forall₂_map_right_iff]
  exact (mapM_eq_ok.mp ho).flip.imp fun rows rec hrows => hrec rec rows hrows

theorem applySide_zset {next : KeyedEquiJoin} (h : join.applySide side i = .ok (o, next)) :
    zset (next.side side).batch.records = zset (join.side side).batch.records + zset i.records ∧
      next.side side.opposite = join.side side.opposite ∧
      zset o.records = join.productFrom side (zset i.records)
        (zset (join.side side.opposite).batch.records) := by
  obtain ⟨s, hj, hs, rfl⟩ := applySide_ok h
  rw [side_moved, Function.update_self, Function.update_of_ne side.opposite_ne]
  exact ⟨SideState.applied_zset hs, rfl, joinAgainst_zset hj⟩

end KeyedEquiJoin
end Velorix.Operator
