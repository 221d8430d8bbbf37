import Velorix.Native.ExistenceBatch
import Velorix.Operator.AggregateBatch
import Velorix.Operator.JoinBatch

/-! What every operator computes from all that it has received at its ports, as a function
of signed multisets, and that each call of an operator emits the difference it makes to
that. -/
namespace Velorix.Native

open Json Delta Operator WeightedSet Result Function

def unitRecord (pair : Value × Value) : DeltaRecord := ⟨pair.1, pair.2, 1⟩

def NativeFilterOperator.image (operator : NativeFilterOperator) (pair : Value × Value) :
    Option (Value × Value) :=
  if (operator.predicate (unitRecord pair)).toOption = some true then some pair else none

def NativeProjectOperator.image (operator : NativeProjectOperator) (pair : Value × Value) :
    Option (Value × Value) :=
  (operator.project (unitRecord pair)).toOption

namespace NativeOperator

variable {operator other : NativeOperator}

/-- Evaluation once, over everything received: filter and projection pair by pair, the join
as the product of weights per key, the aggregate as the row of every key, and semi and anti
join by the count of the key on the right. -/
noncomputable def batch (operator : NativeOperator) (received : String → ZSet) : ZSet :=
  match operator with
  | filter operator => mapped operator.image (received "input")
  | project operator => mapped operator.image (received "input")
  | aggregate operator =>
    aggregated operator.valueMode operator.trackExtrema (received "input")
  | binaryJoin operator =>
    product operator.join.joinedValue (received "left") (received "right")
  | semiJoin _ => kept (fun key => 0 < keyWeight (received "right") key) (received "left")
  | antiJoin _ => kept (fun key => keyWeight (received "right") key = 0) (received "left")
  | leftJoin _ | fullJoin _ | topK _ => 0

/-- The closures of filters and projections judge a record by its key and value. -/
def WeightBlind : NativeOperator → Prop
  | filter operator => ∀ record, operator.predicate record =
      operator.predicate (unitRecord record.pair)
  | project operator => ∀ record, operator.project record =
      operator.project (unitRecord record.pair)
  | _ => True

/-- The operators that look rows up by the value of the key. -/
def ReadsKeys : NativeOperator → Prop
  | semiJoin _ | antiJoin _ => True
  | _ => False

/-- The state of an operator that has received the given multisets at its ports. -/
def Tracks (keys : Set Value) (pairs : Set (Value × Value)) (operator : NativeOperator)
    (received : String → ZSet) : Prop :=
  match operator with
  | filter _ | project _ => True
  | aggregate operator => operator.aggregate.Tracks (received "input") ∧
      operator.aggregate.valueMode = operator.valueMode ∧
      operator.aggregate.trackExtrema = operator.trackExtrema
  | binaryJoin operator => zset operator.join.leftState.records = received "left" ∧
      zset operator.join.rightState.records = received "right"
  | semiJoin operator => operator.Tracks (received "left") (received "right") ∧
      operator.Within keys pairs
  | antiJoin operator => operator.Tracks (received "left") (received "right") ∧
      operator.Within keys pairs
  | leftJoin _ | fullJoin _ | topK _ => False

@[simp]
theorem batch_reset (operator : NativeOperator) : operator.reset.batch = operator.batch := by
  cases operator <;> rfl

theorem batch_of_reset (h : operator.reset = other.reset) : operator.batch = other.batch := by
  rw [← batch_reset, h, batch_reset]

theorem weightBlind_of_reset (h : operator.reset = other.reset) (hb : other.WeightBlind) :
    operator.WeightBlind := by
  have hr (o : NativeOperator) : o.reset.WeightBlind ↔ o.WeightBlind := by
    cases o <;> exact Iff.rfl
  rwa [← hr, h, hr]

theorem readsKeys_of_reset (h : operator.reset = other.reset) (hr : operator.ReadsKeys) :
    other.ReadsKeys := by
  have hreset (o : NativeOperator) : o.reset.ReadsKeys ↔ o.ReadsKeys := by
    cases o <;> exact Iff.rfl
  rwa [← hreset, ← h, hreset]

@[simp]
theorem batch_zero (operator : NativeOperator) : operator.batch 0 = 0 := by
  cases operator with
  | filter operator => exact mapped_zero _
  | project operator => exact mapped_zero _
  | aggregate operator => exact aggregated_zero
  | binaryJoin operator => exact product_zero_left _ _
  | semiJoin operator | antiJoin operator =>
    rw [batch, Pi.zero_apply, Pi.zero_apply, kept_zero]
  | _ => rfl

theorem tracks_fresh {keys : Set Value} {ps : Set (Value × Value)}
    (hf : operator.reset = operator) (hc : operator.isCore = true) : operator.Tracks keys ps 0 := by
  cases operator with
  | filter operator => trivial
  | project operator => trivial
  | aggregate operator =>
    rw [← hf]
    exact ⟨KeyedSumCountAggregate.tracks_empty _ _, rfl, rfl⟩
  | binaryJoin operator =>
    rw [← hf]
    exact ⟨rfl, rfl⟩
  | semiJoin operator | antiJoin operator =>
    rw [← hf]
    exact ⟨⟨⟨nonNegative_empty, nonNegative_empty⟩, rfl, rfl⟩, recordsIn_nil, recordsIn_nil⟩
  | _ => cases hc

/-- What a port has received after one more batch. -/
noncomputable def more (received : String → ZSet) (portId : String) (input : DeltaBatch) :
    String → ZSet :=
  Function.update received portId (received portId + zset input.records)

/-- A call that moves an operator on: its state tracks the batch as well, and its output is
the difference that the batch makes to its result. -/
structure Advances (keys : Set Value) (pairs : Set (Value × Value))
    (operator next : NativeOperator) (received : String → ZSet) (portId : String)
    (input output : DeltaBatch) : Prop where
  tracks : next.Tracks keys pairs (more received portId input)
  difference : zset output.records =
    operator.batch (more received portId input) - operator.batch received

variable {keys : Set Value} {ps : Set (Value × Value)} {received : String → ZSet}
  {portId : String} {i o : DeltaBatch}

theorem advances_filter {operator : NativeFilterOperator} (hb : (filter operator).WeightBlind)
    (hc : operator.apply portId i = .ok o) :
    Advances keys ps (filter operator) (filter operator) received portId i o := by
  obtain ⟨_, hp, hc⟩ := bind_eq_ok.mp hc
  obtain ⟨rs, hrecs, h⟩ := bind_eq_ok.mp (liftOperator_eq_ok.mp hc)
  cases h
  rw [requirePort_ok hp]
  obtain ⟨hk, hf⟩ := filterMap_mapM_ok (by
    intro rec other hother
    split at hother
    · cases hother
      rfl
    · cases hother
    · cases hother) hrecs
  refine ⟨trivial, ?_⟩
  show zset rs = mapped operator.image (more received "input" i "input") -
    mapped operator.image (received "input")
  rw [more, update_self, mapped_add, add_sub_cancel_left, hk]
  apply zset_filter_eq_mapped
  intro r hr
  have hn := hf r hr
  unfold NativeFilterOperator.image
  rw [← hb r]
  rcases hpredicate : operator.predicate r with error | _ | _
  · rw [hpredicate] at hn
    exact absurd rfl (hn error)
  · rfl
  · rfl

theorem advances_project {operator : NativeProjectOperator}
    (hb : (project operator).WeightBlind) (hc : operator.apply portId i = .ok o) :
    Advances keys ps (project operator) (project operator) received portId i o := by
  obtain ⟨_, hp, hc⟩ := bind_eq_ok.mp hc
  obtain ⟨rs, hrecs, h⟩ := bind_eq_ok.mp (liftOperator_eq_ok.mp hc)
  cases h
  rw [requirePort_ok hp]
  have ha : List.Forall₂ (fun r image => operator.project r = .ok image.pair ∧
      image.weight = r.weight) i.records rs := by
    apply (mapM_eq_ok.mp hrecs).imp
    intro r image himage
    obtain ⟨p, hpair, himage⟩ := bind_eq_ok.mp himage
    cases himage
    exact ⟨hpair, rfl⟩
  refine ⟨trivial, ?_⟩
  show zset rs = mapped operator.image (more received "input" i "input") -
    mapped operator.image (received "input")
  rw [more, update_self, mapped_add, add_sub_cancel_left]
  apply zset_eq_mapped
  apply ha.imp
  intro r image himage
  refine ⟨?_, himage.2⟩
  rw [NativeProjectOperator.image, ← hb r, himage.1]
  rfl

theorem advances_aggregate {operator next : NativeAggregateOperator}
    (ht : (aggregate operator).Tracks keys ps received)
    (hc : operator.apply portId i = .ok (o, next)) :
    Advances keys ps (aggregate operator) (aggregate next) received portId i o := by
  obtain ⟨rfl, p, hp, rfl, rfl⟩ := NativeAggregateOperator.apply_ok hc
  obtain ⟨hstate, hm, he⟩ := ht
  refine ⟨⟨?_, hm, he⟩, ?_⟩
  · rw [more, update_self]
    exact hstate.commit hp
  · rw [hstate.output hp, hm, he, batch, batch, more, update_self]

theorem advances_binaryJoin {operator next : NativeBinaryJoinOperator}
    (ht : (binaryJoin operator).Tracks keys ps received)
    (hc : operator.apply portId i = .ok (o, next)) :
    Advances keys ps (binaryJoin operator) (binaryJoin next) received portId i o := by
  obtain ⟨side, join, hs, rfl, rfl⟩ := NativeBinaryJoinOperator.apply_ok hc
  obtain ⟨hl, hright⟩ := ht
  obtain ⟨hown, hother, ho⟩ := KeyedEquiJoin.applySide_zset hs
  cases side with
  | left =>
    refine ⟨⟨?_, ?_⟩, ?_⟩
    · rw [more, update_self, ← hl]
      exact hown
    · rw [more, update_of_ne (by decide), ← hright]
      exact congrArg (fun side : SideState => zset side.batch.records) hother
    · rw [ho, batch, batch, more, update_self, update_of_ne (by decide),
        product_add_left, add_sub_cancel_left, ← hright]
      rfl
  | right =>
    refine ⟨⟨?_, ?_⟩, ?_⟩
    · rw [more, update_of_ne (by decide), ← hl]
      exact congrArg (fun side : SideState => zset side.batch.records) hother
    · rw [more, update_self, ← hright]
      exact hown
    · rw [ho, batch, batch, more, update_self, update_of_ne (by decide),
        product_add_right, add_sub_cancel_left, ← hl]
      rfl

theorem advances_existence (kind : ExistenceJoinKind) (wrap : ExistenceJoin → NativeOperator)
    {join next : ExistenceJoin}
    (hb : ∀ join received, (wrap join).batch received =
      ExistenceJoin.passing kind (received "left") (received "right"))
    (hw : ∀ join received, (wrap join).Tracks keys ps received ↔
      join.Tracks (received "left") (received "right") ∧ join.Within keys ps)
    (hk : KeysApart keys) (hpairs : PairsApart ps) (ht : (wrap join).Tracks keys ps received)
    (hi : RecordsIn keys ps i.records) (hc : join.apply kind portId i = (next, .ok o)) :
    Advances keys ps (wrap join) (wrap next) received portId i o := by
  obtain ⟨hstate, hwithin⟩ := (hw join received).mp ht
  obtain ⟨hn, hin, ho, -⟩ := hstate.apply hwithin hk hpairs hi hc
  have hm (side : String) : more received portId i side =
      received side + ExistenceJoin.arriving side portId i := by
    rw [more, update_apply, ExistenceJoin.arriving]
    split_ifs with hs hp hp
    · rw [hs]
    · exact absurd hs.symm hp
    · exact absurd hp.symm hs
    · rw [add_zero]
  refine ⟨(hw _ _).mpr ?_, ?_⟩
  · rw [hm, hm]
    exact ⟨hn, hin⟩
  · rw [hb, hb, hm, hm]
    exact ho

/-- Every successful call moves its operator on. -/
theorem Tracks.apply {next : NativeOperator} (hk : operator.ReadsKeys → KeysApart keys)
    (hpairs : PairsApart ps) (hb : operator.WeightBlind)
    (ht : operator.Tracks keys ps received) (hi : RecordsIn keys ps i.records)
    (hc : operator.apply portId i = (next, .ok o)) :
    Advances keys ps operator next received portId i o := by
  cases operator with
  | filter operator =>
    simp only [NativeOperator.apply, Prod.mk.injEq] at hc
    obtain ⟨rfl, hc⟩ := hc
    exact advances_filter hb hc
  | project operator =>
    simp only [NativeOperator.apply, Prod.mk.injEq] at hc
    obtain ⟨rfl, hc⟩ := hc
    exact advances_project hb hc
  | aggregate operator =>
    obtain ⟨_, ha, rfl⟩ := stepped_ok hc
    exact advances_aggregate ht ha
  | binaryJoin operator =>
    obtain ⟨_, ha, rfl⟩ := stepped_ok hc
    exact advances_binaryJoin ht ha
  | semiJoin operator =>
    simp only [NativeOperator.apply, Prod.mk.injEq] at hc
    obtain ⟨rfl, ho⟩ := hc
    exact advances_existence NativeSemiJoinOperator semiJoin (fun _ _ => rfl)
      (fun _ _ => Iff.rfl) (hk trivial) hpairs ht hi (Prod.ext rfl ho)
  | antiJoin operator =>
    simp only [NativeOperator.apply, Prod.mk.injEq] at hc
    obtain ⟨rfl, ho⟩ := hc
    exact advances_existence NativeAntiJoinOperator antiJoin (fun _ _ => rfl)
      (fun _ _ => Iff.rfl) (hk trivial) hpairs ht hi (Prod.ext rfl ho)
  | leftJoin operator | fullJoin operator | topK operator => exact absurd ht id

end NativeOperator
end Velorix.Native
