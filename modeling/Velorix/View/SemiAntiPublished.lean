import Velorix.View.SemiAntiJoin

/-! What a view over a semi or anti join publishes: the projections of the rows that its join
retains. A restored view recomputes them from the rows of the join. -/
namespace Velorix.View

open Json Delta Native WeightedSet Result TwoInputSemiAntiJoinRuntime DeltaBatch List

def projectedPair (plan : SupportedFilterProjectPlan) (pair : Value × Value) : Option (Value × Value) :=
  (projectPair plan pair).toOption

/-- Keys, rows and projected rows are told apart by their texts. -/
structure ToldApart (plan : SupportedFilterProjectPlan) (keys : Set Value) (pairs : Set (Value × Value)) :
    Prop where
  keysApart : KeysApart keys
  pairsApart : PairsApart pairs
  imagesApart : PairsApart {image | ∃ pair ∈ pairs, projectPair plan pair = .ok image}

section Projection
variable {plan : SupportedFilterProjectPlan} {rs : List DeltaRecord} {b projected : DeltaBatch}

theorem projectRecord_ok {r image : DeltaRecord} (h : projectRecord plan r = .ok image) :
    projectPair plan r.pair = .ok image.pair ∧ image.weight = r.weight := by
  obtain ⟨p, hp, h⟩ := bind_eq_ok.mp h
  cases h
  exact ⟨hp, rfl⟩

section
variable (h : projectFilterProjectDeltaBatch b plan = .ok projected)
include h

theorem zset_project : zset projected.records = mapped (projectedPair plan) (zset b.records) := by
  obtain ⟨images, hi, h⟩ := bind_eq_ok.mp h
  cases h
  apply zset_eq_mapped
  apply (mapM_eq_ok.mp hi).imp
  intro r image himage
  obtain ⟨hp, hw⟩ := projectRecord_ok himage
  exact ⟨toOption_eq_some.mpr hp, hw⟩

theorem exists_of_mem_project {image : DeltaRecord} (himage : image ∈ projected.records) :
    ∃ r ∈ b.records, projectPair plan r.pair = .ok image.pair ∧ image.weight = r.weight := by
  obtain ⟨images, hi, h⟩ := bind_eq_ok.mp h
  cases h
  obtain ⟨r, hr, hproject⟩ := exists_of_mem_mapM hi himage
  exact ⟨r, hr, projectRecord_ok hproject⟩

theorem projects_of_mem
    {r : DeltaRecord} (hr : r ∈ b.records) : ∃ image, projectPair plan r.pair = .ok image := by
  obtain ⟨images, hi, -⟩ := bind_eq_ok.mp h
  obtain ⟨image, -, himage⟩ := exists_mem_of_mapM hi hr
  exact ⟨_, (projectRecord_ok himage).1⟩

end

end Projection

/-- The published rows are the projections of the rows that the join retains, each of them once. -/
structure Published (plan : SemiAntiJoinProjectPlan) (pairs : Set (Value × Value))
    (join : ExistenceJoin) (published : DeltaBatch) : Prop where
  consolidated : DeltaBatch.Consolidated published.records
  once : ∀ row ∈ published.records, row.weight.val = 1
  rows : zset published.records = mapped (projectedPair plan.projection)
    (join.retained plan.joinKind.definition)
  projects : ∀ pair, join.retained plan.joinKind.definition pair ≠ 0 →
    ∃ image, projectPair plan.projection pair = .ok image
  within : ∀ row ∈ published.records, ∃ pair ∈ pairs,
    projectPair plan.projection pair = .ok row.pair

theorem applyPublishedOutputDelta_ok {current d next : DeltaBatch}
    (h : applyPublishedOutputDelta current d = .ok next) :
    (current.combine d).netRows = .ok next.records ∧ ∀ row ∈ next.records, row.weight.val = 1 := by
  obtain ⟨rows, hr, h⟩ := bind_eq_ok.mp h
  split_ifs at h with ha
  cases h
  refine ⟨of_mapError_ok hr, fun row hrow => ?_⟩
  by_contra hne
  exact ha (any_eq_true.mpr ⟨row, hrow, by simpa using hne⟩)

section Published
variable {plan : SemiAntiJoinProjectPlan} {keys : Set Value} {ps : Set (Value × Value)}
  {join next : ExistenceJoin} {published later o d : DeltaBatch}

theorem published_new (plan : SemiAntiJoinProjectPlan) (n : String) :
    Published plan ps (.new n) .empty where
  consolidated := consolidated_nil
  once := fun _ h => absurd h not_mem_nil
  rows := by
    have hn : ExistenceJoin.retained plan.joinKind.definition (.new n) = 0 := by
      rw [ExistenceJoin.retained, ExistenceJoin.new, DeltaBatch.empty, zset_nil,
        ExistenceJoin.passing, kept_zero]
    rw [hn, mapped_zero]
    rfl
  projects := by
    intro p hp
    rw [ExistenceJoin.retained, ExistenceJoin.new, DeltaBatch.empty, zset_nil,
      ExistenceJoin.passing, kept_zero] at hp
    exact absurd rfl hp
  within := fun _ h => absurd h not_mem_nil

/-- An output that is the difference of what is retained keeps the published rows in step. -/
theorem Published.publish (h : Published plan ps join published)
    (hapart : ToldApart plan.projection keys ps) (ho : RecordsIn keys ps o.records)
    (hd : zset o.records = next.retained plan.joinKind.definition -
      join.retained plan.joinKind.definition)
    (hproject : projectFilterProjectDeltaBatch o plan.projection = .ok d)
    (happly : applyPublishedOutputDelta published d = .ok later) :
    Published plan ps next later := by
  obtain ⟨hnet, honce⟩ := applyPublishedOutputDelta_ok happly
  have hw : ∀ row ∈ (published.combine d).records, ∃ p ∈ ps,
      projectPair plan.projection p = .ok row.pair := by
    intro row hrow
    rcases mem_append.mp hrow with hrow | hrow
    · exact h.within row hrow
    · obtain ⟨r, hr, hp, -⟩ := exists_of_mem_project hproject hrow
      exact ⟨r.pair, (ho r hr).2, hp⟩
  have hs : DeltaBatch.Separated (published.combine d).records :=
    fun a ha b hb hc => hapart.imagesApart _ (hw a ha) _ (hw b hb) hc
  refine ⟨consolidated_netRows hnet, honce, ?_, ?_, ?_⟩
  · rw [hs.zset_netRows hnet, DeltaBatch.combine, zset_append, h.rows,
      zset_project hproject, hd, mapped_sub, add_sub_cancel]
  · intro p hp
    by_cases hbefore : join.retained plan.joinKind.definition p = 0
    · have he : zset o.records p ≠ 0 := by
        rw [hd, Finsupp.sub_apply, hbefore, sub_zero]
        exact hp
      obtain ⟨r, hr, rfl⟩ : ∃ r ∈ o.records, r.pair = p := by
        by_contra hn
        push Not at hn
        exact he ((zset_apply _ _).trans (pairWeight_eq_zero hn))
      exact projects_of_mem hproject hr
    · exact h.projects p hbefore
  · intro row hrow
    obtain ⟨hf, -, -⟩ := (mem_netRows hnet).mp hrow
    obtain ⟨a, ha, hp⟩ := Option.map_eq_some_iff.mp hf
    rw [← hp]
    exact hw a (mem_of_find?_eq_some ha)

end Published

/-- The left rows that pass, in the order in which the join holds them. -/
def retainedRows (kind : ExistenceJoinKind) (join : ExistenceJoin) : List DeltaRecord :=
  join.leftState.records.filter fun row => ExistenceJoin.Passes kind
    (weightAt DeltaRecord.key (fun right => right.weight.val) row.key join.rightState.records)

section Expected
variable {keys : Set Value} {ps : Set (Value × Value)} {kind : ExistenceKind}
  {join : ExistenceJoin} {plan : SemiAntiJoinProjectPlan} {published : DeltaBatch}

@[simp]
theorem zset_retainedRows (kind : ExistenceJoinKind) (join : ExistenceJoin) :
    zset (retainedRows kind join) = join.retained kind := by
  refine zset_filter (fun key => ExistenceJoin.Passes kind
    (keyWeight (zset join.rightState.records) key)) fun row _ => ?_
  rw [decide_eq_true_eq, keyWeight_zset]

/-- Rows with positive weights are counted, if their sum fits. -/
theorem addRightCount_rows {rows : List DeltaRecord} {count : I64} (hc : 0 ≤ count.val)
    (hp : ∀ row ∈ rows, 0 < row.weight.val)
    (hf : count.val + (rows.map fun row => row.weight.val).sum < 2 ^ 63) :
    ∃ total : I64, rows.foldlM addRightCount count = .ok total ∧
      total.val = count.val + (rows.map fun row => row.weight.val).sum := by
  induction rows generalizing count with
  | nil => exact ⟨count, rfl, (add_zero _).symm⟩
  | cons row rows ih =>
    have hrow := hp row mem_cons_self
    have hr : ∀ row ∈ rows, 0 < row.weight.val := fun other ho =>
      hp other (mem_cons_of_mem row ho)
    have hs : 0 ≤ (rows.map fun row => row.weight.val).sum := by
      refine sum_nonneg fun w hw => ?_
      obtain ⟨other, ho, rfl⟩ := mem_map.mp hw
      exact (hr other ho).le
    rw [map_cons, sum_cons] at hf ⊢
    obtain ⟨next, hnext⟩ : ∃ next, count.checkedAdd row.weight = some next := by
      have hb : SInt.Fits 64 (count.val + row.weight.val) := by
        constructor <;> omega
      exact ⟨.ofFits _ hb, SInt.ofInt?_eq_some.mpr rfl⟩
    have hv : next.val = count.val + row.weight.val := SInt.ofInt?_eq_some.mp hnext
    have hn : 0 ≤ next.val := by omega
    obtain ⟨total, ht, he⟩ := ih hn hr (by omega)
    refine ⟨total, ?_, by omega⟩
    rw [foldlM_cons, addRightCount, if_neg (by omega), hnext]
    exact ht

theorem expectedRow_ok (h : join.Settled keys ps) (hk : KeysApart keys) {row : DeltaRecord}
    (hrow : row ∈ join.leftState.records) :
    expectedRow kind join.rightState.records row =
      .ok (if ExistenceJoin.Passes kind.definition (weightAt DeltaRecord.key
        (fun right => right.weight.val) row.key join.rightState.records)
      then some row else none) := by
  have hf : (join.rightState.records.filter fun right => right.key.eq row.key) =
      join.rightState.records.filter fun right => decide (right.key = row.key) := by
    apply filter_congr
    intro right hr
    rw [Bool.eq_iff_iff, hk.eq_iff (h.within.right right hr).1 (h.within.left row hrow).1,
      decide_eq_true_eq]
  have hc := h.counted row.key
  rw [keyWeight_zset, weightAt] at hc
  have hz : (0 : I64).val = 0 := rfl
  obtain ⟨total, ht, hv⟩ := addRightCount_rows (le_of_eq hz.symm)
    (fun right hr => h.sound.right.positive right (mem_filter.mp hr).1)
    (by rwa [hz, zero_add])
  rw [hz, zero_add] at hv
  have hn : ¬ row.weight.val < 0 := not_lt.mpr (h.sound.left.positive row hrow).le
  have hretains : TwoInputSemiAntiJoinRuntime.retains kind total = true ↔
      ExistenceJoin.Passes kind.definition (weightAt DeltaRecord.key
        (fun right => right.weight.val) row.key join.rightState.records) := by
    rw [weightAt, ← hv]
    cases kind <;> exact decide_eq_true_iff
  rw [expectedRow, if_neg hn, hf, ht, ok_bind]
  by_cases hp : TwoInputSemiAntiJoinRuntime.retains kind total = true
  · rw [if_pos hp, if_pos (hretains.mp hp)]
    rfl
  · rw [if_neg hp, if_neg (fun h => hp (hretains.mpr h))]
    rfl

theorem expectedSemiAntiOutput_ok (h : join.Settled keys ps) (hk : KeysApart keys)
    (hn : join.nodeId = semiAntiJoinNodeId) (e : UInt64) :
    expectedSemiAntiOutput
      ⟨1, e, [join.checkpoint kind.definition]⟩ kind = .ok ⟨retainedRows kind.definition join⟩ := by
  have hf : [join.checkpoint kind.definition].find? (·.nodeId = semiAntiJoinNodeId) =
      some (join.checkpoint kind.definition) :=
    find?_cons_of_pos (decide_eq_true hn)
  obtain ⟨o, ho, hr⟩ : ∃ o, join.leftState.records.mapM
      (expectedRow kind join.rightState.records) = .ok o ∧
        o.filterMap id = retainedRows kind.definition join :=
    mapM_select fun row hrow => expectedRow_ok h hk hrow
  rw [expectedSemiAntiOutput, hf]
  show (do
    let rightRows ← join.rightState.netRows.mapError fun _ => invalidCheckpoint
    let leftRows ← join.leftState.netRows.mapError fun _ => invalidCheckpoint
    let o ← leftRows.mapM (expectedRow kind rightRows)
    return (⟨o.filterMap id⟩ : DeltaBatch)) = _
  rw [h.sound.right.consolidated.netRows, h.sound.left.consolidated.netRows]
  show (do
    let o ← join.leftState.records.mapM
      (expectedRow kind join.rightState.records)
    return (⟨o.filterMap id⟩ : DeltaBatch)) = _
  rw [ho, ok_bind, hr]
  rfl

end Expected

theorem records_eq_of_eq {rs others : List DeltaRecord}
    (hs : ∀ a ∈ rs, ∀ b ∈ others, a.key.eq b.key = true → a.value.eq b.value = true →
      a.pair = b.pair) (h : eqRecords rs others = true) : rs = others := by
  induction rs generalizing others with
  | nil =>
    cases others with
    | nil => rfl
    | cons other others => cases h
  | cons a rs ih =>
    cases others with
    | nil => cases h
    | cons b others =>
      simp only [eqRecords, DeltaRecord.eq, Bool.and_eq_true, beq_iff_eq] at h
      obtain ⟨⟨hk, hv, hw⟩, hr⟩ := h
      have hp := hs a mem_cons_self b mem_cons_self hk hv
      have ht := ih (fun c hc d hd => hs c (mem_cons_of_mem a hc) d
        (mem_cons_of_mem b hd)) hr
      obtain ⟨ka, va, wa⟩ := a
      obtain ⟨kb, vb, wb⟩ := b
      cases hp
      cases hw
      rw [ht]

end Velorix.View
