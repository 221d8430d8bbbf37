import Velorix.Native.Incremental

/-! A graph of one semi or anti join. What an epoch emits is the difference that it makes to the
rows that the join retains, and the checkpoint of the graph brings it back. -/
namespace Velorix.Native

open Json Delta WeightedSet NativeOperatorGraph Result SortedMap List

inductive ExistenceKind
  | semi
  | anti
  deriving DecidableEq

namespace ExistenceKind

def definition : ExistenceKind → ExistenceJoinKind
  | semi => NativeSemiJoinOperator
  | anti => NativeAntiJoinOperator

def operator : ExistenceKind → ExistenceJoin → NativeOperator
  | semi, join => .semiJoin join
  | anti, join => .antiJoin join

/-- The graph whose only operator is a join. -/
def graph (kind : ExistenceKind) (logicalEpoch : UInt64) (join : ExistenceJoin) :
    NativeOperatorGraph :=
  { new.setOperator (kind.operator join) with logicalEpoch }

variable (kind : ExistenceKind) (e : UInt64) (join : ExistenceJoin)

@[simp] theorem operator_nodeId : (kind.operator join).nodeId = join.nodeId := by
  cases kind <;> rfl

theorem operator_apply (portId : String) (i : DeltaBatch) :
    (kind.operator join).apply portId i = (kind.operator (join.apply kind.definition portId i).1,
        (join.apply kind.definition portId i).2) := by
  cases kind <;> rfl

@[simp]
theorem operator_checkpoint :
    (kind.operator join).checkpoint = join.checkpoint kind.definition := by
  cases kind <;> rfl

theorem operator_restore (c : NativeOperatorCheckpointV1) :
    (kind.operator join).restore c = kind.operator <$> join.restore kind.definition c := by
  cases kind <;> rfl

theorem find?_graph (nodeId : String) : (kind.graph e join).operators.find? nodeId =
    if join.nodeId = nodeId then some (kind.operator join) else none := by
  show ((∅ : SortedMap String NativeOperator).insert (kind.operator join).nodeId
    (kind.operator join)).find? nodeId = _
  rw [operator_nodeId, find?_insert, find?_empty]

theorem graph_entries : (kind.graph e join).operators.entries =
    [(join.nodeId, kind.operator join)] := by
  show [((kind.operator join).nodeId, kind.operator join)] = _
  rw [operator_nodeId]

variable {kind e join} {next : ExistenceJoin}

theorem graph_setOperator (h : next.nodeId = join.nodeId) :
    (kind.graph e join).setOperator (kind.operator next) = kind.graph e next := by
  have ho : ((kind.graph e join).setOperator (kind.operator next)).operators =
      (kind.graph e next).operators := by
    apply SortedMap.ext
    intro nodeId
    show ((kind.graph e join).operators.insert (kind.operator next).nodeId
      (kind.operator next)).find? nodeId = _
    rw [find?_graph, operator_nodeId, find?_insert, find?_graph, h]
    split_ifs <;> rfl
  unfold graph at ho ⊢
  simp only [setOperator] at ho ⊢
  congr 1

end ExistenceKind

theorem NonNegative.positive {b : DeltaBatch} (h : NonNegative b) :
    ∀ row ∈ b.records, 0 < row.weight.val := by
  intro row hr
  have hn := h.nonNegative
  rw [hasNegative, any_eq_false] at hn
  have hnn := hn row hr
  have hnonzero := h.consolidated.nonzero row hr
  rw [decide_eq_true_eq] at hnn
  omega

namespace ExistenceJoin

noncomputable def retained (kind : ExistenceJoinKind) (join : ExistenceJoin) : ZSet :=
  passing kind (zset join.leftState.records) (zset join.rightState.records)

/-- Rows are consolidated and told apart, and the rows of a key can be counted. -/
structure Settled (keys : Set Value) (pairs : Set (Value × Value)) (join : ExistenceJoin) :
    Prop where
  sound : Sound join
  within : Within keys pairs join
  counted : ∀ key, keyWeight (zset join.rightState.records) key < 2 ^ 63

section Calls
variable {keys : Set Value} {ps : Set (Value × Value)} {kind : ExistenceJoinKind}
  {join next : ExistenceJoin} {portId : String} {i o : DeltaBatch}

theorem settled_new (nodeId : String) : Settled keys ps (new nodeId) where
  sound := ⟨nonNegative_empty, nonNegative_empty⟩
  within := ⟨recordsIn_nil, recordsIn_nil⟩
  counted := by
    intro key
    rw [new, DeltaBatch.empty, zset_nil, keyWeight, weighted_zero]
    decide

theorem exists_count_of_applyRight (h : applyRight kind join i = (next, .ok o))
    {key : Value} (hkey : key ∈ touchedKeys i) : ∃ before after,
      countForKey kind.negative join.rightState key = .ok before ∧
      countForKey kind.negative (join.rightState.combine i) key = .ok after := by
  obtain ⟨rightRows, changes, -, -, hc, -, -⟩ := applyRight_ok h
  refine foldlM_ok_induct (P := fun seen (_ : DeltaBatch) => ∀ key ∈ seen, ∃ before after,
    countForKey kind.negative join.rightState key = .ok before ∧
    countForKey kind.negative (join.rightState.combine i) key = .ok after) hc ?_ ?_ key
    hkey
  · intro key hkey
    cases hkey
  · intro seen _ touched _ hseen hs key hkey
    rcases mem_append.mp hkey with hkey | hkey
    · exact hseen key hkey
    · cases mem_singleton.mp hkey
      simp only [addTransition, bind_eq_ok] at hs
      obtain ⟨before, hb, after, ha, -⟩ := hs
      exact ⟨before, after, hb, ha⟩

theorem Settled.apply (h : Settled keys ps join) (hk : KeysApart keys)
    (hp : PairsApart ps) (hi : RecordsIn keys ps i.records)
    (hc : join.apply kind portId i = (next, .ok o)) :
    Settled keys ps next ∧ next.nodeId = join.nodeId ∧
      zset o.records = retained kind next - retained kind join ∧ RecordsIn keys ps o.records := by
  obtain ⟨ht, hw, hd, ho⟩ :=
    Tracks.apply ⟨h.sound, rfl, rfl⟩ h.within hk hp hi hc
  rw [← ht.leftRows, ← ht.rightRows] at hd
  refine ⟨⟨ht.sound, hw, ?_⟩, ?_, hd, ho⟩
  · rcases apply_ok hc with ⟨-, ha⟩ | ⟨rfl, ha⟩
    · obtain ⟨net, leftRows, -, -, -, -, rfl⟩ := applyLeft_ok ha
      exact h.counted
    · intro key
      by_cases hkey : key ∈ touchedKeys i
      · obtain ⟨-, count, -, hcount⟩ := exists_count_of_applyRight ha hkey
        obtain ⟨r, hr, rfl⟩ := mem_map.mp (mem_touchedKeys.mp hkey)
        obtain ⟨rightRows, changes, hright, -, -, -, rfl⟩ := applyRight_ok ha
        obtain ⟨-, hv⟩ := countForKey_ok hk hright (fun r hr => (hw.right r hr).1)
          (hi r hr).1 hcount
        rw [← hv]
        exact count.val_fits.2
      · rw [ht.rightRows, arriving, if_pos rfl, keyWeight_untouched hkey]
        exact h.counted key
  · have hn := nodeId_apply kind join portId i
    rwa [hc] at hn

end Calls

end ExistenceJoin

namespace ExistenceKind

open ExistenceJoin

section Epochs
variable {keys : Set Value} {ps : Set (Value × Value)} {kind : ExistenceKind}
  {e epoch : UInt64} {start join : ExistenceJoin} {i : NativeOperatorInputV1}
  {queue ins : List NativeOperatorInputV1} {sinks outs : SortedMap String DeltaBatch}
  {s final : EpochState} {later : NativeOperatorGraph}

theorem deliver_graph (h : deliver ⟨kind.graph e join, queue, sinks⟩ i = .ok s) :
    ∃ next o, join.apply kind.definition i.portId i.batch = (next, .ok o) ∧
      s = ⟨(kind.graph e join).setOperator (kind.operator next), queue,
        sinks.insert join.nodeId (((sinks.find? join.nodeId).getD .empty).combine o)⟩ := by
  obtain ⟨operator, o, hf, -, ho, rfl⟩ := deliver_ok h
  rw [find?_graph] at hf
  split_ifs at hf with hn
  cases hf
  rw [operator_apply] at ho ⊢
  rw [← hn]
  exact ⟨_, o, Prod.ext rfl ho, rfl⟩

/-- What has reached the sink since an epoch started. -/
structure Emitted (keys : Set Value) (pairs : Set (Value × Value)) (kind : ExistenceKind)
    (start join : ExistenceJoin) (sinks : SortedMap String DeltaBatch) : Prop where
  settled : Settled keys pairs join
  nodeId : join.nodeId = start.nodeId
  recordsIn : RecordsIn keys pairs ((sinks.find? join.nodeId).getD .empty).records
  difference : zset ((sinks.find? join.nodeId).getD .empty).records =
    retained kind.definition join - retained kind.definition start

theorem Emitted.deliver (h : Emitted keys ps kind start join sinks) (hk : KeysApart keys)
    (hp : PairsApart ps) (hi : RecordsIn keys ps i.batch.records)
    (hdeliver : NativeOperatorGraph.deliver ⟨kind.graph e join, queue, sinks⟩ i = .ok s) :
    ∃ next sinks', s = ⟨kind.graph e next, queue, sinks'⟩ ∧
      Emitted keys ps kind start next sinks' := by
  obtain ⟨next, o, hc, rfl⟩ := deliver_graph hdeliver
  obtain ⟨hs, hn, hd, ho⟩ := h.settled.apply hk hp hi hc
  refine ⟨next, _, by rw [graph_setOperator hn], hs, hn.trans h.nodeId, ?_, ?_⟩
  · rw [hn, find?_insert_self]
    exact h.recordsIn.append ho
  · rw [hn, find?_insert_self, Option.getD_some, DeltaBatch.combine, zset_append,
      hd, h.difference]
    exact sub_add_sub_cancel' _ _ _

theorem Emitted.drain {fuel : ℕ} (h : Emitted keys ps kind start join sinks)
    (hk : KeysApart keys) (hp : PairsApart ps) (hq : ∀ i ∈ queue, RecordsIn keys ps i.batch.records)
    (hd : NativeOperatorGraph.drain fuel ⟨kind.graph e join, queue, sinks⟩ = some (.ok final)) :
    ∃ next sinks', final = ⟨kind.graph e next, [], sinks'⟩ ∧
      Emitted keys ps kind start next sinks' := by
  obtain ⟨hr, he⟩ := drain_ok hd
  -- along the loop, the queue only gets shorter
  have hrun : ∃ next queue' sinks', final = ⟨kind.graph e next, queue', sinks'⟩ ∧
      (∀ i ∈ queue', RecordsIn keys ps i.batch.records) ∧
      Emitted keys ps kind start next sinks' := by
    clear hd he
    induction hr with
    | refl => exact ⟨join, queue, sinks, rfl, hq, h⟩
    | tail _ hs ih =>
      obtain ⟨now, waiting, sinks', rfl, hw, hnow⟩ := ih
      obtain ⟨i, rest, rfl, hdeliver⟩ := hs
      obtain ⟨next, sinks'', rfl, hn⟩ :=
        hnow.deliver hk hp (hw i mem_cons_self) hdeliver
      exact ⟨next, rest, sinks'', rfl, fun other ho => hw other (mem_cons_of_mem _ ho), hn⟩
  obtain ⟨next, _, sinks', rfl, -, hn⟩ := hrun
  cases he
  exact ⟨next, sinks', rfl, hn⟩

theorem emitted_start (h : Settled keys ps join) : Emitted keys ps kind join join ∅ where
  settled := h
  nodeId := rfl
  recordsIn := recordsIn_nil
  difference := (sub_self _).symm

/-- An epoch emits the difference that it makes to the rows that are retained. -/
theorem applyEpoch_graph (h : Settled keys ps join) (hk : KeysApart keys) (hp : PairsApart ps)
    (hins : ∀ i ∈ ins, RecordsIn keys ps i.batch.records)
    (hepoch : (kind.graph e join).applyEpoch epoch ins = some (later, .ok outs)) :
    ∃ next, later = kind.graph epoch next ∧ Settled keys ps next ∧ next.nodeId = join.nodeId ∧
      RecordsIn keys ps ((outs.find? join.nodeId).getD .empty).records ∧
      zset ((outs.find? join.nodeId).getD .empty).records =
        retained kind.definition next - retained kind.definition join := by
  obtain ⟨loop, hloop, ⟨error, -, hf⟩ | ⟨final, rfl, hl, hc⟩⟩ :=
    applyEpochInner_cases (applyEpoch_ok hepoch).2
  · cases hf
  · have hq : ∀ i ∈ sortInputs ins, RecordsIn keys ps i.batch.records :=
      fun i hi =>
        hins i ((perm_insertionSort _ ins).mem_iff.mp hi)
    obtain ⟨next, sinks, rfl, he⟩ := (emitted_start h).drain hk hp hq hloop
    refine ⟨next, hl, he.settled, he.nodeId, ?_⟩
    rw [← he.nodeId]
    rcases consolidateSinks_ok hc.symm next.nodeId with
      ⟨hn, hn'⟩ | ⟨b, rows, hs, hr, ho⟩
    · have hin := he.recordsIn
      have hd := he.difference
      rw [hn] at hin hd
      rw [hn']
      exact ⟨hin, hd⟩
    · have hin := he.recordsIn
      have hd := he.difference
      rw [hs, Option.getD_some] at hin hd
      rw [ho, Option.getD_some]
      exact ⟨hin.netRows hr, ((hin.separated hp).zset_netRows hr).trans hd⟩

end Epochs

section Restore
variable {kind : ExistenceKind} {e : UInt64} {join : ExistenceJoin}

@[simp]
theorem graph_validate (kind : ExistenceKind) (e : UInt64) (join : ExistenceJoin) :
    (kind.graph e join).validate = .ok () := by
  cases kind <;> rfl

@[simp]
theorem graph_checkpoint (kind : ExistenceKind) (e : UInt64) (join : ExistenceJoin) :
    (kind.graph e join).checkpoint = .ok ⟨1, e, [join.checkpoint kind.definition]⟩ := by
  rw [NativeOperatorGraph.checkpoint, graph_validate, ok_bind, SortedMap.values,
    graph_entries, ← operator_checkpoint]
  rfl

/-- A fresh graph that takes the checkpoint over is the graph of the checkpoint. -/
theorem graph_restore {fresh : ExistenceJoin} (h : Sound join) (hn : fresh.nodeId = join.nodeId) :
    (kind.graph 0 fresh).restore ⟨1, e, [join.checkpoint kind.definition]⟩ =
      (kind.graph e join, .ok ()) := by
  have hj : (kind.operator fresh).restore (join.checkpoint kind.definition) =
      .ok (kind.operator join) := by
    rw [operator_restore, h.restore hn]
    rfl
  have hf : (SortedMap.ofList ([join.checkpoint kind.definition].map
      fun c => (c.nodeId, c))).find? fresh.nodeId = some (join.checkpoint kind.definition) := by
    rw [hn]
    exact find?_insert_self ..
  have ho : restoreOperators (SortedMap.ofList
      ([join.checkpoint kind.definition].map fun c => (c.nodeId, c)))
      (kind.graph 0 fresh).operators.entries (kind.graph 0 fresh) =
      (kind.graph 0 join, .ok ()) := by
    rw [graph_entries]
    simp only [restoreOperators, hf, hj]
    rw [graph_setOperator hn.symm]
  have hs : (kind.graph 0 fresh).operators.size = 1 := by
    rw [SortedMap.size, graph_entries]
    rfl
  have hi : (kind.graph 0 fresh).restoreInner
      ⟨1, e, [join.checkpoint kind.definition]⟩ =
      (kind.graph e join, .ok ()) := by
    simp only [restoreInner, hs, ho, ne_eq, not_true_eq_false, if_false, length_singleton]
    rfl
  rw [NativeOperatorGraph.restore, graph_validate, graph_checkpoint]
  simp only [hi]

end Restore

end ExistenceKind

end Velorix.Native
