import Velorix.Native.ExistenceGraph

/-! Runs of a semi and an anti join over the same batches. Both take and refuse the same calls, a
call that fails changes nothing, and what both have emitted are the left rows. -/
namespace Velorix.Native.ExistenceJoin

open Json Delta WeightedSet Result List

variable {keys : Set Value} {ps : Set (Value × Value)} {kind other : ExistenceJoinKind}
  {join next : ExistenceJoin} {left right : ZSet} {portId nodeId : String}
  {input output : DeltaBatch}

theorem countForKey_other {negative : NativeOperatorError} {s : DeltaBatch} {key : Value}
    {count : I64} (other : NativeOperatorError) (h : countForKey negative s key = .ok count) :
    countForKey other s key = .ok count := by
  obtain ⟨net, hnet, h⟩ := bind_eq_ok.mp h
  rw [countForKey, hnet, ok_bind]
  generalize net.filter (fun row => row.key.eq key) = rows at h ⊢
  generalize (0 : I64) = start at h ⊢
  induction rows generalizing start with
  | nil => exact h
  | cons row rows ih =>
    obtain ⟨sum, hsum, h⟩ := bind_eq_ok.mp h
    have ho : addCount other start row = .ok sum := by
      unfold addCount at hsum ⊢
      split_ifs at hsum ⊢
      split at hsum
      · exact hsum
      · cases hsum
    rw [foldlM_cons, ho]
    exact ih sum h

theorem signedRowsForKey_total (negative : NativeOperatorError) {retained : DeltaBatch}
    (h : NonNegative retained) (key : Value) {sign : I64} (hs : sign.val = 1 ∨ sign.val = -1) :
    ∃ rows, signedRowsForKey negative .ok retained key sign = .ok rows := by
  obtain ⟨rows, hrows⟩ : ∃ rows, (retained.records.filter fun row => row.key.eq key).mapM
      (signedRow negative .ok sign) = .ok rows := by
    refine mapM_ok_of_forall fun row hrow => ?_
    have hpos := h.positive row (mem_filter.mp hrow).1
    have hf := SInt.fits64_iff.mp row.weight.val_fits
    obtain ⟨weight, hw⟩ : ∃ weight, row.weight.checkedMul sign = some weight := by
      refine ⟨.ofFits (row.weight.val * sign.val) (SInt.fits64_iff.mpr ?_), ?_⟩
      · rcases hs with hs | hs <;> rw [hs] <;> omega
      · exact SInt.ofInt?_eq_some.mpr rfl
    refine ⟨⟨row.key, row.value, weight⟩, ?_⟩
    rw [signedRow, if_neg (by omega)]
    simp only [liftOperator, hw]
    rfl
  refine ⟨⟨rows⟩, ?_⟩
  rw [signedRowsForKey, h.netRows, ok_bind, hrows]
  rfl

theorem applyLeft_other (other : ExistenceJoinKind) (nodeId : String)
    (h : applyLeft kind join input = .ok (output, next)) :
    ∃ output', applyLeft other { join with nodeId } input =
      .ok (output', { next with nodeId }) := by
  obtain ⟨net, leftRows, hnet, hl, hn, hout, rfl⟩ := applyLeft_ok h
  have hv : validateNonNegative other (join.leftState.combine input) = .ok () := by
    rw [validateNonNegative, hl, ok_bind, hn.nonNegative]
    rfl
  obtain ⟨rows, hrows⟩ : ∃ rows,
      (net.filterMap (selectRow other join.rightState)).mapM id = .ok rows := by
    refine mapM_ok_of_forall fun result hr => ?_
    obtain ⟨row, hrow, hs⟩ := mem_filterMap.mp hr
    obtain ⟨error, he⟩ | ⟨count, hc, -⟩ :
      (∃ error, selectRow kind join.rightState row = some (.error error)) ∨ _ := selectRow_cases
    · have hmem := mem_filterMap.mpr ⟨row, hrow, he⟩
      rw [mapM_id_eq_ok.mp hout] at hmem
      obtain ⟨_, -, hf⟩ := mem_map.mp hmem
      cases hf
    · rw [selectRow, countForKey_other other.negative hc] at hs
      simp only at hs
      split_ifs at hs
      cases hs
      exact ⟨row, rfl⟩
  refine ⟨⟨rows⟩, ?_⟩
  simp only [applyLeft, hv, hnet, hrows, hl, ok_bind]
  rfl

theorem exists_transitions (kind : ExistenceJoinKind) (h : Sound join) (after : DeltaBatch)
    (touched : List Value) (hc : ∀ key ∈ touched, ∃ before later,
      countForKey kind.negative join.rightState key = .ok before ∧
      countForKey kind.negative after key = .ok later) :
    ∃ changes, touched.foldlM (addTransition kind.negative .ok join.rightState after join.leftState
      (if kind.keepsMatched then 1 else minusOne)
      (if kind.keepsMatched then minusOne else 1)) .empty = .ok changes := by
  refine (foldlM_total (P := fun _ _ => True) trivial ?_).imp fun _ hchanges => hchanges.1
  intro seen changes key rest hsplit _
  obtain ⟨before, later, hb, hl⟩ := hc key (by simp [hsplit])
  have ha {sign : I64} (hs : sign.val = 1 ∨ sign.val = -1) : ∃ changes', (do
      let rows ← signedRowsForKey kind.negative .ok join.leftState key sign
      return changes.combine rows) = .ok changes' ∧ True := by
    obtain ⟨rows, hrows⟩ := signedRowsForKey_total kind.negative h.left key hs
    exact ⟨_, by rw [hrows, ok_bind]; rfl, trivial⟩
  simp only [addTransition, hb, hl, ok_bind]
  split_ifs <;> first | exact ha (by decide) | exact ⟨changes, rfl, trivial⟩

section Calls
variable (h : Tracks join left right) (hw : Within keys ps join) (hk : KeysApart keys)
  (hps : PairsApart ps) (hinput : RecordsIn keys ps input.records)
include h hw hk hps hinput

theorem Tracks.exists_netRows {rightRows : List DeltaRecord} {changes : DeltaBatch}
    (hr : Native.netRows (join.rightState.combine input) = .ok rightRows)
    (hchanges : (touchedKeys input).foldlM (addTransition kind.negative .ok join.rightState
      (join.rightState.combine input) join.leftState (if kind.keepsMatched then 1 else minusOne)
      (if kind.keepsMatched then minusOne else 1)) .empty = .ok changes) :
    ∃ rows, Native.netRows changes = .ok rows := by
  obtain ⟨hz, hin⟩ := combine_netRows hw.right hinput hps hr
  rw [h.rightRows] at hz
  have hc := h.transitions hw hk hinput hr hz hin hchanges
  have hd : changes.records.Pairwise fun a b => a.encoding ≠ b.encoding :=
    (pairwise_map.mp hc.nodup).imp_of_mem fun ha hb hne hcode =>
      hne (hps _ (hc.recordsIn _ ha).2 _ (hc.recordsIn _ hb).2 hcode)
  exact (DeltaBatch.netRows_of_distinct hd).imp fun _ => netRows_eq_ok.mpr

/-- A right batch either fails before it changes anything, or succeeds. -/
theorem Tracks.applyRight_error {error : NativeOperatorError}
    (hc : ExistenceJoin.applyRight kind join input = (next, .error error)) : next = join := by
  unfold ExistenceJoin.applyRight at hc
  simp only at hc
  split at hc
  · exact (Prod.mk.inj hc).1.symm
  · rename_i changes rightState hp
    simp only [bind_eq_ok] at hp
    obtain ⟨_, -, changes', hchanges, rightRows, hr, hp⟩ := hp
    cases hp
    obtain ⟨rows, hrows⟩ := h.exists_netRows hw hk hps hinput hr hchanges
    rw [hrows] at hc
    cases hc

theorem Tracks.applyRight_other (other : ExistenceJoinKind) (nodeId : String)
    (hc : ExistenceJoin.applyRight kind join input = (next, .ok output)) :
    ∃ output', ExistenceJoin.applyRight other { join with nodeId } input =
      ({ next with nodeId }, .ok output') := by
  obtain ⟨rightRows, -, hr, hn, -, -, rfl⟩ := applyRight_ok hc
  have hv : validateNonNegative other (join.rightState.combine input) = .ok () := by
    rw [validateNonNegative, hr, ok_bind, hn.nonNegative]
    rfl
  obtain ⟨changes, hchanges⟩ := exists_transitions other h.sound
    (join.rightState.combine input) (touchedKeys input) fun key hkey => by
      obtain ⟨before, later, hb, hl⟩ := exists_count_of_applyRight hc hkey
      exact ⟨before, later, countForKey_other _ hb, countForKey_other _ hl⟩
  obtain ⟨rows, hrows⟩ := h.exists_netRows hw hk hps hinput hr hchanges
  refine ⟨⟨rows⟩, ?_⟩
  simp only [ExistenceJoin.applyRight, hv, hchanges, hr, ok_bind, pure_eq_ok, hrows]
  rfl

theorem Tracks.apply_other (other : ExistenceJoinKind) (nodeId : String)
    (hc : join.apply kind portId input = (next, .ok output)) :
    ∃ output', { join with nodeId }.apply other portId input =
      ({ next with nodeId }, .ok output') := by
  rcases apply_ok hc with ⟨rfl, ha⟩ | ⟨rfl, ha⟩
  · obtain ⟨output', hout⟩ := applyLeft_other other nodeId ha
    exact ⟨output', by rw [ExistenceJoin.apply, if_pos rfl, hout]⟩
  · obtain ⟨output', hout⟩ :=
      h.applyRight_other hw hk hps hinput other nodeId ha
    exact ⟨output', by rw [ExistenceJoin.apply, if_neg (by decide), if_pos rfl, hout]⟩

theorem Tracks.apply_error {error : NativeOperatorError}
    (hc : join.apply kind portId input = (next, .error error)) : next = join := by
  unfold ExistenceJoin.apply at hc
  split_ifs at hc
  · split at hc
    · cases hc
    · exact (Prod.mk.inj hc).1.symm
  · exact h.applyRight_error hw hk hps hinput hc
  · exact (Prod.mk.inj hc).1.symm

/-- Joins of both kinds that hold the same rows take a call or refuse it together, and a call that
is refused changes nothing. -/
theorem Tracks.apply_cases (kind other : ExistenceJoinKind) (portId nodeId : String) :
    (∃ next output output', join.apply kind portId input = (next, .ok output) ∧
      { join with nodeId }.apply other portId input = ({ next with nodeId }, .ok output')) ∨
    ∃ error error', join.apply kind portId input = (join, .error error) ∧
      { join with nodeId }.apply other portId input = ({ join with nodeId }, .error error') := by
  have ht : Tracks { join with nodeId } left right :=
    ⟨⟨h.sound.left, h.sound.right⟩, h.leftRows, h.rightRows⟩
  have hw' : Within keys ps { join with nodeId } := ⟨hw.left, hw.right⟩
  rcases hc : join.apply kind portId input with ⟨next, error | output⟩
  · rcases ho : { join with nodeId }.apply other portId input with ⟨next', error' | output'⟩
    · cases h.apply_error hw hk hps hinput hc
      cases ht.apply_error hw' hk hps hinput ho
      exact .inr ⟨error, error', rfl, ho⟩
    · obtain ⟨_, hok⟩ := ht.apply_other hw' hk hps hinput kind join.nodeId ho
      cases hc.symm.trans hok
  · obtain ⟨output', ho⟩ := h.apply_other hw hk hps hinput other nodeId hc
    exact .inl ⟨next, output, output', rfl, ho⟩

end Calls

/-- The calls of a run that succeed, each with its output, and the join after the run. -/
def applyEach (kind : ExistenceJoinKind) (join : ExistenceJoin) :
    List (String × DeltaBatch) → ExistenceJoin × List ((String × DeltaBatch) × DeltaBatch)
  | [] => (join, [])
  | (portId, input) :: rest =>
    match join.apply kind portId input with
    | (next, .ok output) =>
      let run := applyEach kind next rest
      (run.1, ((portId, input), output) :: run.2)
    | (next, .error _) => applyEach kind next rest

/-- What batches have added to a side. -/
noncomputable def received (side : String) (inputs : List (String × DeltaBatch)) : ZSet :=
  (inputs.map fun input => arriving side input.1 input.2).sum

/-- What calls have emitted. -/
noncomputable def emitted (calls : List ((String × DeltaBatch) × DeltaBatch)) : ZSet :=
  (calls.map fun call => zset call.2.records).sum

/-- A run tracks what it has received and has emitted the difference that it made, and a join of
the other kind makes the same run. -/
theorem Tracks.applyEach {ins : List (String × DeltaBatch)} (h : Tracks join left right)
    (hw : Within keys ps join) (hk : KeysApart keys) (hps : PairsApart ps)
    (hi : ∀ input ∈ ins, RecordsIn keys ps input.2.records)
    (kind other : ExistenceJoinKind) (nodeId : String) : ∃ final cs cs',
      join.applyEach kind ins = (final, cs) ∧
      { join with nodeId }.applyEach other ins = ({ final with nodeId }, cs') ∧
      cs'.map Prod.fst = cs.map Prod.fst ∧ Within keys ps final ∧
      Tracks final (left + received "left" (cs.map Prod.fst))
        (right + received "right" (cs.map Prod.fst)) ∧
      emitted cs = passing kind (left + received "left" (cs.map Prod.fst))
        (right + received "right" (cs.map Prod.fst)) - passing kind left right := by
  induction ins generalizing join left right with
  | nil =>
    refine ⟨join, [], [], rfl, rfl, rfl, hw, ?_⟩
    simpa [received, emitted] using h
  | cons input ins ih =>
    obtain ⟨portId, input⟩ := input
    have hinput := hi _ mem_cons_self
    have hr : ∀ input ∈ ins, RecordsIn keys ps input.2.records :=
      fun input hinput => hi input (mem_cons_of_mem _ hinput)
    rcases h.apply_cases hw hk hps hinput kind other portId nodeId with
      ⟨next, output, output', hc, ho⟩ | ⟨_, _, hc, ho⟩
    · obtain ⟨hn, hin, hout, -⟩ := h.apply hw hk hps hinput hc
      obtain ⟨final, cs, cs', hrun, hrun', hcalls, hf, ht, he⟩ :=
        ih hn hin hr
      refine ⟨final, ((portId, input), output) :: cs, ((portId, input), output') :: cs', ?_,
        ?_, by rw [map_cons, hcalls, map_cons], hf, ?_⟩
      · rw [ExistenceJoin.applyEach, hc]
        simp only [hrun]
      · rw [ExistenceJoin.applyEach, ho]
        simp only [hrun']
      · rw [emitted] at he
        simp only [received, emitted, map_cons, sum_cons, ← add_assoc] at ht he ⊢
        refine ⟨ht, ?_⟩
        rw [he, hout]
        abel
    · rw [ExistenceJoin.applyEach, hc, ExistenceJoin.applyEach, ho]
      exact ih h hw hr

/-- What a semi and an anti join have in common after the same batches, and what they have
emitted. -/
structure SemiAntiExact (keys : Set Value) (ps : Set (Value × Value))
    (semi anti : ExistenceJoin × List ((String × DeltaBatch) × DeltaBatch)) : Prop where
  sameCalls : semi.2.map Prod.fst = anti.2.map Prod.fst
  /-- The next call succeeds for both or changes nothing. -/
  together : ∀ portId input, RecordsIn keys ps input.records →
    (∃ output output', (semi.1.apply NativeSemiJoinOperator portId input).2 = .ok output ∧
      (anti.1.apply NativeAntiJoinOperator portId input).2 = .ok output') ∨
    ∃ error error', semi.1.apply NativeSemiJoinOperator portId input = (semi.1, .error error) ∧
      anti.1.apply NativeAntiJoinOperator portId input = (anti.1, .error error')
  semiOutput : emitted semi.2 =
    kept (fun key => 0 < keyWeight (received "right" (semi.2.map Prod.fst)) key)
      (received "left" (semi.2.map Prod.fst))
  antiOutput : emitted semi.2 + emitted anti.2 = received "left" (semi.2.map Prod.fst)
  positive : ∀ row ∈ semi.1.leftState.records ++ semi.1.rightState.records ++
    anti.1.leftState.records ++ anti.1.rightState.records, 0 < row.weight.val

theorem keyWeight_nonneg {b : DeltaBatch} (h : NonNegative b) (key : Value) :
    0 ≤ keyWeight (zset b.records) key := by
  rw [keyWeight_zset, weightAt]
  refine sum_nonneg fun weight hw => ?_
  obtain ⟨row, hrow, rfl⟩ := mem_map.mp hw
  exact (h.positive row (mem_filter.mp hrow).1).le

@[simp]
theorem passing_zero (kind : ExistenceJoinKind) : passing kind 0 0 = 0 := kept_zero _

theorem semi_anti_exact (hk : KeysApart keys) (hps : PairsApart ps)
    {inputs : List (String × DeltaBatch)}
    (hinputs : ∀ input ∈ inputs, RecordsIn keys ps input.2.records) (semiId antiId : String) :
    SemiAntiExact keys ps ((new semiId).applyEach NativeSemiJoinOperator inputs)
      ((new antiId).applyEach NativeAntiJoinOperator inputs) := by
  have hstart (nodeId : String) : Tracks (new nodeId) 0 0 ∧ Within keys ps (new nodeId) :=
    ⟨⟨⟨nonNegative_empty, nonNegative_empty⟩, rfl, rfl⟩, recordsIn_nil, recordsIn_nil⟩
  obtain ⟨final, calls, calls', hsemi, hanti, hsame, hw, htracks, hemitted⟩ :=
    (hstart semiId).1.applyEach (hstart semiId).2 hk hps hinputs NativeSemiJoinOperator
      NativeAntiJoinOperator antiId
  obtain ⟨_, calls'', _, hanti', -, -, -, -, hemitted'⟩ :=
    (hstart antiId).1.applyEach (hstart antiId).2 hk hps hinputs NativeAntiJoinOperator
      NativeSemiJoinOperator semiId
  have hanti : (new antiId).applyEach NativeAntiJoinOperator inputs = _ := hanti
  cases hanti.symm.trans hanti'
  rw [hsemi, hanti]
  rw [hsame] at hemitted'
  simp only [zero_add, passing_zero, sub_zero] at htracks hemitted hemitted'
  have hcount (key : Value) : 0 ≤ keyWeight (received "right" (calls.map Prod.fst)) key := by
    rw [← htracks.rightRows]
    exact keyWeight_nonneg htracks.sound.right key
  refine ⟨hsame.symm, fun portId input hinput => ?_, ?_, ?_, ?_⟩
  · rcases htracks.apply_cases hw hk hps hinput NativeSemiJoinOperator
      NativeAntiJoinOperator portId antiId with
      ⟨_, output, output', hcall, hother⟩ | hfailed
    · exact .inl ⟨output, output', congrArg Prod.snd hcall, congrArg Prod.snd hother⟩
    · exact .inr hfailed
  · exact hemitted
  · ext pair
    rw [hemitted, hemitted', Finsupp.add_apply, passing_apply, passing_apply, ← add_mul]
    rcases (hcount pair.1).lt_or_eq with hpos | hzero
    · rw [passed_pos hpos, passed_pos hpos]
      exact one_mul _
    · rw [← hzero, passed_zero, passed_zero]
      exact one_mul _
  · intro row hrow
    simp only [mem_append] at hrow
    rcases hrow with ((hrow | hrow) | hrow) | hrow
    · exact htracks.sound.left.positive row hrow
    · exact htracks.sound.right.positive row hrow
    · exact htracks.sound.left.positive row hrow
    · exact htracks.sound.right.positive row hrow

/-- A left batch and a right batch, one after the other. -/
def bothSides (left right : List DeltaRecord) : List (String × DeltaBatch) :=
  [("left", ⟨left⟩), ("right", ⟨right⟩)]

/-- Rows of two keys find partners, and one of them loses its partner again. -/
def partnerLost : List (String × DeltaBatch) :=
  bothSides [⟨.string "a", .null, 1⟩, ⟨.string "b", .null, 1⟩]
    [⟨.string "a", .null, 1⟩, ⟨.string "b", .null, 1⟩] ++
    [("right", ⟨[⟨.string "b", .null, ⟨-1, SInt.minusOne_lo, SInt.minusOne_hi⟩⟩]⟩)]

theorem matchedRow_exact : SemiAntiExact {.string "a", .string "b"}
    {(.string "a", .null), (.string "b", .null)}
    ((new "semi").applyEach NativeSemiJoinOperator partnerLost)
    ((new "anti").applyEach NativeAntiJoinOperator partnerLost) := by
  refine semi_anti_exact ?_ ?_ ?_ "semi" "anti"
  · rintro _ (rfl | rfl) _ (rfl | rfl) h
    · rfl
    · exact absurd h (by decide)
    · exact absurd h (by decide)
    · rfl
  · rintro _ (rfl | rfl) _ (rfl | rfl) h
    · rfl
    · exact absurd h (by decide)
    · exact absurd h (by decide)
    · rfl
  · intro input hinput r hr
    simp only [partnerLost, bothSides, cons_append, nil_append, mem_cons, not_mem_nil,
      or_false] at hinput
    rcases hinput with rfl | rfl | rfl <;>
      simp only [mem_cons, not_mem_nil, or_false] at hr
    · rcases hr with rfl | rfl
      · exact ⟨.inl rfl, .inl rfl⟩
      · exact ⟨.inr rfl, .inr rfl⟩
    · rcases hr with rfl | rfl
      · exact ⟨.inl rfl, .inl rfl⟩
      · exact ⟨.inr rfl, .inr rfl⟩
    · cases hr
      exact ⟨.inr rfl, .inr rfl⟩

/-- A left row, and two partners whose keys are the two zeros. -/
def zeroSides : List (String × DeltaBatch) :=
  bothSides [⟨NativeOperatorGraph.zeroKey, .string "row", 1⟩]
    [⟨NativeOperatorGraph.zeroKey, .null, 1⟩, ⟨NativeOperatorGraph.minusZeroKey, .null, 1⟩]

/-- Both zeros are touched and both find the left row, which the semi join emits twice. -/
theorem zeroSides_emits_twice :
    (∀ a ∈ zeroSides.flatMap (·.2.records), ∀ b ∈ zeroSides.flatMap (·.2.records),
      a.encoding = b.encoding → a.pair = b.pair) ∧
    ((new "semi").applyEach NativeSemiJoinOperator zeroSides).2.map (·.2.records) =
      [[], [⟨NativeOperatorGraph.zeroKey, .string "row", .ofFits 2 (by decide)⟩]] := by
  decide +kernel

end Velorix.Native.ExistenceJoin
