import Velorix.View.KeyedTracking

/-! Runs of views with keyed state: what a call leaves of the state, and what the state holds after
any number of calls. -/
namespace Velorix.View

open Json Delta Result Finsupp

section Calls
variable {format : ArrowFormat} {logicalEpoch : LogicalEpoch} {idempotencyKey : String}
  {inputs : List RelationInputBatch} {commit : EpochCommit}

namespace KeyedRuntime
variable {view next : KeyedRuntime}

def Made (view : KeyedRuntime) : Prop :=
  ∀ side state, view.kept side = some state → RowsMade state.make state.rows

/-- What a call leaves of the state of one relation. -/
def Applies (view next : KeyedRuntime) (inputs : List RelationInputBatch) : Prop :=
  ∀ side, (view.kept side = none → next.kept side = none) ∧
    ∀ state, view.kept side = some state → ∃ rows, next.kept side = some { state with rows } ∧
      state.side.Applies (state.side.ofRelation inputs) state.rows rows

theorem applies_of_replayed (hg : view.progress.gate logicalEpoch idempotencyKey = .ok .replayed) :
    view.Applies view (view.applied logicalEpoch idempotencyKey inputs) := by
  rw [applied, if_pos hg]
  exact fun _ => ⟨id, fun s hs => ⟨s.rows, hs, InputSide.applies_nil s.rows⟩⟩

theorem applies_of_open (hg : view.progress.gate logicalEpoch idempotencyKey = .ok .open)
    (h : view.Applies next inputs) :
    view.Applies next (view.applied logicalEpoch idempotencyKey inputs) := by
  rw [applied, hg, if_neg nofun]
  exact h

theorem applies_both {left right : KeptState} {leftRows : KeyedRows left.C}
    {rightRows : KeyedRows right.C} (hl : view.kept .left = some left)
    (hr : view.kept .right = some right)
    (hl' : next.kept .left = some { left with rows := leftRows })
    (hr' : next.kept .right = some { right with rows := rightRows })
    (h : left.side.Applies (left.side.ofRelation inputs) left.rows leftRows ∧
      right.side.Applies (right.side.ofRelation inputs) right.rows rightRows) :
    view.Applies next inputs := by
  rintro (_ | _)
  · refine ⟨fun hn => absurd (hl.symm.trans hn) nofun, fun s hs => ?_⟩
    cases hl.symm.trans hs
    exact ⟨leftRows, hl', h.1⟩
  · refine ⟨fun hn => absurd (hr.symm.trans hn) nofun, fun s hs => ?_⟩
    cases hr.symm.trans hs
    exact ⟨rightRows, hr', h.2⟩

theorem applies_left {left : KeptState} {rows : KeyedRows left.C}
    (hl : view.kept .left = some left) (hr : view.kept .right = none)
    (hl' : next.kept .left = some { left with rows }) (hr' : next.kept .right = none)
    (h : left.side.Applies (left.side.ofRelation inputs) left.rows rows) :
    view.Applies next inputs := by
  rintro (_ | _)
  · refine ⟨fun hn => absurd (hl.symm.trans hn) nofun, fun s hs => ?_⟩
    cases hl.symm.trans hs
    exact ⟨rows, hl', h⟩
  · exact ⟨fun _ => hr', fun s hs => absurd (hr.symm.trans hs) nofun⟩

/-- A call applies its inputs to the state of every relation. -/
theorem applies_of_call (hd : view.Distinct) (hm : view.Made)
    (h : view.applyChanges format logicalEpoch idempotencyKey inputs = .ok (commit, next)) :
    view.Applies next (view.applied logicalEpoch idempotencyKey inputs) := by
  cases view with
  | interval t | cross t | recursive t =>
    obtain ⟨⟨_, t'⟩, hc, h⟩ := bind_eq_ok.mp h
    cases h
    obtain ⟨_ | _, hg, hc⟩ := bind_eq_ok.mp hc
    · obtain ⟨_, -, hc⟩ := bind_eq_ok.mp hc
      cases hc
      exact applies_of_replayed hg
    · obtain ⟨_, hl, hc⟩ := bind_eq_ok.mp hc
      obtain ⟨_, -, hc⟩ := bind_eq_ok.mp hc
      obtain ⟨_, -, hc⟩ := bind_eq_ok.mp hc
      obtain ⟨_, -, hc⟩ := bind_eq_ok.mp hc
      cases hc
      refine applies_of_open hg ?_
      first
      | exact applies_both rfl rfl rfl rfl (TwoSides.applies (hd _ _ rfl rfl) hl)
      | exact applies_left rfl rfl rfl rfl (RecursiveFixpointRuntime.applies hl)
  | frame t =>
    have hend := AnalyticWindowFrameRuntime.epochEnd format (hm .left _ rfl) logicalEpoch
      idempotencyKey inputs
    rw [applyChanges] at h
    split at h
    · rename_i commit' t' hc
      cases h
      rw [hc] at hend
      cases hend with
      | unopened hg hok => exact applies_of_replayed (hok _ rfl)
      | finished hg he hdone =>
        exact applies_of_open hg (applies_left rfl rfl rfl rfl
          (AnalyticWindowFrameRuntime.applies he hdone))
    · cases h
    · cases h

variable {relations : Side → ZSet}

theorem relationsAfter_of_kept {side : Side} {s : KeptState} (h : view.kept side = some s) :
    view.relationsAfter relations inputs side =
      relations side + zset (s.side.changes (s.side.ofRelation inputs)) := by
  rw [relationsAfter, h]

theorem Applies.exists_before (h : view.Applies next inputs) {side : Side} {s : KeptState}
    (hs : next.kept side = some s) : ∃ before rows, view.kept side = some before ∧
      s = { before with rows } ∧
      before.side.Applies (before.side.ofRelation inputs) before.rows rows := by
  cases hb : view.kept side with
  | none =>
    rw [(h side).1 hb] at hs
    cases hs
  | some before =>
    obtain ⟨rows, hn, ha⟩ := (h side).2 before hb
    rw [hn] at hs
    exact ⟨before, rows, rfl, (Option.some.inj hs).symm, ha⟩

theorem Applies.made (h : view.Applies next inputs) (hm : view.Made) : next.Made := by
  intro side s hs
  obtain ⟨before, rows, hb, rfl, ha⟩ := h.exists_before hs
  exact (keyEffect_applyRecords before.overwrites (hm side before hb) ha.applied).1

theorem Applies.distinct (h : view.Applies next inputs) (hd : view.Distinct) : next.Distinct := by
  intro left right hl hr
  obtain ⟨left, _, hl', rfl, -⟩ := h.exists_before hl
  obtain ⟨right, _, hr', rfl, -⟩ := h.exists_before hr
  exact hd left right hl' hr'

theorem Applies.single (h : view.Applies next inputs) (hsingle : view.Single relations) :
    next.Single relations := by
  intro side s hs
  obtain ⟨before, _, hb, -, -⟩ := h.exists_before hs
  exact hsingle side before hb

theorem tracks_iff_of_applies (hm : view.Made) (hsingle : view.Single relations)
    (ht : view.Tracks relations) (h : view.Applies next inputs)
    (hsingle' : view.Single (view.relationsAfter relations inputs))
    (htold : view.ToldApart inputs) :
    next.Tracks (view.relationsAfter relations inputs) ↔
      view.LiveLast (view.relationsAfter relations inputs) inputs := by
  have hside {side : Side} {s : KeptState} (hs : view.kept side = some s)
      {rows : KeyedRows s.C}
      (ha : s.side.Applies (s.side.ofRelation inputs) s.rows rows) :
      RowsTrack s.make rows (view.relationsAfter relations inputs side) ↔
        LiveRowsLast (s.side.listing (s.side.ofRelation inputs))
          (view.relationsAfter relations inputs side) := by
    have hsum : view.relationsAfter relations inputs side = _ := relationsAfter_of_kept hs
    have hafter := hsingle' side s hs
    rw [← InputSide.zset_listing (htold side s hs) ha.listed] at hsum
    rw [hsum] at hafter ⊢
    exact rowsTrack_applyRecords s.overwrites (hm side s hs)
      (ht side s hs) (hsingle side s hs) hafter ha.applied
  constructor
  · intro ht' side s hs
    obtain ⟨rows, hn, ha⟩ := (h side).2 s hs
    exact (hside hs ha).mp (ht' side _ hn)
  · intro hl side s hs
    obtain ⟨before, rows, hb, rfl, ha⟩ := h.exists_before hs
    exact (hside hb ha).mpr (hl side before hb)

/-- Runs of calls that succeed, with the relations that their inputs add up to: every key has at
most one live row after each call, and the record of a live row is applied last. -/
inductive OrderlyRun (format : ArrowFormat) : KeyedRuntime → (Side → ZSet) → Prop
  | fresh {view : KeyedRuntime} (h : view.Fresh) : OrderlyRun format view 0
  | call {view next : KeyedRuntime} {relations : Side → ZSet} {logicalEpoch : LogicalEpoch}
      {idempotencyKey : String} {inputs applied : List RelationInputBatch} {commit : EpochCommit}
      (h : OrderlyRun format view relations)
      (hcall : view.applyChanges format logicalEpoch idempotencyKey inputs = .ok (commit, next))
      (happlied : applied = view.applied logicalEpoch idempotencyKey inputs)
      (hsingle : view.Single (view.relationsAfter relations applied))
      (htold : view.ToldApart applied)
      (hlast : view.LiveLast (view.relationsAfter relations applied) applied) :
      OrderlyRun format next (view.relationsAfter relations applied)

structure Sound (view : KeyedRuntime) (relations : Side → ZSet) : Prop where
  distinct : view.Distinct
  made : view.Made
  single : view.Single relations
  tracks : view.Tracks relations

theorem Fresh.sound (h : view.Fresh) : view.Sound 0 where
  distinct := h.distinct
  made := by
    intro side s hs key kept hk
    rw [h.rows side s hs] at hk
    cases hk
  single := fun _ _ _ => ⟨fun _ _ => .inl rfl, fun h => absurd h zero_ne_one⟩
  tracks := by
    intro side s hs
    rw [h.rows side s hs]
    exact ⟨fun h => absurd h zero_ne_one, fun _ => rfl⟩

theorem OrderlyRun.sound (h : OrderlyRun format view relations) : view.Sound relations := by
  induction h with
  | fresh h => exact h.sound
  | call _ hc happlied hsingle htold hl ih =>
    have ha := applies_of_call ih.distinct ih.made hc
    rw [← happlied] at ha
    exact ⟨ha.distinct ih.distinct, ha.made ih.made, ha.single hsingle,
      (tracks_iff_of_applies ih.made ih.single ih.tracks ha hsingle htold).mpr hl⟩

/-- State tracks the relations through every orderly run, and a further call keeps it so exactly if
it applies the records of live rows last. -/
theorem orderly_runs_track (h : OrderlyRun format view relations) :
    view.Tracks relations ∧ ∀ {logicalEpoch idempotencyKey inputs applied commit next},
      view.applyChanges format logicalEpoch idempotencyKey inputs = .ok (commit, next) →
      applied = view.applied logicalEpoch idempotencyKey inputs →
      view.Single (view.relationsAfter relations applied) → view.ToldApart applied →
      (next.Tracks (view.relationsAfter relations applied) ↔
        view.LiveLast (view.relationsAfter relations applied) applied) := by
  have hsound := h.sound
  refine ⟨hsound.tracks, ?_⟩
  intro logicalEpoch idempotencyKey inputs applied commit next hcall happlied hsingle htold
  have happlies := applies_of_call hsound.distinct hsound.made hcall
  rw [← happlied] at happlies
  exact tracks_iff_of_applies hsound.made hsound.single hsound.tracks happlies hsingle htold

theorem eq_of_single_eq_one {p other : Value × Value}
    (h : Finsupp.single p (1 : ℤ) other = 1) : p = other := by
  by_contra hne
  rw [single_eq_of_ne' hne] at h
  exact absurd h zero_ne_one

theorem singleRows_single (key value : Value) : SingleRows (Finsupp.single (key, value) 1) where
  weights := by
    intro key' value'
    rw [single_apply]
    split_ifs
    · exact .inr rfl
    · exact .inl rfl
  unique := by
    intro key' value' value'' h h'
    cases eq_of_single_eq_one h
    cases eq_of_single_eq_one h'
    rfl

theorem liveRowsLast_single {rs : List DeltaRecord} {key value : Value}
    (h : ∀ last, lastFor key rs = some last → last.value = value) :
    LiveRowsLast rs (Finsupp.single (key, value) 1) := by
  intro key' last value' hl hlive
  cases eq_of_single_eq_one hlive
  exact h last hl

end KeyedRuntime

end Calls

namespace AnalyticWindowFrameRuntime

/-- The amount of the order changes from 7 to another one. -/
def updateInput (amount : Fin 1000) : RelationInputBatch :=
  { plainInput 1 none with
    batches := [⟨plainCatalog.fields,
      [orderRow 7 RecursiveFixpointRuntime.minusOne, orderRow amount 1]⟩] }

def updated (amount : Fin 1000) : AnalyticWindowFrameRuntime :=
  inserted.afterEpoch plainFormat 2 "second" [updateInput amount]

open KeyedRuntime

theorem frame_applyChanges {t : AnalyticWindowFrameRuntime} {logicalEpoch : LogicalEpoch}
    {idempotencyKey : String} {inputs : List RelationInputBatch}
    (h : (t.applyChanges plainFormat logicalEpoch idempotencyKey inputs).any (·.1.isOk) = true) :
    ∃ commit, (frame t).applyChanges plainFormat logicalEpoch idempotencyKey inputs = .ok
      (commit, frame (t.afterEpoch plainFormat logicalEpoch idempotencyKey inputs)) := by
  obtain ⟨commit, hc⟩ := applyChanges_afterEpoch h
  rw [KeyedRuntime.applyChanges]
  simp only [hc]
  exact ⟨commit, rfl⟩

theorem frame_toldApart {t : AnalyticWindowFrameRuntime} {i : RelationInputBatch} {d : DeltaBatch}
    (hk : [t.plan.keyColumnId] = t.catalog.primaryKeyColumnIds) (hd : t.side.delta i = .ok d)
    (hseparated : DeltaBatch.Separated d.records) : (frame t).ToldApart [i] := by
  rintro (_ | _) s hs
  · cases hs
    refine ⟨hk, fun i' hi d' hd' => ?_⟩
    cases List.mem_singleton.mp (List.mem_filter.mp hi).1
    cases hd.symm.trans hd'
    exact hseparated
  · cases hs

section Frame
variable {t : AnalyticWindowFrameRuntime} {relations : Side → ZSet}
  {i : RelationInputBatch} {rs : List DeltaRecord} {key value : Value}

theorem frame_single (h : relations .left = Finsupp.single (key, value) 1) :
    (frame t).Single relations := by
  rintro (_ | _) s hs
  · rw [h]
    exact singleRows_single key value
  · cases hs

theorem frame_liveLast (h : relations .left = Finsupp.single (key, value) 1)
    (hl : ∀ last, lastFor key (t.side.listing (t.side.ofRelation [i])) =
      some last → last.value = value) : (frame t).LiveLast relations [i] := by
  rintro (_ | _) s hs
  · rw [h]
    cases hs
    exact liveRowsLast_single hl
  · cases hs

theorem frame_relationsAfter (h : t.side.changes (t.side.ofRelation [i]) = rs) :
    (frame t).relationsAfter relations [i] .left = relations .left + zset rs := by
  rw [← h, relationsAfter]
  rfl

end Frame

theorem inserted_run : ∃ relations, OrderlyRun plainFormat (frame inserted) relations ∧
    relations .left = Finsupp.single (orderRecord 7 1).pair 1 := by
  obtain ⟨commit, hc⟩ : ∃ commit, (frame plainFrame).applyChanges plainFormat 1 "first"
      [plainInput 0 none] = .ok (commit, frame inserted) := frame_applyChanges (by decide +kernel)
  have hchanges : plainFrame.side.changes (plainFrame.side.ofRelation [plainInput 0 none]) =
      [orderRecord 7 1] := by decide +kernel
  have hd : plainFrame.side.delta (plainInput 0 none) = .ok ⟨[orderRecord 7 1]⟩ := by
    decide +kernel
  have hafter : (frame plainFrame).relationsAfter 0 [plainInput 0 none] .left =
      Finsupp.single (orderRecord 7 1).pair 1 := by
    rw [frame_relationsAfter hchanges, zset_cons, zset_nil]
    exact (zero_add _).trans (add_zero _)
  refine ⟨_, .call (.fresh ?_) hc ?_ (frame_single hafter) (frame_toldApart rfl hd ?_)
    (frame_liveLast hafter ?_), hafter⟩
  · refine ⟨fun _ _ _ hr => ?_, ?_⟩
    · cases hr
    · rintro (_ | _) s hs <;> cases hs
      rfl
  · decide +kernel
  · unfold DeltaBatch.Separated
    decide +kernel
  · decide +kernel

theorem update_relations {relations : Side → ZSet}
    (h : relations .left = Finsupp.single (orderRecord 7 1).pair 1) {amount : Fin 1000}
    (hchanges : inserted.side.changes (inserted.side.ofRelation [updateInput amount]) =
      [orderRecord 7 RecursiveFixpointRuntime.minusOne, orderRecord amount 1]) :
    (frame inserted).relationsAfter relations [updateInput amount] .left =
      Finsupp.single (orderRecord amount 1).pair 1 := by
  have hc : Finsupp.single (orderRecord 7 1).pair (1 : ℤ) +
      Finsupp.single (orderRecord 7 RecursiveFixpointRuntime.minusOne).pair (-1) = 0 := by
    rw [← single_zero (orderRecord 7 1).pair, ← add_neg_cancel (1 : ℤ), single_add]
    rfl
  rw [frame_relationsAfter hchanges, h, zset_cons, zset_cons, zset_nil, add_zero, ← add_assoc]
  exact (congrArg (· + _) hc).trans (zero_add _)

/-- An amount that grows is tracked: its retraction is listed first. -/
theorem largerAmount_tracked : ∃ relations, (frame (updated 9)).Tracks relations ∧
    relations .left = Finsupp.single (orderRecord 9 1).pair 1 := by
  obtain ⟨relations, hrun, hleft⟩ := inserted_run
  obtain ⟨commit, hcall⟩ : ∃ commit, (frame inserted).applyChanges plainFormat 2 "second"
      [updateInput 9] = .ok (commit, frame (updated 9)) := frame_applyChanges (by decide +kernel)
  have hdelta : inserted.side.delta (updateInput 9) =
      .ok ⟨[orderRecord 7 RecursiveFixpointRuntime.minusOne, orderRecord 9 1]⟩ := by
    decide +kernel
  have hchanges : inserted.side.changes (inserted.side.ofRelation [updateInput 9]) =
      [orderRecord 7 RecursiveFixpointRuntime.minusOne, orderRecord 9 1] := by decide +kernel
  have hafter := update_relations hleft hchanges
  refine ⟨_, (orderly_runs_track (.call hrun hcall ?_ (frame_single hafter)
    (frame_toldApart (by decide +kernel) hdelta ?_) (frame_liveLast hafter ?_))).1, hafter⟩
  · decide +kernel
  · unfold DeltaBatch.Separated
    decide +kernel
  · decide +kernel

/-- An amount that shrinks is not: its insertion is listed first, and the retraction of the old
amount overwrites it. -/
theorem smallerAmount_not_tracked : ∃ relations commit,
    OrderlyRun plainFormat (frame inserted) relations ∧
    (frame inserted).applyChanges plainFormat 2 "second" [updateInput 5] =
      .ok (commit, frame (updated 5)) ∧
    (frame inserted).applied 2 "second" [updateInput 5] = [updateInput 5] ∧
    (frame inserted).Single ((frame inserted).relationsAfter relations [updateInput 5]) ∧
    (frame inserted).ToldApart [updateInput 5] ∧
    ¬ (frame (updated 5)).Tracks ((frame inserted).relationsAfter relations [updateInput 5]) := by
  obtain ⟨relations, hrun, hleft⟩ := inserted_run
  obtain ⟨commit, hcall⟩ : ∃ commit, (frame inserted).applyChanges plainFormat 2 "second"
      [updateInput 5] = .ok (commit, frame (updated 5)) := frame_applyChanges (by decide +kernel)
  have hdelta : inserted.side.delta (updateInput 5) =
      .ok ⟨[orderRecord 7 RecursiveFixpointRuntime.minusOne, orderRecord 5 1]⟩ := by
    decide +kernel
  have hchanges : inserted.side.changes (inserted.side.ofRelation [updateInput 5]) =
      [orderRecord 7 RecursiveFixpointRuntime.minusOne, orderRecord 5 1] := by decide +kernel
  have hafter := update_relations hleft hchanges
  refine ⟨relations, commit, hrun, hcall, by decide +kernel, frame_single hafter,
    frame_toldApart (by decide +kernel) hdelta ?_, fun htracks => ?_⟩
  · unfold DeltaBatch.Separated
    decide +kernel
  · have hlive : (frame inserted).relationsAfter relations [updateInput 5] .left
        (orderRecord 5 1).pair = 1 := by
      rw [hafter, single_eq_same]
    obtain ⟨fields, hfields, hfind⟩ := (htracks .left _ rfl).live hlive
    have hstored : ((updated 5).rows.find? (canonicalJson (smallValue 1))).map
        (·.content.values.find? "amount") = some (some (smallValue 7)) := by decide +kernel
    have hrow : (updated 5).rows.find? (canonicalJson (smallValue 1)) =
      some ⟨makeRow (updated 5).plan (smallValue 1) fields, 1⟩ := hfind
    rw [hrow] at hstored
    have hvalue : (orderRecord 5 1).value.asObject.map (·.find? "amount") =
        some (some (smallValue 5)) := by decide +kernel
    rw [show (orderRecord 5 1).value.asObject = some fields from hfields] at hvalue
    have hsame : smallValue 7 = smallValue 5 :=
      Option.some.inj (Option.some.inj (hstored.symm.trans hvalue))
    exact absurd hsame (by decide +kernel)

end AnalyticWindowFrameRuntime

end Velorix.View
