import Velorix.Foundation.FloorMap
import Velorix.Foundation.ReplaceFirst
import Velorix.View.Staging

/-! Temporal (as-of) joins: every left row is matched with a right row of the latest event time up
to its own. Right rows that are superseded are evicted, and the output does not tell. -/
namespace Velorix.View

open Json Delta SortedMap List

abbrev Fields := SortedMap String Value

structure TemporalRow where
  values : Fields
  eventTimeNs : I64
  weight : I64

/-- Rows by join key and event time. Rows with equal values are one row with a weight, and no time
without rows is kept. -/
abbrev TemporalIndex := NestedMap String I64 (List TemporalRow)

def TemporalIndex.at (index : TemporalIndex) (key : String) (time : I64) : List TemporalRow :=
  (index.get key time).getD []

structure TemporalJoinOutputColumn where
  side : Side
  columnId : String
  outputName : String

structure TemporalJoinPlan where
  leftJoinColumnId : String
  rightJoinColumnId : String
  leftEventTimeColumnId : String
  rightEventTimeColumnId : String
  outputColumns : List TemporalJoinOutputColumn

/-- One input relation of a temporal join. The fields name it in errors. -/
structure TemporalSide where
  joinColumnId : String
  eventTimeColumnId : String
  keyField : String
  timeField : String

def TemporalJoinPlan.left (plan : TemporalJoinPlan) : TemporalSide :=
  ⟨plan.leftJoinColumnId, plan.leftEventTimeColumnId, "temporal_join_left_key",
    "temporal_join_left_event_time"⟩

def TemporalJoinPlan.right (plan : TemporalJoinPlan) : TemporalSide :=
  ⟨plan.rightJoinColumnId, plan.rightEventTimeColumnId, "temporal_join_right_key",
    "temporal_join_right_event_time"⟩

def sameValues (a b : Fields) : Bool := (Value.object a).eq (Value.object b)

/-- The weight of the row with these values changes. -/
def addToRow (rows : List TemporalRow) (values : Fields) (sum : I64) : List TemporalRow :=
  rows.replaceF fun row => if sameValues row.values values then some { row with weight := sum }
    else none

/-- What a record makes of the rows of its key and time. A record of weight zero does not occur in
net rows. -/
def changeRows (rows : List TemporalRow) (values : Fields) (eventTime weight : I64) :
    Except RuntimeError (List TemporalRow) :=
  if 0 < weight.val then
    match rows.find? (sameValues ·.values values) with
    | some existing =>
      match existing.weight.checkedAdd weight with
      | some sum => .ok (addToRow rows values sum)
      | none => .error invalidRuntimeState
    | none => .ok (rows ++ [⟨values, eventTime, weight⟩])
  else if weight.val < 0 then
    match rows.find? (sameValues ·.values values) with
    | some existing =>
      match existing.weight.checkedAdd weight with
      | some sum =>
        if sum.val < 0 then .error invalidRuntimeState
        else .ok ((addToRow rows values sum).filter (·.weight ≠ 0))
      | none => .error invalidRuntimeState
    | none => .error invalidRuntimeState
  else .ok rows

/-- A time without rows is dropped, and a key without times. -/
def TemporalIndex.put (index : TemporalIndex) (key : String) (time : I64)
    (rows : List TemporalRow) : TemporalIndex :=
  index.set key time (if rows.isEmpty then none else some rows)

def orField {α : Type} (field : String) : Option α → Except RuntimeError α
  | some a => .ok a
  | none => .error (.invalidProgramIdentity field)

/-- The source has this once for each side. -/
def TemporalSide.applyRecord (side : TemporalSide) (index : TemporalIndex) (record : DeltaRecord) :
    Except RuntimeError TemporalIndex := do
  let cell columnId := record.value.asObject.bind (·.find? columnId)
  let key ← orField side.keyField ((cell side.joinColumnId).bind Value.asStr)
  let eventTime ← orField side.timeField ((cell side.eventTimeColumnId).bind Value.asI64)
  if eventTime.val = -2 ^ 63 then .error (.invalidProgramIdentity "temporal_join_event_time_overflow")
  else
    let values ← orMissing record.value.asObject
    let rows ← changeRows (index.at key eventTime) values eventTime record.weight
    return index.put key eventTime rows

/-- The times of a key that has left rows: below the one that the earliest left row is matched
with, those up to the watermark are dropped. -/
def evictBelowFloor (watermark earliestLeft : I64) (times : SortedMap I64 (List TemporalRow)) :
    SortedMap I64 (List TemporalRow) :=
  let floor := times.floor? earliestLeft
  let belowWatermark := times.keys.filter (· ≤ watermark)
  if belowWatermark.isEmpty then times
  else
    let kept := match floor with
      | some floorTime =>
        times.filter fun time _ => ¬ (time ∈ belowWatermark ∧ time < floorTime)
      | none => times
    kept.filter fun _ rows => !rows.isEmpty

/-- The times of a key without left rows: if all are up to the watermark, only the latest one is
kept. -/
def evictOrphan (watermark : I64) (times : SortedMap I64 (List TemporalRow)) :
    SortedMap I64 (List TemporalRow) :=
  let kept := match times.keys.max? with
    | some mostRecent =>
      if mostRecent ≤ watermark then times.filter fun time _ => ¬ time < mostRecent else times
    | none => times
  kept.filter fun _ rows => !rows.isEmpty

def minimumWatermark (frontiers : List InputEventTimeFrontier) : Option I64 :=
  (frontiers.map (·.watermarkNs)).min?

def evictWith (watermark : I64) (leftRows rightIndex : TemporalIndex) : TemporalIndex :=
  let evicted := rightIndex.mapRows (fun key times =>
    match (leftRows.row key).keys.head? with
    | some earliestLeft => evictBelowFloor watermark earliestLeft times
    | none => times.filter fun _ rows => !rows.isEmpty) rightIndex.rows.keys
  evicted.mapRows (fun _ times => evictOrphan watermark times)
    (evicted.rows.keys.filter fun key => (leftRows.rows.find? key).isNone)

def evictRightIndex (rightIndex leftRows : TemporalIndex)
    (frontiers : List InputEventTimeFrontier) : TemporalIndex :=
  match minimumWatermark frontiers with
  | some watermark => if 0 < watermark.val then evictWith watermark leftRows rightIndex
    else rightIndex
  | none => rightIndex

/-- Of the rows of one time, the one with the least text is matched. -/
def leastRow (rows : List TemporalRow) : Option TemporalRow :=
  (rows.filter (0 < ·.weight.val)).argmin fun row => canonicalJson (.object row.values)

/-- The right row that a left row is matched with. -/
def findMatch (right : TemporalIndex) (key : String) (time : I64) : Option TemporalRow :=
  ((right.row key).floor? time).bind fun floorTime =>
    ((right.row key).find? floorTime).bind leastRow

/-- The projected row. Its key is the whole row. -/
def outputPair (plan : TemporalJoinPlan) (left right : Fields) : Value × Value :=
  let output := plan.outputColumns.map fun item =>
    let value := match item.side with
      | .left => left.find? item.columnId
      | .right => right.find? item.columnId
    (item.outputName, value.getD .null)
  (.object (.ofList output), noValues)

def matchRecord (plan : TemporalJoinPlan) (right : TemporalIndex) (key : String)
    (left : TemporalRow) : Option DeltaRecord :=
  if left.weight.val ≤ 0 then none
  else (findMatch right key left.eventTimeNs).map fun row =>
    let pair := outputPair plan left.values row.values
    ⟨pair.1, pair.2, left.weight⟩

def recomputeFromStaged (plan : TemporalJoinPlan) (left right : TemporalIndex) : DeltaBatch :=
  ⟨left.rows.entries.flatMap fun entry =>
    entry.2.values.flatten.filterMap (matchRecord plan right entry.1)⟩

/-- The rows of the two sides after any records and evictions. An epoch applies the net rows of its
inputs, which have no weight zero, and then evicts. -/
inductive Reached (plan : TemporalJoinPlan) : TemporalIndex → TemporalIndex → Prop
  | empty : Reached plan ∅ ∅
  | left {left next right : TemporalIndex} (h : Reached plan left right) (record : DeltaRecord)
      (hweight : record.weight ≠ 0) (hnext : plan.left.applyRecord left record = .ok next) :
      Reached plan next right
  | right {left right next : TemporalIndex} (h : Reached plan left right) (record : DeltaRecord)
      (hweight : record.weight ≠ 0) (hnext : plan.right.applyRecord right record = .ok next) :
      Reached plan left next
  | evicted {left right : TemporalIndex} (h : Reached plan left right)
      (frontiers : List InputEventTimeFrontier) :
      Reached plan left (evictRightIndex right left frontiers)

/-- The rows of a time have that time, and no time is without rows. -/
def TemporalIndex.Filed (index : TemporalIndex) : Prop :=
  ∀ key time rows, index.get key time = some rows →
    rows ≠ [] ∧ ∀ row ∈ rows, row.eventTimeNs = time

section Records
variable {rows next : List TemporalRow} {values : Fields} {time weight : I64}

theorem times_addToRow (h : ∀ row ∈ rows, row.eventTimeNs = time) (sum : I64) :
    ∀ row ∈ addToRow rows values sum, row.eventTimeNs = time := by
  intro row hrow
  rcases mem_replaceF hrow with hrow | ⟨before, hbefore, hsame⟩
  · exact h row hrow
  · split_ifs at hsame
    cases hsame
    exact h before hbefore

theorem times_changeRows (h : ∀ row ∈ rows, row.eventTimeNs = time)
    (hnext : changeRows rows values time weight = .ok next) :
    ∀ row ∈ next, row.eventTimeNs = time := by
  unfold changeRows at hnext
  split_ifs at hnext
  · split at hnext
    · split at hnext
      · cases hnext
        exact times_addToRow h _
      · cases hnext
    · cases hnext
      simpa [or_imp, forall_and] using h
  · split at hnext
    · split at hnext
      · split_ifs at hnext
        cases hnext
        exact fun row hrow => times_addToRow h _ row (mem_filter.mp hrow).1
      · cases hnext
    · cases hnext
  · cases hnext
    exact h

theorem TemporalIndex.Filed.at {index : TemporalIndex} (h : index.Filed) (key : String)
    (time : I64) : ∀ row ∈ index.at key time, row.eventTimeNs = time := by
  unfold TemporalIndex.at
  cases hrows : index.get key time with
  | none => simp
  | some rows => exact (h key time rows hrows).2

theorem TemporalIndex.Filed.applyRecord {side : TemporalSide} {index next : TemporalIndex}
    {record : DeltaRecord} (h : index.Filed) (hnext : side.applyRecord index record = .ok next) :
    next.Filed := by
  obtain ⟨key, -, hnext⟩ := Result.bind_eq_ok.mp hnext
  obtain ⟨time, -, hnext⟩ := Result.bind_eq_ok.mp hnext
  split_ifs at hnext
  obtain ⟨values, -, hnext⟩ := Result.bind_eq_ok.mp hnext
  obtain ⟨rows, hrows, hnext⟩ := Result.bind_eq_ok.mp hnext
  cases hnext
  intro key' time' rows' hget
  rw [TemporalIndex.put, NestedMap.get_set] at hget
  split_ifs at hget with hplace hempty
  · cases hget
    obtain ⟨-, rfl⟩ := hplace
    exact ⟨fun hnil => hempty (by simp [hnil]), times_changeRows (h.at key time) hrows⟩
  · exact h key' time' rows' hget

end Records

section Eviction
variable {watermark earliest : I64} {times kept held : SortedMap I64 (List TemporalRow)}

/-- Nothing is kept that was not there. -/
def Within (times kept : SortedMap I64 (List TemporalRow)) : Prop :=
  ∀ time rows, kept.find? time = some rows → times.find? time = some rows

theorem Within.filter (h : Within times kept) (keep : I64 → List TemporalRow → Bool) :
    Within times (kept.filter keep) := fun time rows hf => h time rows (find?_filter.mp hf).1

theorem Within.evictBelowFloor (h : Within times kept) :
    Within times (evictBelowFloor watermark earliest kept) := by
  unfold View.evictBelowFloor
  dsimp only
  split_ifs
  · exact h
  · split
    · exact (h.filter _).filter _
    · exact h.filter _

theorem Within.evictOrphan (h : Within times kept) : Within times (evictOrphan watermark kept) := by
  unfold View.evictOrphan
  dsimp only
  split
  · split_ifs
    · exact (h.filter _).filter _
    · exact h.filter _
  · exact h.filter _

theorem within_evictWith (watermark : I64) (left right : TemporalIndex) (key : String) :
    Within (right.row key) ((evictWith watermark left right).row key) := by
  refine NestedMap.row_mapRows (fun _ row h => h.evictOrphan)
    (NestedMap.row_mapRows (fun _ row h => ?_) fun _ _ h => h)
  split
  · exact h.evictBelowFloor
  · exact h.filter _

/-- From a time on, `kept` leads to the same right rows as `times`. -/
def MatchesFrom (earliest : I64) (times kept : SortedMap I64 (List TemporalRow)) : Prop :=
  ∀ time, earliest ≤ time →
    (kept.floor? time).bind kept.find? = (times.floor? time).bind times.find?

/-- No left row loses its match. -/
theorem matchesFrom_evictBelowFloor (ho : ∀ time, kept.find? time ≠ some []) :
    MatchesFrom earliest kept (evictBelowFloor watermark earliest kept) := by
  intro time ht
  have hrows (k : I64) (rows : List TemporalRow) (h : kept.find? k = some rows) :
      (!rows.isEmpty) = true := by
    cases rows with
    | nil => exact absurd h (ho k)
    | cons => rfl
  unfold View.evictBelowFloor
  dsimp only
  split_ifs
  · rfl
  cases hf : kept.floor? earliest with
  | none => exact floor?_filter fun k rows _ => hrows k rows
  | some floor =>
    obtain ⟨hk, hb⟩ := mem_of_floor? hf
    obtain ⟨_, hlast, hle⟩ := le_floor? hk (hb.trans ht)
    refine (floor?_filter fun k rows _ hv => hrows k rows (find?_filter.mp hv).1).trans ?_
    refine floor?_filter fun k _ hl _ => decide_eq_true fun he => ?_
    cases hlast.symm.trans hl
    exact he.2.not_ge hle

theorem findMatch_evictWith {left right : TemporalIndex} {key : String} {time : I64}
    (ho : ∀ time, (right.row key).find? time ≠ some []) (hf : left.rows.find? key = some held)
    (ht : time ∈ held.keys) :
    findMatch (evictWith watermark left right) key time = findMatch right key time := by
  obtain ⟨earliest, rest, hk⟩ := exists_cons_of_ne_nil (ne_nil_of_mem ht)
  have hle : earliest ≤ time := by
    have hs := held.keys_sorted
    rw [hk] at hs ht
    rcases mem_cons.mp ht with rfl | ht
    · exact le_rfl
    · exact (rel_of_pairwise_cons hs ht).le
  -- every replacement of the row keeps the matches, and has rows at all its times
  let P row := Within (right.row key) row ∧ MatchesFrom earliest (right.row key) row
  have hm : P ((evictWith watermark left right).row key) := by
    refine NestedMap.row_mapRows (fun hk => ?_) (NestedMap.row_mapRows (P := P)
      (fun _ row h => ?_) ⟨fun _ _ h => h, fun _ _ => rfl⟩)
    · simp [hf] at hk
    · simp only [NestedMap.row, hf, Option.getD_some, hk, head?_cons]
      refine ⟨h.1.evictBelowFloor, fun t ht => ?_⟩
      exact (matchesFrom_evictBelowFloor (fun t hn => ho t (h.1 t [] hn)) t ht).trans (h.2 t ht)
  unfold findMatch
  rw [← Option.bind_assoc, hm.2 time hle, Option.bind_assoc]

end Eviction

variable {plan : TemporalJoinPlan} {left right : TemporalIndex}

theorem evictRightIndex_cases (left right : TemporalIndex)
    (frontiers : List InputEventTimeFrontier) : evictRightIndex right left frontiers = right ∨
      ∃ watermark, evictRightIndex right left frontiers = evictWith watermark left right := by
  unfold evictRightIndex
  split
  · split_ifs
    · exact .inr ⟨_, rfl⟩
    · exact .inl rfl
  · exact .inl rfl

theorem TemporalIndex.Filed.evictRightIndex (h : right.Filed)
    (frontiers : List InputEventTimeFrontier) : (evictRightIndex right left frontiers).Filed := by
  rcases evictRightIndex_cases left right frontiers with he | ⟨watermark, he⟩
  · rwa [he]
  · rw [he]
    exact fun key time rows hget => h key time rows (within_evictWith _ _ _ key time rows hget)

theorem Reached.filed (h : Reached plan left right) : left.Filed ∧ right.Filed := by
  induction h with
  | empty => exact ⟨fun _ _ _ h => (nomatch h), fun _ _ _ h => (nomatch h)⟩
  | left _ _ _ hnext ih => exact ⟨ih.1.applyRecord hnext, ih.2⟩
  | right _ _ _ hnext ih => exact ⟨ih.1, ih.2.applyRecord hnext⟩
  | evicted _ frontiers ih => exact ⟨ih.1, ih.2.evictRightIndex frontiers⟩

/-- What is evicted is not seen in the output. -/
theorem recompute_evicted (h : Reached plan left right)
    (frontiers : List InputEventTimeFrontier) :
    recomputeFromStaged plan left (evictRightIndex right left frontiers) =
      recomputeFromStaged plan left right := by
  obtain ⟨hl, hr⟩ := h.filed
  refine congrArg DeltaBatch.mk (flatMap_congr fun (key, held) he =>
    filterMap_congr fun row hrow => ?_)
  obtain ⟨rows, hrows, hrow⟩ := mem_flatten.mp hrow
  obtain ⟨⟨time, _⟩, hc, rfl⟩ := mem_map.mp hrows
  cases (hl key time _ (NestedMap.get_of_mem he hc)).2 row hrow
  have hm : findMatch (evictRightIndex right left frontiers) key row.eventTimeNs =
      findMatch right key row.eventTimeNs := by
    rcases evictRightIndex_cases left right frontiers with he' | ⟨watermark, he'⟩
    · rw [he']
    · rw [he']
      exact findMatch_evictWith (fun time h => (hr key time [] h).1 rfl) (mem_entries_iff.mp he)
        (mem_map_of_mem hc)
  rw [matchRecord, hm]
  rfl

def ticks : TemporalJoinPlan :=
  ⟨"k", "k", "t", "t", [⟨.left, "t", "asked"⟩, ⟨.right, "t", "answered"⟩]⟩

def moment (time : ℕ) : I64 := (SInt.ofInt? 64 time).getD 0

def tick (time : ℕ) : DeltaRecord :=
  ⟨.string "a", .object (.ofList [("k", .string "a"), ("t", .ofI64 (moment time))]), 1⟩

def tickFrontier (time : ℕ) : InputEventTimeFrontier :=
  ⟨"left", "v1", "f", "s", 0, "t", moment time, moment time⟩

/-- Of the answers at the times 1 and 3, the one at 1 is evicted when 5 was asked. -/
theorem earlier_evicted : ∃ left right, Reached ticks left right ∧
    (right.row "a").keys = [moment 1, moment 3] ∧
    ((evictRightIndex right left [tickFrontier 4]).row "a").keys = [moment 3] ∧
    (recomputeFromStaged ticks left right).records.length = 1 ∧
    recomputeFromStaged ticks left (evictRightIndex right left [tickFrontier 4]) =
      recomputeFromStaged ticks left right := by
  have hasked : Reached ticks _ ∅ := .left .empty (tick 5) (by decide) rfl
  have hreached : Reached ticks _ _ :=
    .right (.right hasked (tick 1) (by decide) rfl) (tick 3) (by decide) rfl
  exact ⟨_, _, hreached, by decide, by decide, by decide, recompute_evicted hreached _⟩

end Velorix.View
