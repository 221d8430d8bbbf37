import Velorix.View.WindowFrame

/-! The bounds of window frames: the planner keeps how far each bound lies from the row, but not on
which side, and the runtime takes the start before the row and the end after it. -/
namespace Velorix.View

open DecimalText

inductive FrameExpr
  | number (text : List Char)
  | other

inductive WindowFrameBound
  | currentRow
  | preceding (expr : Option FrameExpr)
  | following (expr : Option FrameExpr)

inductive WindowFrameUnits
  | rows
  | range
  | groups
  deriving DecidableEq

structure WindowFrame where
  units : WindowFrameUnits
  startBound : WindowFrameBound
  endBound : Option WindowFrameBound

structure UnsupportedShape where
  reason : String

abbrev Planned := Except UnsupportedShape

def unsigned : List Char → List Char
  | '+' :: digits => digits
  | text => text

/-- `str::parse::<u64>`. -/
def parseU64 (text : List Char) : Option UInt64 :=
  let digits := unsigned text
  if digits.isEmpty || !digits.all isDigit then none
  else if digitsValue digits < 2 ^ 64 then some (.ofNat (digitsValue digits)) else none

def constFrameBound (expr : FrameExpr) (label : String) : Planned UInt64 :=
  match expr with
  | .other => .error ⟨s!"window frame {label} bound must be a constant"⟩
  | .number text =>
    match parseU64 text with
    | none => .error ⟨s!"window frame {label} bound must be a non-negative constant"⟩
    | some n => .ok n

def frameBound : WindowFrameBound → Planned UInt64
  | .preceding (some expr) => constFrameBound expr "PRECEDING"
  | .following (some expr) => constFrameBound expr "FOLLOWING"
  | .currentRow => .ok 0
  | _ => .error ⟨"window frame bounds must be bounded constants"⟩

/-- The numbers `frame_preceding` and `frame_following` of the plan. -/
def planFrame : Option WindowFrame → Planned (UInt64 × UInt64)
  | none => .ok (0, 0)
  | some frame =>
    if frame.units ≠ .rows then .error ⟨"window frame supports only ROWS units"⟩
    else do
      let stop ← (frame.endBound.map frameBound).getD (.ok 0)
      let start ← frameBound frame.startBound
      return (start, stop)

/-- The position of a bound relative to the row, as the clause says. -/
def WindowFrameBound.offset : WindowFrameBound → ℤ
  | preceding (some (.number text)) => -digitsValue (unsigned text)
  | following (some (.number text)) => digitsValue (unsigned text)
  | _ => 0

namespace WindowFrame

def stopBound (frame : WindowFrame) : WindowFrameBound := frame.endBound.getD .currentRow

/-- The row at `j` belongs to the frame of the row at `i`. -/
def Covers (frame : WindowFrame) (i j : ℕ) : Prop :=
  i + frame.startBound.offset ≤ j ∧ j ≤ i + frame.stopBound.offset

instance (frame : WindowFrame) (i j : ℕ) : Decidable (frame.Covers i j) := by
  unfold Covers
  infer_instance

/-- The rows of the frame of the row at `i`, in the order of the partition. -/
def rowsAt (frame : WindowFrame) (partition : List AnalyticFrameRow) (i : ℕ) :
    List AnalyticFrameRow :=
  (partition.zipIdx.filter fun row => frame.Covers i row.2).map Prod.fst

end WindowFrame

open AnalyticWindowFrameRuntime

variable {frame : WindowFrame} {plan : AnalyticWindowFramePlan}
  {partition : List AnalyticFrameRow} {i : ℕ}

/-- The frame is taken without a panic and holds the positions of the clause, and the functions
over it return the first, the last and the n-th row of the clause. -/
structure FrameExact (frame : WindowFrame) (plan : AnalyticWindowFramePlan)
    (partition : List AnalyticFrameRow) (i : ℕ) : Prop where
  positions : ∃ start stop, frameRange plan partition.length i = some (start, stop) ∧
    ∀ j < partition.length, start ≤ j ∧ j < stop ↔ frame.Covers i j
  firstValue : ∀ columnId, rowValue { plan with function := .firstValue columnId } partition i =
    some ((frame.rowsAt partition i).head?.bind (·.values.find? columnId))
  lastValue : ∀ columnId, rowValue { plan with function := .lastValue columnId } partition i =
    some ((frame.rowsAt partition i).getLast?.bind (·.values.find? columnId))
  nthValue : ∀ columnId (n : UInt64),
    rowValue { plan with function := .nthValue columnId n } partition i =
      some (if n = 0 then none
        else (frame.rowsAt partition i)[n.toNat - 1]?.bind (·.values.find? columnId))

theorem frameRange_eq (plan : AnalyticWindowFramePlan) (length i : ℕ) :
    frameRange plan length i = if i + plan.frameFollowing.toNat + 1 < 2 ^ 64 then
      some (i - plan.framePreceding.toNat, min (i + plan.frameFollowing.toNat + 1) length)
    else none := by
  unfold frameRange addPosition
  split_ifs with hlast hstop hstop <;> first | omega | simp_all

/-- The rows between two positions, taken one by one. -/
theorem filter_zipIdx (start stop n : ℕ) (rows : List AnalyticFrameRow) :
    ((rows.zipIdx n).filter fun row => decide (start ≤ row.2 ∧ row.2 < stop)).map Prod.fst =
      (rows.take (stop - n)).drop (start - n) := by
  induction rows generalizing n with
  | nil => simp
  | cons row rows ih =>
    rw [List.zipIdx_cons, List.filter_cons]
    split_ifs with h
    · obtain ⟨hstart, hstop⟩ : start ≤ n ∧ n < stop := of_decide_eq_true h
      obtain ⟨k, hk⟩ : ∃ k, stop - n = k + 1 := ⟨stop - n - 1, by omega⟩
      rw [List.map_cons, ih, hk, List.take_succ_cons, Nat.sub_eq_zero_of_le hstart,
        Nat.sub_eq_zero_of_le (by omega : start ≤ n + 1), show stop - (n + 1) = k by omega]
      rfl
    · have h : ¬ (start ≤ n ∧ n < stop) := of_decide_eq_false (by simpa using h)
      rw [ih]
      by_cases hstop : stop ≤ n
      · simp [Nat.sub_eq_zero_of_le hstop, Nat.sub_eq_zero_of_le (by omega : stop ≤ n + 1)]
      · obtain ⟨k, hk⟩ : ∃ k, stop - n = k + 1 := ⟨stop - n - 1, by omega⟩
        obtain ⟨m, hm⟩ : ∃ m, start - n = m + 1 := ⟨start - n - 1, by omega⟩
        rw [hk, hm, List.take_succ_cons, List.drop_succ_cons, show stop - (n + 1) = k by omega,
          show start - (n + 1) = m by omega]

theorem rowsAt_eq {start stop : ℕ}
    (h : ∀ j < partition.length, start ≤ j ∧ j < stop ↔ frame.Covers i j) :
    frame.rowsAt partition i = (partition.take stop).drop start := by
  rw [WindowFrame.rowsAt, ← Nat.sub_zero stop, ← Nat.sub_zero start, ← filter_zipIdx]
  congr 1
  refine List.filter_congr fun row hrow => ?_
  have hj : row.2 < partition.length := by
    have := List.snd_lt_of_mem_zipIdx hrow
    omega
  rw [decide_eq_decide]
  exact (h row.2 hj).symm

theorem constFrameBound_ok {text : List Char} {label : String} {n : UInt64}
    (h : constFrameBound (.number text) label = .ok n) : n.toNat = digitsValue (unsigned text) := by
  simp only [constFrameBound, parseU64] at h
  split_ifs at h with hd hn
  cases h
  exact UInt64.toNat_ofNat_of_lt' hn

theorem frameBound_ok {b : WindowFrameBound} {n : UInt64} (h : frameBound b = .ok n) :
    n.toNat = b.offset.natAbs := by
  rcases b with _ | ⟨_ | ⟨text⟩ | _⟩ | ⟨_ | ⟨text⟩ | _⟩
  · cases h
    rfl
  · cases h
  · simpa [WindowFrameBound.offset] using constFrameBound_ok h
  · cases h
  · cases h
  · simpa [WindowFrameBound.offset] using constFrameBound_ok h
  · cases h

theorem planFrame_ok {p f : UInt64} (h : planFrame (some frame) = .ok (p, f)) :
    p.toNat = frame.startBound.offset.natAbs ∧ f.toNat = frame.stopBound.offset.natAbs := by
  rw [planFrame] at h
  split_ifs at h with hu
  obtain ⟨stop, hstop, h⟩ := Result.bind_eq_ok.mp h
  obtain ⟨start, hstart, h⟩ := Result.bind_eq_ok.mp h
  cases h
  refine ⟨frameBound_ok hstart, ?_⟩
  unfold WindowFrame.stopBound
  cases he : frame.endBound with
  | none =>
    rw [he] at hstop
    cases hstop
    rfl
  | some b =>
    rw [he] at hstop
    exact frameBound_ok hstop

/-- A frame is the one of the clause exactly if it starts at the row or before it, ends at the row
or after it, and its end can be counted. -/
theorem frameExact_iff
    (hplan : planFrame (some frame) = .ok (plan.framePreceding, plan.frameFollowing))
    (hi : i < partition.length) :
    FrameExact frame plan partition i ↔ frame.startBound.offset ≤ 0 ∧
      0 ≤ frame.stopBound.offset ∧ i + plan.frameFollowing.toNat + 1 < 2 ^ 64 := by
  obtain ⟨hp, hf⟩ := planFrame_ok hplan
  constructor
  · intro h
    obtain ⟨start, stop, hr, hc⟩ := h.positions
    rw [frameRange_eq] at hr
    split_ifs at hr with hfit
    cases hr
    obtain ⟨hs, he⟩ := (hc i hi).mp ⟨Nat.sub_le .., by omega⟩
    exact ⟨by omega, by omega, hfit⟩
  · rintro ⟨hs, he, hfit⟩
    have hc : ∀ j < partition.length, i - plan.framePreceding.toNat ≤ j ∧
        j < min (i + plan.frameFollowing.toNat + 1) partition.length ↔ frame.Covers i j := by
      intro j hj
      unfold WindowFrame.Covers
      omega
    have hrange : frameRange plan partition.length i = _ :=
      (frameRange_eq plan partition.length i).trans (if_pos hfit)
    have hvalue (function : WindowNavigationFunction) :
        rowValue { plan with function } partition i =
          navigationValue { plan with function } partition i (frame.rowsAt partition i) := by
      rw [rowsAt_eq hc, rowValue, show frameRange { plan with function } partition.length i = _
        from hrange]
      rfl
    refine ⟨⟨_, _, hrange, hc⟩, fun columnId => hvalue _, fun columnId => hvalue _,
      fun columnId n => (hvalue _).trans ?_⟩
    unfold navigationValue
    simp only [Option.some.injEq]
    split_ifs with hn hzero hzero
    · rfl
    · have hlen := hn.resolve_left hzero
      rw [List.getElem?_eq_none (by omega)]
      rfl
    · exact absurd (.inl hzero) hn
    · rfl

def rowsFrame (startBound endBound : WindowFrameBound) : WindowFrame :=
  ⟨.rows, startBound, some endBound⟩

def onePreceding : WindowFrame := rowsFrame (.preceding (some (.number ['1']))) .currentRow

def oneFollowing : WindowFrame :=
  rowsFrame (.following (some (.number ['1']))) (.following (some (.number ['2'])))

def countedPlan (framePreceding frameFollowing : UInt64) : AnalyticWindowFramePlan where
  inputRelationId := "orders"
  keyColumnId := "id"
  outputKeyInputColumnId := none
  partitionColumnId := "p"
  orderColumnId := "o"
  orderDescending := false
  framePreceding
  frameFollowing
  function := .firstValue "v"
  outputColumnId := "out"

def amountRow (amount : String) : AnalyticFrameRow :=
  ⟨.null, .null, .null, .ofList [("v", .string amount)]⟩

def amounts : List AnalyticFrameRow := [amountRow "a", amountRow "b", amountRow "c"]

/-- The frame of the last of three rows begins with the second one. -/
theorem onePreceding_exact : FrameExact onePreceding (countedPlan 1 0) amounts 2 ∧
    rowValue (countedPlan 1 0) amounts 2 = some (some (.string "b")) :=
  ⟨(frameExact_iff rfl (by decide)).mpr (by decide), by decide⟩

/-- A frame that starts after the row is accepted and read as one that starts before it, and the
farthest end cannot be counted. -/
theorem oneFollowing_not_exact :
    planFrame (some oneFollowing) = .ok (1, 2) ∧
      rowValue (countedPlan 1 2) amounts 1 = some (some (.string "a")) ∧
      ¬ FrameExact oneFollowing (countedPlan 1 2) amounts 1 ∧
      frameRange (countedPlan 0 18446744073709551615) 1 0 = none := by
  refine ⟨rfl, by decide, fun h => ?_, rfl⟩
  have hfirst := h.firstValue "v"
  exact absurd hfirst (by decide)

end Velorix.View
