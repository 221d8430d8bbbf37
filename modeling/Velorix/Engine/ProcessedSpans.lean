import Velorix.Foundation.Result
import Velorix.Foundation.Spans

/-! Sparse progress within one artifact: the ordinals of its rows that have been processed. -/

namespace Velorix.Engine

inductive ProcessedSpansError
  | invalidBounds
  | nonCanonical
  deriving DecidableEq

/-- Values are only built with canonical spans. -/
structure ProcessedSpans where
  rowsTotal : UInt64
  spans : List (ℕ × ℕ)
  canonical : Spans.Canonical rowsTotal.toNat spans

/-- The scan of `from_spans`, with the end of the span before. -/
def checkSpans (rowsTotal : ℕ) (previousEnd : Option ℕ) :
    List (ℕ × ℕ) → Except ProcessedSpansError Unit
  | [] => .ok ()
  | (start, stop) :: spans =>
    if start ≥ stop ∨ stop > rowsTotal then .error .invalidBounds
    else if previousEnd.any (start ≤ ·) then .error .nonCanonical
    else checkSpans rowsTotal (some stop) spans

theorem checkSpans_iff {rowsTotal : ℕ} {previousEnd : Option ℕ} {spans : List (ℕ × ℕ)} :
    checkSpans rowsTotal previousEnd spans = .ok () ↔
      Spans.Canonical rowsTotal spans ∧ ∀ stop ∈ previousEnd, ∀ s ∈ spans, stop < s.1 := by
  fun_induction checkSpans rowsTotal previousEnd spans with
  | case1 => simp [Spans.Canonical.nil]
  | case2 _ start stop spans hb =>
    exact ⟨nofun, fun h => absurd (Spans.Canonical.cons_iff.mp h.1).1 (by simp; omega)⟩
  | case3 previousEnd start stop spans _ hp =>
    cases previousEnd with
    | none => simp at hp
    | some previous =>
      have hle : start ≤ previous := by simpa using hp
      exact ⟨nofun, fun h => absurd (h.2 previous rfl _ List.mem_cons_self) (by simpa using hle)⟩
  | case4 previousEnd start stop spans hok hp ih =>
    rw [ih, Spans.Canonical.cons_iff]
    cases previousEnd with
    | none => simp at hok ⊢; grind
    | some previous => simp at hok hp ⊢; grind

namespace ProcessedSpans

def fromSpans (rowsTotal : UInt64) (spans : List (ℕ × ℕ)) :
    Except ProcessedSpansError ProcessedSpans :=
  match h : checkSpans rowsTotal.toNat none spans with
  | .ok () => .ok ⟨rowsTotal, spans, (checkSpans_iff.mp h).1⟩
  | .error error => .error error

def new (rowsTotal : UInt64) : ProcessedSpans := ⟨rowsTotal, [], .nil⟩

def fromPrefix (rowsTotal count : UInt64) : Except ProcessedSpansError ProcessedSpans :=
  if count > rowsTotal then .error .invalidBounds
  else fromSpans rowsTotal (if count = 0 then [] else [(0, count.toNat)])

variable (value : ProcessedSpans)

/-- The answer of the call and the value after it. -/
def insert (start stop : ℕ) : Except ProcessedSpansError Unit × ProcessedSpans :=
  if h : start ≥ stop ∨ stop > value.rowsTotal.toNat then (.error .invalidBounds, value)
  else (.ok (), { value with
    spans := Spans.insert (start, stop) value.spans
    canonical := value.canonical.insert (by omega) (by omega) })

def contains (ordinal : ℕ) : Bool := Spans.covers value.spans ordinal

def checkedAdd (a b : ℕ) : Option ℕ := if a + b < UInt64.size then some (a + b) else none

def checkedSub (a b : ℕ) : Option ℕ := if b ≤ a then some (a - b) else none

def processedLen : Option ℕ :=
  value.spans.foldlM (fun sum s => (checkedSub s.2 s.1).bind (checkedAdd sum)) 0

def contiguousFrontier : ℕ :=
  match value.spans.head? with
  | some s => if s.1 = 0 then s.2 else 0
  | none => 0

def isComplete : Bool := value.contiguousFrontier = value.rowsTotal.toNat

def unprocessedRuns : List (ℕ × ℕ) := Spans.gaps value.rowsTotal.toNat 0 value.spans

def insertAll (calls : List (ℕ × ℕ)) : ProcessedSpans :=
  calls.foldl (fun value call => (value.insert call.1 call.2).2) value

variable {value}

theorem ext_spans {other : ProcessedSpans} (ht : value.rowsTotal = other.rowsTotal)
    (hspans : value.spans = other.spans) : value = other := by
  cases value
  cases other
  simp_all

theorem fromSpans_iff {rowsTotal : UInt64} {spans : List (ℕ × ℕ)} :
    fromSpans rowsTotal spans = .ok value ↔ value.rowsTotal = rowsTotal ∧ value.spans = spans := by
  unfold fromSpans
  split
  · constructor
    · rintro ⟨⟩
      exact ⟨rfl, rfl⟩
    · rintro ⟨rfl, rfl⟩
      rfl
  · rename_i error he
    refine ⟨nofun, ?_⟩
    rintro ⟨rfl, rfl⟩
    rw [checkSpans_iff.mpr ⟨value.canonical, by simp⟩] at he
    exact nomatch he

theorem insert_spec (value : ProcessedSpans) (start stop : ℕ) :
    (value.insert start stop).2.rowsTotal = value.rowsTotal ∧
      ∀ x, (value.insert start stop).2.contains x = true ↔ value.contains x = true ∨
        (start < stop ∧ stop ≤ value.rowsTotal.toNat) ∧ start ≤ x ∧ x < stop := by
  unfold insert
  split_ifs with h
  · exact ⟨rfl, fun x => by grind⟩
  · exact ⟨rfl, fun x => by simp only [contains, Spans.covers_insert]; grind⟩

theorem insertAll_spec (value : ProcessedSpans) (cs : List (ℕ × ℕ)) :
    (value.insertAll cs).rowsTotal = value.rowsTotal ∧
      ∀ x, (value.insertAll cs).contains x = true ↔ value.contains x = true ∨ ∃ call ∈ cs,
        (call.1 < call.2 ∧ call.2 ≤ value.rowsTotal.toNat) ∧ call.1 ≤ x ∧ x < call.2 := by
  induction cs generalizing value with
  | nil => simp [insertAll]
  | cons call cs ih =>
    obtain ⟨ht, hc⟩ := insert_spec value call.1 call.2
    obtain ⟨ht', hc'⟩ := ih (value.insert call.1 call.2).2
    refine ⟨ht'.trans ht, fun x => (hc' x).trans ?_⟩
    simp [hc, ht, or_assoc]

theorem insertAll_congr {cs cs' : List (ℕ × ℕ)} (h : ∀ call, call ∈ cs ↔ call ∈ cs') :
    value.insertAll cs = value.insertAll cs' := by
  obtain ⟨ht, hc⟩ := insertAll_spec value cs
  obtain ⟨ht', hc'⟩ := insertAll_spec value cs'
  refine ext_spans (ht.trans ht'.symm) ?_
  refine (ht ▸ (value.insertAll cs).canonical).ext
    (ht' ▸ (value.insertAll cs').canonical) fun x => ?_
  exact (hc x).trans (by rw [← contains, hc' x]; simp only [h])

theorem processedLen_eq : value.processedLen =
    some ((Finset.range value.rowsTotal.toNat).filter fun x => value.contains x).card := by
  have hf (l : List (ℕ × ℕ)) (sum : ℕ) (hl : ∀ s ∈ l, s.1 < s.2)
      (hsum : sum + (l.map fun s => s.2 - s.1).sum < UInt64.size) :
      l.foldlM (fun sum s => (checkedSub s.2 s.1).bind (checkedAdd sum)) sum =
        some (sum + (l.map fun s => s.2 - s.1).sum) := by
    induction l generalizing sum with
    | nil => simp
    | cons s l ih =>
      obtain ⟨hs, hl⟩ := List.forall_mem_cons.mp hl
      rw [List.map_cons, List.sum_cons, ← add_assoc] at hsum ⊢
      rw [List.foldlM_cons, checkedSub, if_pos hs.le, Option.bind_some, checkedAdd,
        if_pos (by omega), ← ih _ hl hsum]
      rfl
  have hc := Spans.card_covers value.canonical
  have hle := Finset.card_filter_le (Finset.range value.rowsTotal.toNat)
    fun x => value.contains x = true
  have hlt := value.rowsTotal.toNat_lt_size
  rw [Finset.card_range] at hle
  unfold processedLen contains at *
  rw [hf _ _ (fun s hs => (value.canonical.within s hs).1) (by omega), hc, zero_add]

theorem contiguousFrontier_spec (value : ProcessedSpans) :
    value.contains value.contiguousFrontier = false ∧
    (∀ x < value.contiguousFrontier, value.contains x = true) ∧
    value.contiguousFrontier ≤ value.rowsTotal.toNat := by
  have hc := value.canonical
  unfold contiguousFrontier contains
  cases hspans : value.spans with
  | nil => simp [Spans.covers]
  | cons s l =>
    rw [hspans] at hc
    obtain ⟨hs, hsl, -⟩ := Spans.Canonical.cons_iff.mp hc
    have hl {x : ℕ} := hc.lt_of_covers (x := x)
    simp only [List.head?_cons, ← Bool.not_eq_true, Spans.covers_cons]
    split_ifs with hz
    · exact ⟨by grind, fun x hx => .inl ⟨by omega, hx⟩, hs.2⟩
    · exact ⟨by grind, by simp, by simp⟩

/-- What a value says about the ordinals below `rowsTotal`. -/
structure IsFiniteSet (value : ProcessedSpans) : Prop where
  insert_ok_iff : ∀ start stop, (value.insert start stop).1 = .ok () ↔
    start < stop ∧ stop ≤ value.rowsTotal.toNat
  insert_error : ∀ start stop, (value.insert start stop).1 ≠ .ok () →
    (value.insert start stop).2 = value
  contains_insertAll : ∀ calls x, (value.insertAll calls).contains x = true ↔
    value.contains x = true ∨ ∃ call ∈ calls, (value.insert call.1 call.2).1 = .ok () ∧
      call.1 ≤ x ∧ x < call.2
  insertAll_congr : ∀ calls calls', (∀ call, call ∈ calls ↔ call ∈ calls') →
    value.insertAll calls = value.insertAll calls'
  unprocessedRuns : Spans.Canonical value.rowsTotal.toNat value.unprocessedRuns ∧
    ∀ x, Spans.covers value.unprocessedRuns x = true ↔
      x < value.rowsTotal.toNat ∧ value.contains x = false
  processedLen : value.processedLen =
    some ((Finset.range value.rowsTotal.toNat).filter fun x => value.contains x).card
  contiguousFrontier : value.contains value.contiguousFrontier = false ∧
    ∀ x < value.contiguousFrontier, value.contains x = true
  isComplete : value.isComplete = true ↔ ∀ x < value.rowsTotal.toNat, value.contains x = true

/-- Processed spans are finite sets of ordinals, read back as they were written. -/
theorem processedSpans_isFiniteSet :
    (∀ rowsTotal spans value, fromSpans rowsTotal spans = .ok value ↔
      value.rowsTotal = rowsTotal ∧ value.spans = spans) ∧
    (∀ rowsTotal x, (new rowsTotal).contains x = false) ∧
    (∀ rowsTotal count, if count ≤ rowsTotal then
        ∃ value, fromPrefix rowsTotal count = .ok value ∧
          ∀ x, value.contains x = true ↔ x < count.toNat
      else fromPrefix rowsTotal count = .error .invalidBounds) ∧
    ∀ value : ProcessedSpans, value.IsFiniteSet := by
  refine ⟨fun _ _ _ => fromSpans_iff, fun _ _ => rfl, fun rowsTotal count => ?_, fun value => ?_⟩
  · split_ifs with hle
    · rw [fromPrefix, if_neg (UInt64.not_lt.mpr hle)]
      have hle := UInt64.le_iff_toNat_le.mp hle
      by_cases hzero : count = 0
      · exact ⟨new rowsTotal, fromSpans_iff.mpr (by simp [new, hzero]), by
          simp [new, contains, Spans.covers, hzero]⟩
      · have hpos : 0 < count.toNat := UInt64.pos_iff_ne_zero.mpr hzero
        exact ⟨⟨rowsTotal, [(0, count.toNat)], Spans.Canonical.cons_iff.mpr
          ⟨⟨hpos, hle⟩, by simp, .nil⟩⟩, fromSpans_iff.mpr (by simp [hzero]), by
          simp [contains, Spans.covers]⟩
    · exact if_pos (UInt64.not_le.mp hle)
  · have hok (start stop : ℕ) : (value.insert start stop).1 = .ok () ↔
        start < stop ∧ stop ≤ value.rowsTotal.toNat := by
      unfold insert
      split_ifs with h
      · exact iff_of_false (by simp) (by omega)
      · exact ⟨fun _ => by omega, fun _ => rfl⟩
    obtain ⟨hmissing, hbelow, hle⟩ := contiguousFrontier_spec value
    obtain ⟨hcanonical, -, hgaps⟩ := Spans.gaps_spec 0 value.canonical (by simp) (by simp)
    refine ⟨hok, fun start stop h => ?_, fun calls x => ?_, fun _ _ => insertAll_congr,
      ⟨hcanonical, fun x => ?_⟩, processedLen_eq, ⟨hmissing, hbelow⟩, ?_⟩
    · unfold insert at h ⊢
      split_ifs at h ⊢
      · rfl
      · exact absurd rfl h
    · simpa only [hok] using (insertAll_spec value calls).2 x
    · exact (hgaps x).trans (and_iff_right x.zero_le)
    · rw [isComplete, decide_eq_true_eq]
      refine ⟨fun h => h ▸ hbelow, fun hall => hle.eq_of_not_lt fun hlt => ?_⟩
      exact Bool.false_ne_true (hmissing.symm.trans (hall _ hlt))

end ProcessedSpans
end Velorix.Engine
