import Mathlib.Tactic

/-! The proleptic Gregorian calendar: its dates, the number of the day that each one is, and the
date of a day, found in eras of 400 years that begin in March. -/

structure CivilDate where
  year : ℤ
  month : ℤ
  day : ℤ
  deriving DecidableEq

namespace CivilDate

variable {a b : CivilDate} {x y m : ℤ}

def IsLeap (y : ℤ) : Prop := y % 4 = 0 ∧ (y % 100 ≠ 0 ∨ y % 400 = 0)

instance (y : ℤ) : Decidable (IsLeap y) := inferInstanceAs (Decidable (_ ∧ _))

def monthLength (y m : ℤ) : ℤ :=
  if m = 2 then if IsLeap y then 29 else 28
  else if m = 4 ∨ m = 6 ∨ m = 9 ∨ m = 11 then 30 else 31

structure Valid (a : CivilDate) : Prop where
  month_pos : 1 ≤ a.month
  month_le : a.month ≤ 12
  day_pos : 1 ≤ a.day
  day_le : a.day ≤ monthLength a.year a.month

def Before (a b : CivilDate) : Prop :=
  a.year < b.year ∨ a.year = b.year ∧ (a.month < b.month ∨ a.month = b.month ∧ a.day < b.day)

def daysBeforeYear (y : ℤ) : ℤ := 365 * (y - 1) + (y - 1) / 4 - (y - 1) / 100 + (y - 1) / 400

def daysBeforeMonth (y m : ℤ) : ℤ :=
  ((List.range (m - 1).toNat).map fun k => monthLength y (k + 1)).sum

/-- The number of a day. The first of January 1970 is day 0. -/
def days (a : CivilDate) : ℤ :=
  daysBeforeYear a.year + daysBeforeMonth a.year a.month + (a.day - 1) - 719162

theorem daysBeforeYear_succ (y : ℤ) :
    daysBeforeYear (y + 1) = daysBeforeYear y + 365 + if IsLeap y then 1 else 0 := by
  unfold daysBeforeYear IsLeap
  split_ifs <;> omega

theorem daysBeforeMonth_eq (h : 1 ≤ m) (h' : m ≤ 12) : daysBeforeMonth y m =
    if m ≤ 2 then 31 * (m - 1) else (153 * m - 457) / 5 + 59 + if IsLeap y then 1 else 0 := by
  interval_cases m <;> simp [daysBeforeMonth, monthLength, List.range_succ] <;> split_ifs <;> rfl

theorem daysBeforeMonth_succ (h : 1 ≤ m) :
    daysBeforeMonth y (m + 1) = daysBeforeMonth y m + monthLength y m := by
  obtain ⟨n, rfl⟩ := Int.exists_add_of_le h
  simp [daysBeforeMonth, List.range_succ, add_comm]

theorem Valid.year_le (h : a.Valid) : daysBeforeYear a.year ≤ a.days + 719162 ∧
    a.days + 719162 < daysBeforeYear (a.year + 1) := by
  obtain ⟨h₁, h₂, h₃, h₄⟩ := h
  rw [days, daysBeforeMonth_eq h₁ h₂, daysBeforeYear_succ]
  unfold monthLength at h₄
  split_ifs at * <;> omega

theorem Valid.days_lt (ha : a.Valid) (hb : b.Valid) (h : a.Before b) : a.days < b.days := by
  rcases h with hy | ⟨hy, hm | ⟨hm, hd⟩⟩
  · have hle : daysBeforeYear (a.year + 1) ≤ daysBeforeYear b.year := by
      unfold daysBeforeYear
      omega
    have hlt := ha.year_le.2
    have hle' := hb.year_le.1
    omega
  · have hs := daysBeforeMonth_succ (y := a.year) ha.month_pos
    obtain ⟨ha₁, ha₂, ha₃, ha₄⟩ := ha
    obtain ⟨hb₁, hb₂, hb₃, hb₄⟩ := hb
    rw [days, days, ← hy]
    rw [daysBeforeMonth_eq ha₁ ha₂, daysBeforeMonth_eq (by omega) (by omega)] at hs
    rw [daysBeforeMonth_eq ha₁ ha₂, daysBeforeMonth_eq hb₁ hb₂]
    split_ifs at * <;> omega
  · rw [days, days, ← hy, ← hm]
    omega

theorem before_or_before (h : a ≠ b) : a.Before b ∨ b.Before a := by
  obtain ⟨y, m, d⟩ := a
  obtain ⟨y', m', d'⟩ := b
  have hne : y = y' → m = m' → d ≠ d' := by
    rintro rfl rfl rfl
    exact h rfl
  simp only [Before]
  omega

theorem Valid.days_inj (ha : a.Valid) (hb : b.Valid) (h : a.days = b.days) : a = b := by
  by_contra hne
  rcases before_or_before hne with hlt | hlt
  · exact (ha.days_lt hb hlt).ne h
  · exact (hb.days_lt ha hlt).ne' h

theorem Valid.days_lt_iff (ha : a.Valid) (hb : b.Valid) : a.days < b.days ↔ a.Before b := by
  refine ⟨fun h => ?_, ha.days_lt hb⟩
  have hne : a ≠ b := by
    rintro rfl
    exact h.false
  exact (before_or_before hne).resolve_right fun hlt => h.not_gt (hb.days_lt ha hlt)

/-- A day of an era, with the leap days before it taken out. -/
def withoutLeapDays (x : ℤ) : ℤ := x - x / 1460 + x / 36524 - x / 146096

theorem withoutLeapDays_mono (h : x ≤ y) : withoutLeapDays x ≤ withoutLeapDays y := by
  unfold withoutLeapDays
  omega

theorem withoutLeapDays_daysBeforeYear (h : 0 ≤ y) (h' : y < 400) :
    365 * y ≤ withoutLeapDays (daysBeforeYear (y + 1)) ∧
      withoutLeapDays (daysBeforeYear (y + 1 + 1) - 1) < 365 * (y + 1) := by
  have hall : ∀ y : Fin 400, 365 * (y.val : ℤ) ≤ withoutLeapDays (daysBeforeYear (y.val + 1)) ∧
      withoutLeapDays (daysBeforeYear (y.val + 1 + 1) - 1) < 365 * (y.val + 1) := by
    decide +kernel
  obtain ⟨n, rfl⟩ := Int.eq_ofNat_of_zero_le h
  exact hall ⟨n, by omega⟩

theorem yearOfEra_spec (h : 0 ≤ x) (h' : x < 146097) (hy : y = withoutLeapDays x / 365) :
    0 ≤ y ∧ y < 400 ∧ daysBeforeYear (y + 1) ≤ x ∧ x < daysBeforeYear (y + 1 + 1) := by
  have hb : 0 ≤ y ∧ y < 400 := by
    rw [hy, withoutLeapDays]
    omega
  refine ⟨hb.1, hb.2, ?_, ?_⟩
  · by_contra hlt
    have hpos : y ≠ 0 := by
      rintro rfl
      exact hlt h
    have hend := (withoutLeapDays_daysBeforeYear (y := y - 1) (by omega) (by omega)).2
    rw [sub_add_cancel] at hend
    have hle := withoutLeapDays_mono (Int.le_sub_one_of_lt (not_le.mp hlt))
    omega
  · by_contra hge
    have hlast : y ≠ 399 := by
      rintro rfl
      exact hge h'
    have hbegin := (withoutLeapDays_daysBeforeYear (y := y + 1) (by omega) (by omega)).1
    have hle := withoutLeapDays_mono (not_lt.mp hge)
    omega

/-- The date of a day of a year that begins in March. -/
def ofMarch (y doy : ℤ) : CivilDate :=
  let mp := (5 * doy + 2) / 153
  let day := doy - (153 * mp + 2) / 5 + 1
  let month := mp + if mp < 10 then 3 else -9
  ⟨y + if month ≤ 2 then 1 else 0, month, day⟩

/-- The date of a day, counted from the first of March of year 0. -/
def ofDay (z : ℤ) : CivilDate :=
  let doe := z % 146097
  let yoe := withoutLeapDays doe / 365
  ofMarch (yoe + z / 146097 * 400) (doe - (365 * yoe + yoe / 4 - yoe / 100))

theorem ofMarch_spec {doy : ℤ} (h : 0 ≤ doy) (h' : doy < 365 + if IsLeap (y + 1) then 1 else 0) :
    (ofMarch y doy).Valid ∧ (ofMarch y doy).days = daysBeforeYear (y + 1) + doy - 719468 := by
  have hs := daysBeforeYear_succ y
  obtain ⟨mp, hmp⟩ : ∃ mp, (5 * doy + 2) / 153 = mp := ⟨_, rfl⟩
  have hb : 0 ≤ mp ∧ mp ≤ 11 := by
    split_ifs at h' <;> omega
  obtain ⟨h₀, h₁⟩ := hb
  rw [ofMarch, hmp]
  by_cases hten : mp < 10
  · simp only [if_pos hten, if_neg (show ¬ mp + 3 ≤ 2 by omega), add_zero]
    refine ⟨⟨?_, ?_, ?_, ?_⟩, ?_⟩
    · show 1 ≤ mp + 3
      omega
    · show mp + 3 ≤ 12
      omega
    · show 1 ≤ doy - (153 * mp + 2) / 5 + 1
      omega
    · show doy - (153 * mp + 2) / 5 + 1 ≤ monthLength y (mp + 3)
      unfold monthLength
      split_ifs <;> omega
    · show daysBeforeYear y + daysBeforeMonth y (mp + 3) + (doy - _ + 1 - 1) - 719162 = _
      rw [daysBeforeMonth_eq (by omega) (by omega)]
      split_ifs at * <;> omega
  · simp only [if_neg hten, if_pos (show mp + -9 ≤ 2 by omega)]
    refine ⟨⟨?_, ?_, ?_, ?_⟩, ?_⟩
    · show 1 ≤ mp + -9
      omega
    · show mp + -9 ≤ 12
      omega
    · show 1 ≤ doy - (153 * mp + 2) / 5 + 1
      omega
    · show doy - (153 * mp + 2) / 5 + 1 ≤ monthLength (y + 1) (mp + -9)
      unfold monthLength
      split_ifs at * <;> omega
    · show daysBeforeYear (y + 1) + daysBeforeMonth (y + 1) (mp + -9) +
        (doy - _ + 1 - 1) - 719162 = _
      rw [daysBeforeMonth_eq (by omega) (by omega)]
      split_ifs at * <;> omega

theorem ofDay_spec (n : ℤ) : (ofDay (n + 719468)).Valid ∧ (ofDay (n + 719468)).days = n := by
  obtain ⟨yoe, hy⟩ : ∃ yoe, yoe = withoutLeapDays ((n + 719468) % 146097) / 365 := ⟨_, rfl⟩
  obtain ⟨h₀, h₁, hle, hlt⟩ := yearOfEra_spec (by omega) (by omega) hy
  have hleap : IsLeap (yoe + (n + 719468) / 146097 * 400 + 1) ↔ IsLeap (yoe + 1) := by
    unfold IsLeap
    omega
  rw [daysBeforeYear_succ] at hlt
  have hstart : daysBeforeYear (yoe + 1) = 365 * yoe + yoe / 4 - yoe / 100 := by
    unfold daysBeforeYear
    omega
  rw [ofDay, ← hy, ← hstart]
  obtain ⟨hv, hd⟩ := ofMarch_spec (y := yoe + (n + 719468) / 146097 * 400)
    (sub_nonneg.mpr hle) (by simp only [hleap]; omega)
  refine ⟨hv, hd.trans ?_⟩
  unfold daysBeforeYear
  omega

end CivilDate
