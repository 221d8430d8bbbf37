import Mathlib.Tactic

/-! Fixed-width signed integers with checked arithmetic. A value is the integer it
denotes together with the proof that it fits, so an overflow can only show up as
a missing result. -/

/-- A signed integer of `w` bits. -/
structure SInt (w : ℕ) where
  val : ℤ
  lo : -((2 ^ (w - 1) : ℕ) : ℤ) ≤ val
  hi : val < ((2 ^ (w - 1) : ℕ) : ℤ)
  deriving DecidableEq

namespace SInt

/-- The integers a signed word of `w` bits can hold. -/
def Fits (w : ℕ) (x : ℤ) : Prop :=
  -((2 ^ (w - 1) : ℕ) : ℤ) ≤ x ∧ x < ((2 ^ (w - 1) : ℕ) : ℤ)

instance (w : ℕ) (x : ℤ) : Decidable (Fits w x) := inferInstanceAs (Decidable (_ ∧ _))

variable {w : ℕ}

def ofInt? (w : ℕ) (x : ℤ) : Option (SInt w) :=
  if h : Fits w x then some ⟨x, h.1, h.2⟩ else none

theorem val_fits (a : SInt w) : Fits w a.val := ⟨a.lo, a.hi⟩

theorem val_injective : Function.Injective (val : SInt w → ℤ) := by
  rintro ⟨x, _, _⟩ ⟨y, _, _⟩ h
  cases h
  rfl

@[simp] theorem val_inj {a b : SInt w} : a.val = b.val ↔ a = b := val_injective.eq_iff

theorem ofInt?_eq_some {x : ℤ} {a : SInt w} : ofInt? w x = some a ↔ a.val = x := by
  unfold ofInt?
  split_ifs with h
  · simp only [Option.some.injEq]
    constructor
    · rintro rfl
      rfl
    · rintro rfl
      rfl
  · simp only [false_iff]
    rintro rfl
    exact h a.val_fits

theorem ofInt?_eq_none {x : ℤ} : ofInt? w x = none ↔ ¬ Fits w x := by
  unfold ofInt?
  split_ifs with h <;> simp [h]

@[simp] theorem ofInt?_val (a : SInt w) : ofInt? w a.val = some a := ofInt?_eq_some.mpr rfl

def checkedAdd (a b : SInt w) : Option (SInt w) := ofInt? w (a.val + b.val)

def checkedMul (a b : SInt w) : Option (SInt w) := ofInt? w (a.val * b.val)

def checkedNeg (a : SInt w) : Option (SInt w) := ofInt? w (-a.val)

/-- Reading a narrower word at a wider type never fails. -/
def widen {v : ℕ} (h : v ≤ w) (a : SInt v) : SInt w where
  val := a.val
  lo := by
    have hp : 2 ^ (v - 1) ≤ 2 ^ (w - 1) :=
      Nat.pow_le_pow_right (by norm_num) (Nat.sub_le_sub_right h 1)
    have := a.lo
    omega
  hi := by
    have hp : 2 ^ (v - 1) ≤ 2 ^ (w - 1) :=
      Nat.pow_le_pow_right (by norm_num) (Nat.sub_le_sub_right h 1)
    have := a.hi
    omega

/-- The word for an integer that is known to fit. -/
def ofFits (x : ℤ) (h : Fits w x) : SInt w := ⟨x, h.1, h.2⟩

@[simp] theorem ofFits_val (x : ℤ) (h : Fits w x) : (ofFits x h).val = x := rfl

instance : LinearOrder (SInt w) := LinearOrder.lift' val val_injective

theorem lt_iff_val {a b : SInt w} : a < b ↔ a.val < b.val := Iff.rfl

theorem le_iff_val {a b : SInt w} : a ≤ b ↔ a.val ≤ b.val := Iff.rfl

end SInt

/-- The `i64` of the source. -/
abbrev I64 := SInt 64

/-- The `i128` of the source. -/
abbrev I128 := SInt 128

namespace SInt

instance : Zero I64 := ⟨⟨0, by decide, by decide⟩⟩
instance : One I64 := ⟨⟨1, by decide, by decide⟩⟩
instance : Zero I128 := ⟨⟨0, by decide, by decide⟩⟩

@[simp] theorem i64_zero_val : (0 : I64).val = 0 := rfl
@[simp] theorem i64_one_val : (1 : I64).val = 1 := rfl
@[simp] theorem i128_zero_val : (0 : I128).val = 0 := rfl

theorem minusOne_lo : -((2 ^ (64 - 1) : ℕ) : ℤ) ≤ -1 := by decide

theorem minusOne_hi : (-1 : ℤ) < ((2 ^ (64 - 1) : ℕ) : ℤ) := by decide

theorem fits64_iff {x : ℤ} : Fits 64 x ↔ -2 ^ 63 ≤ x ∧ x < 2 ^ 63 := by
  simp [Fits]

theorem fits128_iff {x : ℤ} : Fits 128 x ↔ -2 ^ 127 ≤ x ∧ x < 2 ^ 127 := by
  simp [Fits]

/-- `i128::from`. -/
def toI128 (a : I64) : I128 := a.widen (by norm_num)

@[simp] theorem toI128_val (a : I64) : a.toI128.val = a.val := rfl

/-- `try_into` from the wide to the narrow word. -/
def toI64? (a : I128) : Option I64 := ofInt? 64 a.val

theorem toI64?_eq_some {a : I128} {b : I64} : a.toI64? = some b ↔ b.val = a.val := ofInt?_eq_some

theorem toI64?_eq_none {a : I128} : a.toI64? = none ↔ ¬ Fits 64 a.val := ofInt?_eq_none

end SInt
