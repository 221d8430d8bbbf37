import Mathlib.Tactic

/-! Unsigned machine words: their order, and addition that reports an overflow. -/

instance linearOrderUInt8 : LinearOrder UInt8 where
  le_refl := UInt8.le_refl
  le_trans _ _ _ := UInt8.le_trans
  le_antisymm _ _ := UInt8.le_antisymm
  le_total := UInt8.le_total
  toDecidableLE a b := inferInstance
  toDecidableLT a b := inferInstance
  lt_iff_le_not_ge a b := by
    rw [UInt8.lt_iff_toNat_lt, UInt8.le_iff_toNat_le, UInt8.le_iff_toNat_le]
    omega

instance linearOrderUInt32 : LinearOrder UInt32 where
  le_refl := UInt32.le_refl
  le_trans _ _ _ := UInt32.le_trans
  le_antisymm _ _ := UInt32.le_antisymm
  le_total := UInt32.le_total
  toDecidableLE a b := inferInstance
  toDecidableLT a b := inferInstance
  lt_iff_le_not_ge a b := by
    rw [UInt32.lt_iff_toNat_lt, UInt32.le_iff_toNat_le, UInt32.le_iff_toNat_le]
    omega

instance linearOrderUInt64 : LinearOrder UInt64 where
  le_refl := UInt64.le_refl
  le_trans _ _ _ := UInt64.le_trans
  le_antisymm _ _ := UInt64.le_antisymm
  le_total := UInt64.le_total
  toDecidableLE a b := inferInstance
  toDecidableLT a b := inferInstance
  lt_iff_le_not_ge a b := by
    rw [UInt64.lt_iff_toNat_lt, UInt64.le_iff_toNat_le, UInt64.le_iff_toNat_le]
    omega

namespace UInt64

def checkedAdd (a b : UInt64) : Option UInt64 :=
  if a.toNat + b.toNat < 2 ^ 64 then some (a + b) else none

theorem toNat_of_checkedAdd {a b c : UInt64} (h : a.checkedAdd b = some c) :
    c.toNat = a.toNat + b.toNat := by
  unfold checkedAdd at h
  split_ifs at h with hlt
  cases h
  rw [UInt64.toNat_add, Nat.mod_eq_of_lt hlt]

theorem lt_of_checkedAdd_one {a c : UInt64} (h : a.checkedAdd 1 = some c) : a < c := by
  have hs := toNat_of_checkedAdd h
  rw [UInt64.lt_iff_toNat_lt, hs]
  exact Nat.lt_succ_self _

end UInt64
