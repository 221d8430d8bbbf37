import Mathlib.Tactic

/-! Rounding of integers to a number of significant bits: to the nearest, and to the even one of
two that are equally near. -/
namespace SignificantBits

/-- The nearest multiple of a unit. -/
def nearest (u i : ℤ) : ℤ :=
  if 2 * (i % u) < u ∨ 2 * (i % u) = u ∧ i / u % 2 = 0 then i / u * u else (i / u + 1) * u

/-- The last place of an integer that keeps `bits` bits. -/
def unit (bits : ℕ) (i : ℤ) : ℤ := 2 ^ (Nat.log2 i.natAbs + 1 - bits)

def round (bits : ℕ) (i : ℤ) : ℤ := nearest (unit bits i) i

variable {u s i j : ℤ} {bits : ℕ}

theorem unit_pos (bits : ℕ) (i : ℤ) : 0 < unit bits i := by
  unfold unit
  positivity

end SignificantBits
