import W2Net.Lib.Python

/-!
# `W2Net.Lib.Modulus`: the remainder of a number

`pyMod a b` for a positive `b` is the one number in `[0, b)` that differs from `a` by
a multiple of `b` (`pyMod_eq_iff`). Angles in degrees are reduced with it.
-/

set_option autoImplicit false

namespace W2Net

variable {K : Type} [Field K] [LinearOrder K] [IsStrictOrderedRing K] [FloorRing K] {a b r : K}

theorem pyMod_nonneg (hb : 0 < b) (a : K) : 0 ≤ pyMod a b := by
  have hfloor : (⌊a / b⌋ : K) * b ≤ a := (le_div_iff₀ hb).mp (Int.floor_le _)
  rw [pyMod, mul_comm]
  exact sub_nonneg.mpr hfloor

theorem pyMod_lt (hb : 0 < b) (a : K) : pyMod a b < b := by
  have hfloor : a < (⌊a / b⌋ + 1) * b := (div_lt_iff₀ hb).mp (Int.lt_floor_add_one _)
  rw [pyMod]
  linarith

/-- The remainder is the representative in `[0, b)`. -/
theorem pyMod_eq_iff (hb : 0 < b) :
    pyMod a b = r ↔ (0 ≤ r ∧ r < b) ∧ ∃ k : ℤ, a = r + b * k := by
  constructor
  · rintro rfl
    exact ⟨⟨pyMod_nonneg hb a, pyMod_lt hb a⟩, ⌊a / b⌋, by rw [pyMod]; ring⟩
  · rintro ⟨⟨hnonneg, hlt⟩, k, rfl⟩
    have hfloor : ⌊(r + b * k) / b⌋ = k := by
      rw [add_div, mul_div_cancel_left₀ _ hb.ne', Int.floor_add_intCast, Int.floor_eq_zero_iff.mpr,
        zero_add]
      exact ⟨div_nonneg hnonneg hb.le, (div_lt_one hb).mpr hlt⟩
    rw [pyMod, hfloor]
    ring

/-- Numbers that differ by a multiple have the same remainder. -/
theorem pyMod_add_mul (hb : 0 < b) (a : K) (k : ℤ) : pyMod (a + b * k) b = pyMod a b := by
  refine (pyMod_eq_iff hb).mpr ⟨⟨pyMod_nonneg hb a, pyMod_lt hb a⟩, ⌊a / b⌋ + k, ?_⟩
  rw [pyMod]
  push_cast
  ring

end W2Net
