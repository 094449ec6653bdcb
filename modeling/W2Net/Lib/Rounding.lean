import Mathlib.Data.Int.Log
import Mathlib.Tactic.GCongr
import Mathlib.Tactic.Positivity
import Mathlib.Tactic.Ring
import W2Net.Lib.Python

/-!
# `W2Net.Lib.Rounding`: results of binary floating-point operations

An operation of IEEE 754 returns its exact result rounded to `p` significant bits, a
tie to the even significand: `roundTo p`, with `double` and `single` for the two
formats in use. The range of the exponent is not bounded here, so an overflow to
infinity and the subnormal numbers are left out.

`roundTo_mono` and `abs_roundTo_sub_le` are its two laws: it keeps the order, and the
error is at most half a unit in the last place.
-/

set_option autoImplicit false

namespace W2Net

variable {K : Type} [Field K] [LinearOrder K] [FloorRing K]

/-- The weight of the last of `p` significant bits of `x`. -/
def ulp (p : ℕ) (x : K) : K := 2 ^ (Int.log 2 |x| + 1 - p)

/-- `x` with `p` significant bits. -/
def roundTo (p : ℕ) (x : K) : K := pyRound (x / ulp p x) * ulp p x

/-- A result in double precision, which Python's `float` has. -/
def double (x : K) : K := roundTo 53 x

/-- A result in single precision, numpy's `float32`. -/
def single (x : K) : K := roundTo 24 x

variable [IsStrictOrderedRing K]

theorem ulp_pos (p : ℕ) (x : K) : 0 < ulp p x := zpow_pos two_pos _

@[simp] theorem roundTo_zero (p : ℕ) : roundTo p (0 : K) = 0 := by
  have hzero : pyRound (0 : K) = 0 := by exact_mod_cast pyRound_intCast (K := K) 0
  rw [roundTo, zero_div, hzero, Int.cast_zero, zero_mul]

/-- A number lies in its binade. -/
theorem binade {x : K} (hx : 0 < x) (p : ℕ) :
    2 ^ (p - 1 : ℤ) * ulp p x ≤ x ∧ x < 2 ^ p * ulp p x := by
  have hlow : (2 : K) ^ (p - 1 : ℤ) * ulp p x = 2 ^ Int.log 2 x := by
    rw [ulp, abs_of_pos hx, ← zpow_add₀ two_ne_zero]
    congr 1
    ring
  have hhigh : (2 : K) ^ p * ulp p x = 2 ^ (Int.log 2 x + 1) := by
    rw [ulp, abs_of_pos hx, ← zpow_natCast, ← zpow_add₀ two_ne_zero]
    congr 1
    ring
  rw [hlow, hhigh]
  exact ⟨by exact_mod_cast Int.zpow_log_le_self (b := 2) one_lt_two hx,
    by exact_mod_cast Int.lt_zpow_succ_log_self (b := 2) one_lt_two x⟩

theorem abs_pyRound_sub_le (x : K) : |(pyRound x : K) - x| ≤ 1 / 2 := by
  have hup := pyRound_le x
  have hlow : x ≤ pyRound x + 1 / 2 := by
    rcases (pyRound_le_iff (x := x)).mp le_rfl with h | ⟨h, -⟩
    · exact h.le
    · exact h.le
  rw [abs_le]
  constructor <;> linarith

/-- Rounding moves a number by half of its last place at most. -/
theorem abs_roundTo_sub_le_ulp (p : ℕ) (x : K) : |roundTo p x - x| ≤ ulp p x / 2 := by
  have hulp := ulp_pos p x
  have hdiff : roundTo p x - x = (pyRound (x / ulp p x) - x / ulp p x) * ulp p x := by
    rw [sub_mul, div_mul_cancel₀ _ hulp.ne']
    rfl
  rw [hdiff, abs_mul, abs_of_pos hulp]
  calc |(pyRound (x / ulp p x) : K) - x / ulp p x| * ulp p x ≤ 1 / 2 * ulp p x :=
        mul_le_mul_of_nonneg_right (abs_pyRound_sub_le _) hulp.le
    _ = ulp p x / 2 := by ring

/-- A larger number does not become the smaller one. -/
theorem roundTo_mono {p : ℕ} (hp : p ≠ 0) {x y : K} (hx : 0 < x) (h : x ≤ y) :
    roundTo p x ≤ roundTo p y := by
  have hlog : Int.log 2 x ≤ Int.log 2 y := Int.log_mono_right hx h
  have hy : 0 < y := hx.trans_le h
  have hux := ulp_pos p x
  have huy := ulp_pos p y
  rcases hlog.eq_or_lt with heq | hlt
  · -- In one binade, both are multiples of one number.
    have hulp : ulp p x = ulp p y := by
      rw [ulp, ulp, abs_of_pos hx, abs_of_pos hy, heq]
    rw [roundTo, roundTo, hulp]
    refine mul_le_mul_of_nonneg_right (Int.cast_le.mpr (pyRound_mono ?_)) huy.le
    gcongr
  · -- The power of two in between bounds both.
    have hbound : (2 : K) ^ p * ulp p x ≤ 2 ^ (p - 1 : ℤ) * ulp p y := by
      rw [ulp, ulp, abs_of_pos hx, abs_of_pos hy, ← zpow_natCast, ← zpow_add₀ two_ne_zero,
        ← zpow_add₀ two_ne_zero]
      exact zpow_le_zpow_right₀ one_le_two (by omega)
    obtain ⟨k, rfl⟩ := Nat.exists_eq_succ_of_ne_zero hp
    have hk : ((k + 1 : ℕ) - 1 : ℤ) = k := by
      push_cast
      ring
    have hbelow : pyRound (x / ulp (k + 1) x) ≤ 2 ^ (k + 1) := by
      have hlt : x / ulp (k + 1) x ≤ ((2 ^ (k + 1) : ℤ) : K) := by
        rw [div_le_iff₀ hux]
        push_cast
        exact (binade hx (k + 1)).2.le
      exact (pyRound_mono hlt).trans_eq (pyRound_intCast _)
    have habove : (2 : ℤ) ^ k ≤ pyRound (y / ulp (k + 1) y) := by
      have hge : ((2 ^ k : ℤ) : K) ≤ y / ulp (k + 1) y := by
        rw [le_div_iff₀ huy]
        have hlow := (binade hy (k + 1)).1
        rw [hk, zpow_natCast] at hlow
        push_cast
        exact hlow
      exact (pyRound_intCast _).symm.le.trans (pyRound_mono hge)
    rw [hk, zpow_natCast] at hbound
    calc roundTo (k + 1) x ≤ 2 ^ (k + 1) * ulp (k + 1) x :=
          mul_le_mul_of_nonneg_right (by exact_mod_cast hbelow) hux.le
      _ ≤ 2 ^ k * ulp (k + 1) y := hbound
      _ ≤ roundTo (k + 1) y := mul_le_mul_of_nonneg_right (by exact_mod_cast habove) huy.le

/-- The relative error is `2 ^ -p` at most. -/
theorem abs_roundTo_sub_le (p : ℕ) {x : K} (hx : 0 ≤ x) : |roundTo p x - x| ≤ x / 2 ^ p := by
  rcases hx.eq_or_lt with rfl | hpos
  · simp
  · refine (abs_roundTo_sub_le_ulp p x).trans ?_
    have hlow := (binade hpos p).1
    rw [zpow_sub₀ two_ne_zero, zpow_natCast, zpow_one] at hlow
    rw [le_div_iff₀ (by positivity)]
    calc ulp p x / 2 * 2 ^ p = 2 ^ p / 2 * ulp p x := by ring
      _ ≤ x := hlow

theorem roundTo_le (p : ℕ) {x : K} (hx : 0 ≤ x) : roundTo p x ≤ x + x / 2 ^ p := by
  have herr := (abs_le.mp (abs_roundTo_sub_le p hx)).2
  linarith

theorem le_roundTo (p : ℕ) {x : K} (hx : 0 ≤ x) : x - x / 2 ^ p ≤ roundTo p x := by
  have herr := (abs_le.mp (abs_roundTo_sub_le p hx)).1
  linarith

theorem roundTo_pos {p : ℕ} (hp : p ≠ 0) {x : K} (hx : 0 < x) : 0 < roundTo p x :=
  (sub_pos.mpr (div_lt_self hx (one_lt_pow₀ one_lt_two hp))).trans_le (le_roundTo p hx.le)

/-! ### Rational numbers -/

theorem log_ratCast (q : ℚ) : Int.log 2 (q : K) = Int.log 2 q := by
  rcases le_or_gt q 0 with hq | hq
  · rw [Int.log_of_right_le_zero 2 hq, Int.log_of_right_le_zero 2 (by exact_mod_cast hq)]
  · have hcast : (0 : K) < q := Rat.cast_pos.mpr hq
    -- The same powers of two are below both.
    have hpow : ∀ e : ℤ, ((2 : ℕ) : K) ^ e ≤ q ↔ ((2 : ℕ) : ℚ) ^ e ≤ q := by
      intro e
      rw [← Rat.cast_le (K := K), Rat.cast_zpow, Rat.cast_natCast]
    refine le_antisymm ?_ ?_
    · rw [← Int.zpow_le_iff_le_log one_lt_two hq, ← hpow]
      exact Int.zpow_log_le_self one_lt_two hcast
    · rw [← Int.zpow_le_iff_le_log one_lt_two hcast, hpow]
      exact Int.zpow_log_le_self one_lt_two hq

theorem pyRound_ratCast (q : ℚ) : pyRound (q : K) = pyRound q := by
  have hfract : (q : K) - ⌊q⌋ = ((q - ⌊q⌋ : ℚ) : K) := by push_cast; rfl
  have hhalf : (1 / 2 : K) = ((1 / 2 : ℚ) : K) := by push_cast; rfl
  simp only [pyRound, Rat.floor_cast, hfract, hhalf, Rat.cast_lt]

theorem roundTo_ratCast (p : ℕ) (q : ℚ) : roundTo p (q : K) = (roundTo p q : ℚ) := by
  have hulp : ulp p (q : K) = (ulp p q : ℚ) := by
    rw [ulp, ulp, ← Rat.cast_abs, log_ratCast]
    push_cast
    rfl
  rw [roundTo, roundTo, hulp, ← Rat.cast_div, pyRound_ratCast]
  push_cast
  rfl

end W2Net
