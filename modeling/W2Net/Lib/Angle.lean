import Mathlib.Algebra.Group.Prod
import W2Net.Lib.Modulus

/-!
# `W2Net.Lib.Angle`: angles up to full turns

`PyMath.TrigLaws` has what the code relies on of the functions `sin` and `cos`: the
signs of the opposite angle and of a half turn. From there both are the same for
angles that differ by full turns, in radians (`unitRad_add_turns`) and in degrees
(`unitDeg_add_turns`).

`wrap180` gives the representative of an angle in `[-180, 180)`. The loops
`wrapUp` and `wrapDown` move an angle by full turns, one at a time, into
`(-half, half]`; `wrapLoops_spec` has their result.
-/

set_option autoImplicit false

namespace W2Net

/-! ### The two functions -/

section
variable {K : Type} [Field K]

/-- The opposite angle, and the angle after a half turn. -/
structure PyMath.TrigLaws (m : PyMath K) : Prop where
  cos_neg : ∀ t, m.cos (-t) = m.cos t
  sin_neg : ∀ t, m.sin (-t) = -m.sin t
  cos_add_pi : ∀ t, m.cos (t + m.pi) = -m.cos t
  sin_add_pi : ∀ t, m.sin (t + m.pi) = -m.sin t

/-- The cosine and the sine of an angle in degrees. -/
def PyMath.unitDeg (m : PyMath K) (a : K) : K × K :=
  (m.cos (a * m.pi / 180), m.sin (a * m.pi / 180))

/-- The cosine and the sine of an angle in radians. -/
def PyMath.unitRad (m : PyMath K) (a : K) : K × K := (m.cos a, m.sin a)

variable {m : PyMath K}

theorem PyMath.TrigLaws.unitRad_neg (hm : m.TrigLaws) (t : K) :
    m.unitRad (-t) = ((m.unitRad t).1, -(m.unitRad t).2) := by
  simp only [PyMath.unitRad, hm.cos_neg, hm.sin_neg]

theorem PyMath.TrigLaws.unitRad_add_pi (hm : m.TrigLaws) (t : K) :
    m.unitRad (t + m.pi) = -m.unitRad t := by
  simp only [PyMath.unitRad, hm.cos_add_pi, hm.sin_add_pi, Prod.neg_mk]

theorem PyMath.TrigLaws.unitRad_pi_sub (hm : m.TrigLaws) (t : K) :
    m.unitRad (m.pi - t) = (-(m.unitRad t).1, (m.unitRad t).2) := by
  rw [sub_eq_add_neg, add_comm, hm.unitRad_add_pi, hm.unitRad_neg, Prod.neg_mk, neg_neg]

/-- A full turn changes nothing. -/
theorem PyMath.TrigLaws.unitRad_add_turns (hm : m.TrigLaws) (t : K) (k : ℤ) :
    m.unitRad (t + 2 * m.pi * k) = m.unitRad t := by
  have hturn : ∀ t, m.unitRad (t + 2 * m.pi) = m.unitRad t := by
    intro t
    rw [two_mul, ← add_assoc, hm.unitRad_add_pi, hm.unitRad_add_pi, neg_neg]
  induction k with
  | zero => rw [Int.cast_zero, mul_zero, add_zero]
  | succ k ih =>
      rw [Int.cast_add, Int.cast_one, mul_add, mul_one, ← add_assoc, hturn, ih]
  | pred k ih =>
      rw [← ih, ← hturn, Int.cast_sub, Int.cast_one]
      congr 1
      ring

theorem PyMath.unitDeg_eq (m : PyMath K) (a : K) : m.unitDeg a = m.unitRad (a * m.pi / 180) := rfl

variable [CharZero K]

theorem PyMath.TrigLaws.unitDeg_add_turns (hm : m.TrigLaws) (a : K) (k : ℤ) :
    m.unitDeg (a + 360 * k) = m.unitDeg a := by
  have harg : (a + 360 * k) * m.pi / 180 = a * m.pi / 180 + 2 * m.pi * k := by ring
  rw [PyMath.unitDeg_eq, harg, hm.unitRad_add_turns]
  rfl

theorem PyMath.TrigLaws.unitDeg_neg (hm : m.TrigLaws) (a : K) :
    m.unitDeg (-a) = ((m.unitDeg a).1, -(m.unitDeg a).2) := by
  have harg : -a * m.pi / 180 = -(a * m.pi / 180) := by ring
  rw [PyMath.unitDeg_eq, harg, hm.unitRad_neg]
  rfl

theorem PyMath.TrigLaws.unitDeg_half_sub (hm : m.TrigLaws) (a : K) :
    m.unitDeg (180 - a) = (-(m.unitDeg a).1, (m.unitDeg a).2) := by
  have harg : (180 - a) * m.pi / 180 = m.pi - a * m.pi / 180 := by ring
  rw [PyMath.unitDeg_eq, harg, hm.unitRad_pi_sub]
  rfl

theorem PyMath.TrigLaws.unitDeg_add_half (hm : m.TrigLaws) (a : K) :
    m.unitDeg (a + 180) = -m.unitDeg a := by
  have harg : (a + 180) * m.pi / 180 = a * m.pi / 180 + m.pi := by ring
  rw [PyMath.unitDeg_eq, harg, hm.unitRad_add_pi]
  rfl

end

/-! ### Representatives -/

section
variable {K : Type} [Field K] [LinearOrder K] [IsStrictOrderedRing K] [FloorRing K] {a b r : K}

/-- The representative of an angle in degrees in `[-180, 180)`. -/
def wrap180 (a : K) : K := pyMod (a + 180) 360 - 180

theorem wrap180_eq_iff :
    wrap180 a = r ↔ (-180 ≤ r ∧ r < 180) ∧ ∃ k : ℤ, a = r + 360 * k := by
  rw [wrap180, sub_eq_iff_eq_add, pyMod_eq_iff (by norm_num)]
  constructor
  · rintro ⟨⟨hlow, hhigh⟩, k, hk⟩
    exact ⟨⟨by linarith, by linarith⟩, k, by linarith⟩
  · rintro ⟨⟨hlow, hhigh⟩, k, hk⟩
    exact ⟨⟨by linarith, by linarith⟩, k, by linarith⟩

/-- The representative, and by how many turns it differs. -/
theorem wrap180_spec (a : K) :
    (-180 ≤ wrap180 a ∧ wrap180 a < 180) ∧ ∃ k : ℤ, a = wrap180 a + 360 * k :=
  wrap180_eq_iff.mp rfl

/-- Angles that differ by full turns have the same representative. -/
theorem wrap180_congr (h : ∃ k : ℤ, a = b + 360 * k) : wrap180 a = wrap180 b := by
  obtain ⟨k, rfl⟩ := h
  rw [wrap180, wrap180, add_right_comm, pyMod_add_mul (by norm_num)]

/-- A mirrored angle, mirrored back. -/
theorem wrap180_half_sub_twice (h : -180 ≤ a ∧ a < 180) :
    wrap180 (180 - wrap180 (180 - a)) = a := by
  obtain ⟨-, k, hk⟩ := wrap180_spec (180 - a)
  exact wrap180_eq_iff.mpr ⟨h, k, by linarith⟩

theorem wrap180_neg_twice (h : -180 ≤ a ∧ a < 180) : wrap180 (-wrap180 (-a)) = a := by
  obtain ⟨-, k, hk⟩ := wrap180_spec (-a)
  exact wrap180_eq_iff.mpr ⟨h, k, by linarith⟩

/-- Both flips together turn by a half turn, in either order. -/
theorem wrap180_half_sub_neg (a : K) :
    wrap180 (180 - wrap180 (-a)) = wrap180 (-wrap180 (180 - a)) := by
  obtain ⟨-, j, hj⟩ := wrap180_spec (-a)
  obtain ⟨-, k, hk⟩ := wrap180_spec (180 - a)
  refine wrap180_congr ⟨1 + j - k, ?_⟩
  push_cast
  linarith

theorem PyMath.TrigLaws.unitDeg_wrap180 {m : PyMath K} (hm : m.TrigLaws) (a : K) :
    m.unitDeg (wrap180 a) = m.unitDeg a := by
  obtain ⟨-, k, hk⟩ := wrap180_spec a
  conv_rhs => rw [hk, hm.unitDeg_add_turns]

end

/-! ### The loops -/

section
variable {K : Type} [Field K] [LinearOrder K]

/-- `while a <= -half: a += 2 * half`. -/
def wrapUp (half : K) : ℕ → K → K
  | 0, a => a
  | fuel + 1, a => if a ≤ -half then wrapUp half fuel (a + 2 * half) else a

/-- `while a > half: a -= 2 * half`. -/
def wrapDown (half : K) : ℕ → K → K
  | 0, a => a
  | fuel + 1, a => if half < a then wrapDown half fuel (a - 2 * half) else a

variable [IsStrictOrderedRing K]

/-- With enough fuel the first loop ends above `-half`, and it moves no angle that is
there. Induction on the fuel; a turn leads to `half` or below. -/
theorem wrapUp_spec (half : K) :
    ∀ (fuel : ℕ) (a : K), -half < a + fuel * (2 * half) →
      -half < wrapUp half fuel a ∧ (wrapUp half fuel a = a ∨ wrapUp half fuel a ≤ half) ∧
        ∃ k : ℤ, wrapUp half fuel a = a + 2 * half * k := by
  intro fuel
  induction fuel with
  | zero =>
      intro a ha
      rw [Nat.cast_zero, zero_mul, add_zero] at ha
      exact ⟨ha, Or.inl rfl, 0, by simp [wrapUp]⟩
  | succ fuel ih =>
      intro a ha
      rw [wrapUp]
      split
      · rename_i hlow
        push_cast at ha
        obtain ⟨hlt, hstay, k, hk⟩ := ih (a + 2 * half) (by linarith)
        refine ⟨hlt, Or.inr ?_, k + 1, ?_⟩
        · -- The turn was made from `-half` or below, so it ends at `half` or below.
          rcases hstay with heq | hle
          · rw [heq]
            linarith
          · exact hle
        · rw [hk]
          push_cast
          ring
      · rename_i hstop
        exact ⟨not_le.mp hstop, Or.inl rfl, 0, by simp⟩

/-- With enough fuel the second loop ends in `(-half, half]`. -/
theorem wrapDown_spec (half : K) :
    ∀ (fuel : ℕ) (a : K), -half < a → a ≤ half + fuel * (2 * half) →
      (-half < wrapDown half fuel a ∧ wrapDown half fuel a ≤ half) ∧
        ∃ k : ℤ, wrapDown half fuel a = a + 2 * half * k := by
  intro fuel
  induction fuel with
  | zero =>
      intro a hlow ha
      rw [Nat.cast_zero, zero_mul, add_zero] at ha
      exact ⟨⟨hlow, ha⟩, 0, by simp [wrapDown]⟩
  | succ fuel ih =>
      intro a hlow ha
      rw [wrapDown]
      split
      · rename_i hhigh
        push_cast at ha
        -- The turn was made from above `half`, so it stays above `-half`.
        obtain ⟨hrange, k, hk⟩ := ih (a - 2 * half) (by linarith) (by linarith)
        refine ⟨hrange, k - 1, ?_⟩
        rw [hk]
        push_cast
        ring
      · rename_i hstop
        exact ⟨⟨hlow, not_lt.mp hstop⟩, 0, by simp⟩

/-- Both loops, with fuel for the number of turns in the angle. -/
def wrapLoops [FloorRing K] (half a : K) : K :=
  let fuel := (⌈|a| / (2 * half)⌉ + 1).toNat
  wrapDown half fuel (wrapUp half fuel a)

/-- The loops end with the representative in `(-half, half]`. -/
theorem wrapLoops_spec [FloorRing K] {half : K} (hhalf : 0 < half) (a : K) :
    (-half < wrapLoops half a ∧ wrapLoops half a ≤ half) ∧
      ∃ k : ℤ, wrapLoops half a = a + 2 * half * k := by
  obtain ⟨fuel, hfuel⟩ : ∃ fuel, fuel = (⌈|a| / (2 * half)⌉ + 1).toNat := ⟨_, rfl⟩
  have hpos : 0 < 2 * half := by linarith
  have hceil : |a| / (2 * half) ≤ ⌈|a| / (2 * half)⌉ := Int.le_ceil _
  have hnonneg : 0 ≤ ⌈|a| / (2 * half)⌉ := Int.ceil_nonneg (div_nonneg (abs_nonneg a) hpos.le)
  have hcast : (fuel : K) = ⌈|a| / (2 * half)⌉ + 1 := by
    have hint : (fuel : ℤ) = ⌈|a| / (2 * half)⌉ + 1 := by omega
    exact_mod_cast congrArg (Int.cast (R := K)) hint
  -- The fuel covers the distance to the range from either side.
  have henough : |a| ≤ fuel * (2 * half) := by
    rw [← div_le_iff₀ hpos, hcast]
    linarith
  have hlow := neg_abs_le a
  have hhigh := le_abs_self a
  obtain ⟨hup, hstay, j, hj⟩ := wrapUp_spec half fuel a (by linarith)
  have hfuelpos : 0 ≤ (fuel : K) * (2 * half) := mul_nonneg (Nat.cast_nonneg _) hpos.le
  obtain ⟨hrange, k, hk⟩ := wrapDown_spec half fuel (wrapUp half fuel a) hup (by
    rcases hstay with heq | hle
    · rw [heq]
      linarith
    · linarith)
  rw [wrapLoops, ← hfuel]
  refine ⟨hrange, j + k, ?_⟩
  rw [hk, hj]
  push_cast
  ring

end

end W2Net
