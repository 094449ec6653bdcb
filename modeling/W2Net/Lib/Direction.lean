import Mathlib.Algebra.Order.Field.Basic
import Mathlib.Algebra.Order.Ring.Abs
import Mathlib.Tactic.Common
import Mathlib.Tactic.Linarith
import Mathlib.Tactic.LinearCombination
import Mathlib.Tactic.Ring
import W2Net.Lib.Numerals

/-!
# `W2Net.Lib.Direction`: directions in the plane and their angular order

Two vectors have the same direction when one is a positive multiple of the
other. The directions are put in order by a sweep that starts at the positive
`x` axis and turns towards the negative `y` axis, which is counterclockwise on a
screen, where `y` points down. The order needs no angle: a vector lies in one of
two half turns, and inside a half turn the sign of the cross product decides.

* `half_cases`, `SecondHalf.neg`: the half turn of a vector and of its opposite.
* `sweep_trichotomy`: two vectors with different directions are in order one
  way or the other.
* `fst_lt_of_cross_neg`: on the unit circle the order of the first half turn is
  the reverse order of the `x` coordinates.
-/

set_option autoImplicit false

namespace W2Net

variable {K : Type} [Field K]

/-- The cross product. -/
def cross (p q : K × K) : K := p.1 * q.2 - p.2 * q.1

theorem cross_swap (p q : K × K) : cross q p = -cross p q := by
  unfold cross
  ring

theorem cross_neg_neg (p q : K × K) : cross (-p) (-q) = cross p q := by
  show -p.1 * -q.2 - -p.2 * -q.1 = cross p q
  unfold cross
  ring

variable [LinearOrder K]

/-- `q` is a positive multiple of `p`. -/
def SameDirection (p q : K × K) : Prop := ∃ t, 0 < t ∧ q.1 = t * p.1 ∧ q.2 = t * p.2

/-- The half turn from the positive `x` axis on. -/
def FirstHalf (p : K × K) : Prop := p.2 < 0 ∨ (p.2 = 0 ∧ 0 < p.1)

/-- The half turn from the negative `x` axis on. -/
def SecondHalf (p : K × K) : Prop := 0 < p.2 ∨ (p.2 = 0 ∧ p.1 < 0)

/-- The sweep comes to the direction of `p` before that of `q`. -/
def SweepBefore (p q : K × K) : Prop :=
  (FirstHalf p ∧ SecondHalf q) ∨
    (((FirstHalf p ∧ FirstHalf q) ∨ (SecondHalf p ∧ SecondHalf q)) ∧ cross p q < 0)

/-! ### Half turns -/

section
variable {p q : K × K}

theorem half_cases (hp : p ≠ 0) : FirstHalf p ∨ SecondHalf p := by
  rcases lt_trichotomy p.2 0 with hneg | hzero | hpos
  · exact Or.inl (Or.inl hneg)
  · rcases lt_trichotomy p.1 0 with hneg | hzero' | hpos
    · exact Or.inr (Or.inr ⟨hzero, hneg⟩)
    · exact absurd (Prod.ext hzero' hzero) hp
    · exact Or.inl (Or.inr ⟨hzero, hpos⟩)
  · exact Or.inr (Or.inl hpos)

variable [IsStrictOrderedRing K]

/-- The opposite vector lies in the other half turn. -/
theorem SecondHalf.neg (h : SecondHalf p) : FirstHalf (-p) := by
  rcases h with hpos | ⟨hzero, hneg⟩
  · exact Or.inl (neg_lt_zero.mpr hpos)
  · exact Or.inr ⟨neg_eq_zero.mpr hzero, neg_pos.mpr hneg⟩

theorem SameDirection.of_neg (h : SameDirection (-p) (-q)) : SameDirection p q := by
  obtain ⟨t, ht, hx, hy⟩ := h
  have hx' : -q.1 = t * -p.1 := hx
  have hy' : -q.2 = t * -p.2 := hy
  exact ⟨t, ht, by linear_combination -hx', by linear_combination -hy'⟩

/-! ### Order -/

/-- In the first half turn, vectors without a cross product have the same direction. -/
theorem FirstHalf.sameDirection (hp : FirstHalf p) (hq : FirstHalf q) (h : cross p q = 0) :
    SameDirection p q := by
  unfold cross at h
  rcases hp with hneg | ⟨hzero, hpos⟩
  · -- The factor is the quotient of the `y` coordinates.
    have hy : q.2 < 0 := by
      rcases hq with hy | ⟨hy, hx⟩
      · exact hy
      · rw [hy, mul_zero, zero_sub, neg_eq_zero] at h
        exact absurd h (mul_neg_of_neg_of_pos hneg hx).ne
    refine ⟨q.2 / p.2, div_pos_of_neg_of_neg hy hneg, ?_, ?_⟩
    · rw [div_mul_eq_mul_div, eq_div_iff hneg.ne]
      linear_combination -h
    · rw [div_mul_cancel₀ _ hneg.ne]
  · -- Both lie on the `x` axis.
    have hy : q.2 = 0 := by
      rw [hzero, zero_mul, sub_zero] at h
      exact (mul_eq_zero.mp h).resolve_left hpos.ne'
    have hx : 0 < q.1 := by
      rcases hq with hneg | ⟨-, hx⟩
      · exact absurd hy hneg.ne
      · exact hx
    refine ⟨q.1 / p.1, div_pos hx hpos, ?_, ?_⟩
    · rw [div_mul_cancel₀ _ hpos.ne']
    · rw [hzero, hy, mul_zero]

theorem SameDirection.symm (h : SameDirection p q) : SameDirection q p := by
  obtain ⟨t, ht, hx, hy⟩ := h
  refine ⟨t⁻¹, inv_pos.mpr ht, ?_, ?_⟩
  · rw [hx, inv_mul_cancel_left₀ ht.ne']
  · rw [hy, inv_mul_cancel_left₀ ht.ne']

/-- Two vectors with different directions are in order one way or the other. -/
theorem sweep_trichotomy (hp : p ≠ 0) (hq : q ≠ 0) (h : ¬SameDirection p q) :
    SweepBefore p q ∨ SweepBefore q p := by
  -- In one half turn the cross product tells the directions apart.
  have hcross : ∀ hzero : cross p q = 0, (FirstHalf p ∧ FirstHalf q) ∨
      (SecondHalf p ∧ SecondHalf q) → False := by
    rintro hzero (⟨hp', hq'⟩ | ⟨hp', hq'⟩)
    · exact h (hp'.sameDirection hq' hzero)
    · rw [← cross_neg_neg] at hzero
      exact h (hp'.neg.sameDirection hq'.neg hzero).of_neg
  have hsame : (FirstHalf p ∧ FirstHalf q) ∨ (SecondHalf p ∧ SecondHalf q) →
      SweepBefore p q ∨ SweepBefore q p := by
    intro hhalf
    rcases lt_trichotomy (cross p q) 0 with hneg | hzero | hpos
    · exact Or.inl (Or.inr ⟨hhalf, hneg⟩)
    · exact absurd hhalf (hcross hzero)
    · have hneg : cross q p < 0 := by
        rw [cross_swap]
        exact neg_lt_zero.mpr hpos
      exact Or.inr (Or.inr ⟨hhalf.imp And.symm And.symm, hneg⟩)
  rcases half_cases hp with hp' | hp'
  · rcases half_cases hq with hq' | hq'
    · exact hsame (Or.inl ⟨hp', hq'⟩)
    · exact Or.inl (Or.inl ⟨hp', hq'⟩)
  · rcases half_cases hq with hq' | hq'
    · exact Or.inr (Or.inl ⟨hq', hp'⟩)
    · exact hsame (Or.inr ⟨hp', hq'⟩)

/-! ### The unit circle -/

/-- Two points of the upper half of the unit circle. -/
theorem mul_le_mul_of_circle {c u c' u' : K} (hu : 0 ≤ u) (hu' : 0 ≤ u') (h : c ^ 2 + u ^ 2 = 1)
    (h' : c' ^ 2 + u' ^ 2 = 1) (hle : c ≤ c') : c * u' ≤ u * c' := by
  rcases le_total 0 c with hc | hc
  · -- Both on the right: the one farther to the right is the lower one.
    have hsq : c ^ 2 ≤ c' ^ 2 := pow_le_pow_left₀ hc hle 2
    have hlow : u' ≤ u := by
      apply le_of_sq_le_sq _ hu
      linarith
    calc c * u' ≤ c' * u' := mul_le_mul_of_nonneg_right hle hu'
      _ ≤ c' * u := mul_le_mul_of_nonneg_left hlow (hc.trans hle)
      _ = u * c' := mul_comm c' u
  · rcases le_total 0 c' with hc' | hc'
    · exact (mul_nonpos_of_nonpos_of_nonneg hc hu').trans (mul_nonneg hu hc')
    · -- Both on the left: the one farther to the left is the lower one.
      have hsq : c' ^ 2 ≤ c ^ 2 := by
        rw [← neg_sq c', ← neg_sq c]
        exact pow_le_pow_left₀ (neg_nonneg.mpr hc') (neg_le_neg hle) 2
      have hlow : u ≤ u' := by
        apply le_of_sq_le_sq _ hu'
        linarith
      calc c * u' ≤ c' * u' := mul_le_mul_of_nonneg_right hle hu'
        _ ≤ c' * u := mul_le_mul_of_nonpos_left hlow hc'
        _ = u * c' := mul_comm c' u

/-- In the first half turn of the unit circle the sweep moves to the left. -/
theorem fst_lt_of_cross_neg (hp : p.2 ≤ 0) (hq : q.2 ≤ 0) (hp1 : p.1 ^ 2 + p.2 ^ 2 = 1)
    (hq1 : q.1 ^ 2 + q.2 ^ 2 = 1) (h : cross p q < 0) : q.1 < p.1 := by
  by_contra hle
  have hmul := mul_le_mul_of_circle (neg_nonneg.mpr hp) (neg_nonneg.mpr hq)
    (by rw [neg_sq, hp1]) (by rw [neg_sq, hq1]) (not_lt.mp hle)
  unfold cross at h
  linarith

end

end W2Net
