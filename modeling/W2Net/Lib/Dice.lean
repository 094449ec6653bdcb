import Mathlib.Algebra.Order.Field.Basic
import Mathlib.Tactic.FieldSimp
import Mathlib.Tactic.Linarith
import Mathlib.Tactic.Positivity
import Mathlib.Tactic.Ring
import W2Net.Lib.Numerals

/-!
# `W2Net.Lib.Dice`: the scores of Jaccard and Dice

Two sets with `i` elements in common and `u` elements in their union have
`i + u` elements together, so both scores are functions of `i` and `u`. A
smoothing `e` is added to every numerator and denominator.

The rules hold for all `0 ≤ i ≤ u` when the smoothed union is positive. Without
smoothing, one score determines the other (`dice_mul_one_add_jaccard`).
-/

set_option autoImplicit false

namespace W2Net

variable {K : Type} [Field K] [LinearOrder K] [IsStrictOrderedRing K]

def jaccard (e i u : K) : K := (i + e) / (u + e)

def dice (e i u : K) : K := (2 * i + e) / (i + u + e)

variable {e i u : K}

theorem jaccard_nonneg (he : 0 ≤ e) (hi : 0 ≤ i) (hpos : 0 < u + e) : 0 ≤ jaccard e i u :=
  div_nonneg (add_nonneg hi he) hpos.le

theorem dice_denominator_pos (hi : 0 ≤ i) (hpos : 0 < u + e) : 0 < i + u + e := by
  rw [add_assoc]
  exact add_pos_of_nonneg_of_pos hi hpos

theorem jaccard_le_dice (hi : 0 ≤ i) (hiu : i ≤ u) (hpos : 0 < u + e) :
    jaccard e i u ≤ dice e i u := by
  rw [jaccard, dice, div_le_div_iff₀ hpos (dice_denominator_pos hi hpos)]
  -- The two sides differ by `i * (u - i)`.
  have hgap : 0 ≤ i * (u - i) := mul_nonneg hi (sub_nonneg.mpr hiu)
  linarith

theorem dice_le_one (hi : 0 ≤ i) (hiu : i ≤ u) (hpos : 0 < u + e) : dice e i u ≤ 1 := by
  rw [dice, div_le_one (dice_denominator_pos hi hpos)]
  linarith

theorem jaccard_eq_one_iff (hpos : 0 < u + e) : jaccard e i u = 1 ↔ i = u := by
  rw [jaccard, div_eq_one_iff_eq hpos.ne', add_left_inj]

theorem dice_eq_one_iff (hi : 0 ≤ i) (hpos : 0 < u + e) : dice e i u = 1 ↔ i = u := by
  rw [dice, div_eq_one_iff_eq (dice_denominator_pos hi hpos).ne', add_left_inj, two_mul,
    add_right_inj]

theorem dice_mul_one_add_jaccard (hi : 0 ≤ i) (hu : 0 < u) :
    dice 0 i u * (1 + jaccard 0 i u) = 2 * jaccard 0 i u := by
  have hne : u ≠ 0 := hu.ne'
  have hsum : i + u ≠ 0 := (add_pos_of_nonneg_of_pos hi hu).ne'
  simp only [dice, jaccard, add_zero]
  field_simp
  ring

end W2Net
