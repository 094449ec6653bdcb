import Mathlib.Tactic.Positivity
import W2Net.Utils.Rescale

/-!
# `W2Net.Proofs.Utils.Rescale`: what `rescale` returns

`rescale` returns only when OpenCV gets a proper size (`Rescaled`). Then both
entries of `im_scale` are positive, and they take the sides of the image to those
of the resized one (`rescale_spec`).
-/

set_option autoImplicit false

namespace W2Net.Proofs.Rescale

open W2Net.Rescale
open W2Net.Letterbox (ResizeOps)

variable {K P : Type} [Field K] [LinearOrder K] [IsStrictOrderedRing K] [FloorRing K]

omit [IsStrictOrderedRing K] in
/-- A division rounded to double precision. -/
theorem double_pyDiv_eq_ok {a b c : K} (h : double <$> pyDiv a b = .ok c) :
    b ≠ 0 ∧ c = double (a / b) := by
  unfold pyDiv at h
  split at h
  · cases h
  · rename_i hb
    cases h
    exact ⟨hb, rfl⟩

omit [IsStrictOrderedRing K] in
/-- The ratio is defined for images with pixels only. -/
theorem ratio_eq_ok {H W : ℕ} {targetSize maxSize r : K} (h : ratio H W targetSize maxSize = .ok r) :
    ((min H W : ℕ) : K) ≠ 0 := by
  obtain ⟨imScale, hdiv, -⟩ := bind_eq_ok h
  exact (double_pyDiv_eq_ok hdiv).1

theorem resize_eq_ok {ops : ResizeOps P} {im im' : Img P} {w h : ℤ}
    (hres : resize ops im w h = .ok im') : 0 < w ∧ 0 < h ∧ im' = ops.linear im w.toNat h.toNat := by
  unfold resize at hres
  split at hres
  · cases hres
  · rename_i hpos
    rw [not_or, not_le, not_le] at hpos
    cases hres
    exact ⟨hpos.1, hpos.2, rfl⟩

/-- A rational factor. -/
theorem flooredSize_ratCast (size : ℕ) (q : ℚ) : flooredSize size (q : K) = flooredSize size q := by
  have hcast : (size : K) * (q : K) = ((size * q : ℚ) : K) := by
    push_cast
    rfl
  have hdiv : ((double ((size : ℚ) * q) : ℚ) : K) / multiple
      = ((double ((size : ℚ) * q) / multiple : ℚ) : K) := by
    push_cast
    rfl
  rw [flooredSize, flooredSize, hcast, double, roundTo_ratCast, ← double, hdiv, Rat.floor_cast]

/-- `rescale` returned: the image has pixels, and OpenCV got a proper size, to
which `im_scale` takes the sides of the image. -/
structure Rescaled (ops : ResizeOps P) (im im' : Img P) (s : ImScale K) (w h : ℤ) : Prop where
  rows : im.H ≠ 0
  columns : im.W ≠ 0
  width_pos : 0 < w
  height_pos : 0 < h
  width : im.W * s.x = w
  height : im.H * s.y = h
  resized : im' = ops.linear im w.toNat h.toNat

/-- The sizes `rescale` computes. -/
def rescaledSize (im : Img P) (targetSize maxSize : K) (keepRatio : Bool) : PyM (ℤ × ℤ) :=
  if keepRatio then do
    let r ← ratio im.H im.W targetSize maxSize
    .ok (flooredSize im.W r, flooredSize im.H r)
  else .ok (flooredTarget targetSize, flooredTarget targetSize)

/-- What a call that returns has computed. -/
theorem rescale_spec {ops : ResizeOps P} {im im' : Img P} {targetSize maxSize : K}
    {keepRatio : Bool} {s : ImScale K}
    (h : rescale ops im targetSize maxSize keepRatio = .ok (im', s)) :
    ∃ w h, rescaledSize im targetSize maxSize keepRatio = .ok (w, h) ∧
      Rescaled ops im im' s w h := by
  unfold rescale at h
  cases keepRatio with
  | true =>
      simp only [↓reduceIte] at h
      obtain ⟨r, hr, h⟩ := bind_eq_ok h
      obtain ⟨resized, hres, h⟩ := bind_eq_ok h
      cases h
      -- The ratio divides by the shorter side, so a returning call has seen no empty side.
      have hmin := ratio_eq_ok hr
      have hH : im.H ≠ 0 := by
        intro hzero
        simp [hzero] at hmin
      have hW : im.W ≠ 0 := by
        intro hzero
        simp [hzero] at hmin
      -- `cv2.resize` rounds the product of the side and its factor, which is a whole number here.
      have hx : (im.W : K) * (flooredSize im.W r / im.W) = flooredSize im.W r :=
        mul_div_cancel₀ _ (Nat.cast_ne_zero.mpr hW)
      have hy : (im.H : K) * (flooredSize im.H r / im.H) = flooredSize im.H r :=
        mul_div_cancel₀ _ (Nat.cast_ne_zero.mpr hH)
      rw [hx, hy, pyRound_intCast, pyRound_intCast] at hres
      obtain ⟨hw, hh, hresized⟩ := resize_eq_ok hres
      refine ⟨flooredSize im.W r, flooredSize im.H r, ?_, hH, hW, hw, hh, hx, hy, hresized⟩
      simp only [rescaledSize, ↓reduceIte, hr]
      rfl
  | false =>
      simp only [Bool.false_eq_true, ↓reduceIte] at h
      obtain ⟨x, hx, h⟩ := bind_eq_ok h
      obtain ⟨y, hy, h⟩ := bind_eq_ok h
      obtain ⟨resized, hres, h⟩ := bind_eq_ok h
      cases h
      obtain ⟨hW, rfl⟩ := pyDiv_eq_ok hx
      obtain ⟨hH, rfl⟩ := pyDiv_eq_ok hy
      obtain ⟨hw, hh, hresized⟩ := resize_eq_ok hres
      exact ⟨_, _, rfl, Nat.cast_ne_zero.mp hH, Nat.cast_ne_zero.mp hW, hw, hh,
        mul_div_cancel₀ _ hW, mul_div_cancel₀ _ hH, hresized⟩

/-- Both entries of `im_scale` are positive. -/
theorem Rescaled.pos {ops : ResizeOps P} {im im' : Img P} {s : ImScale K} {w h : ℤ}
    (hr : Rescaled ops im im' s w h) : 0 < s.x ∧ 0 < s.y := by
  have hW : (0 : K) ≤ im.W := Nat.cast_nonneg _
  have hH : (0 : K) ≤ im.H := Nat.cast_nonneg _
  have hw : (0 : K) < im.W * s.x := by
    rw [hr.width]
    exact_mod_cast hr.width_pos
  have hh : (0 : K) < im.H * s.y := by
    rw [hr.height]
    exact_mod_cast hr.height_pos
  exact ⟨pos_of_mul_pos_right hw hW, pos_of_mul_pos_right hh hH⟩

end W2Net.Proofs.Rescale
