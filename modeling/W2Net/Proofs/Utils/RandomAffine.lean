import W2Net.Proofs.Utils.ScaledLabels
import W2Net.Utils.Augment

/-!
# `W2Net.Proofs.Utils.RandomAffine`: the labels of `random_affine`

`random_affine` moves the four corners of a label with two assignments to its columns.
The second one reads the `x` columns that the first one has overwritten, so a row gets
`M10 * x'` where the matrix has `M10 * x`. An array of integers also loses the fractions of
both columns.

* `corner_affineTargets`: what the two assignments compute for a corner.
* `randomAffine_moves_iff`: the corners follow the matrix exactly when, for every corner,
  the numbers are the same, or the clipping hides the difference (`Unharmed`).
-/

set_option autoImplicit false

namespace W2Net.Proofs.RandomAffine

open W2Net.Augment
open W2Net.Proofs.ScaledLabels (realMath)

section
variable {K : Type} [Field K] [LinearOrder K]

/-- A corner of a quadrilateral. -/
def corner (quad : QuadRow K) (i : Fin 4) : K × K :=
  (quad ⟨i.val * 2, by omega⟩, quad ⟨i.val * 2 + 1, by omega⟩)

/-- `clip(0, width)` and `clip(0, height)`. -/
def clipPoint (width height : ℕ) (p : K × K) : K × K :=
  (min (max p.1 0) width, min (max p.2 0) height)

/-- Every corner is moved by the matrix, and then clipped. -/
def Moves (M : Affine K) (width height : ℕ) (quad quad' : QuadRow K) : Prop :=
  ∀ i, corner quad' i = clipPoint width height (M.mul (corner quad i))

variable [FloorRing K]

/-- The row that the second assignment computes: the one of the stored column. -/
def rowOfStored (dtype : Dtype) (M : Affine K) (p : K × K) : K :=
  (M.mul (dtype.store (M.mul p).1, p.2)).2

/-- The image of a corner as the two assignments store it, before the clipping. -/
def overwritten (dtype : Dtype) (M : Affine K) (p : K × K) : K × K :=
  (dtype.store (M.mul p).1, dtype.store (rowOfStored dtype M p))

theorem corner_affineTargets (dtype : Dtype) (M : Affine K) (width height : ℕ) (quad : QuadRow K)
    (i : Fin 4) :
    corner (affineTargets dtype M width height quad) i
      = clipPoint width height (overwritten dtype M (corner quad i)) := by
  have hx : xCol ⟨i.val * 2, by omega⟩ = ⟨i.val * 2, by omega⟩ := Fin.ext (by simp [xCol])
  have hy : yCol ⟨i.val * 2, by omega⟩ = ⟨i.val * 2 + 1, by omega⟩ := Fin.ext (by simp [yCol])
  have hx' : xCol ⟨i.val * 2 + 1, by omega⟩ = ⟨i.val * 2, by omega⟩ :=
    Fin.ext (by simp only [xCol]; omega)
  have hy' : yCol ⟨i.val * 2 + 1, by omega⟩ = ⟨i.val * 2 + 1, by omega⟩ :=
    Fin.ext (by simp only [yCol]; omega)
  have heven : i.val * 2 % 2 = 0 := by omega
  have hodd : (i.val * 2 + 1) % 2 ≠ 0 := by omega
  simp only [corner, affineTargets, hx, hy, hx', hy', heven, hodd, if_true, if_false]
  simp only [clipPoint, overwritten, rowOfStored, Affine.mul, mul_comm]

/-- The assignments do no harm to a corner. In an array of floats: the matrix has no term
`M10 * x`, or the column stays, or both rows are clipped to the same border. In an array of
integers: the column is a whole number or clipped, and the row of the truncated column is
truncated to the right one, or both are clipped to the same border. -/
def Unharmed (M : Affine K) (width height : ℕ) (p : K × K) : Dtype → Prop
  | .float =>
      M.d = 0 ∨ (M.mul p).1 = p.1 ∨ ((M.mul p).2 ≤ 0 ∧ rowOfStored .float M p ≤ 0) ∨
        (height ≤ (M.mul p).2 ∧ height ≤ rowOfStored .float M p)
  | .int32 =>
      ((∃ n : ℤ, (M.mul p).1 = n) ∨ (M.mul p).1 ≤ 0 ∨ width ≤ (M.mul p).1) ∧
        ((M.mul p).2 = pyTrunc (rowOfStored .int32 M p) ∨
          ((M.mul p).2 ≤ 0 ∧ rowOfStored .int32 M p < 1) ∨
          (height ≤ (M.mul p).2 ∧ height ≤ rowOfStored .int32 M p))

omit [Field K] [FloorRing K] in
/-- Two numbers with the same clipped value. -/
theorem clip_eq_iff {lo hi a b : K} (h : lo < hi) :
    min (max a lo) hi = min (max b lo) hi ↔ b = a ∨ (b ≤ lo ∧ a ≤ lo) ∨ (hi ≤ b ∧ hi ≤ a) := by
  rcases le_total a lo with ha | ha <;> rcases le_total b lo with hb | hb <;>
    rcases le_total a hi with ha' | ha' <;> rcases le_total b hi with hb' | hb' <;>
    simp only [max_eq_left, max_eq_right, min_eq_left, min_eq_right, h.le, *] <;> grind

end

section
variable {K : Type} [Field K] [LinearOrder K] [IsStrictOrderedRing K] [FloorRing K]

theorem pyTrunc_nonpos_iff {x : K} : (pyTrunc x : K) ≤ 0 ↔ x < 1 := by
  have hcast : (pyTrunc x : K) ≤ 0 ↔ pyTrunc x ≤ 0 := by exact_mod_cast Iff.rfl
  rw [hcast, pyTrunc]
  split
  · rw [← Int.lt_add_one_iff, Int.floor_lt]
    norm_num
  · rename_i hneg
    have hlt := not_le.mp hneg
    refine iff_of_true ?_ (hlt.trans one_pos)
    rw [Int.ceil_le, Int.cast_zero]
    exact hlt.le

theorem le_pyTrunc_iff {n : ℕ} (hn : 0 < n) {x : K} : (n : K) ≤ pyTrunc x ↔ (n : K) ≤ x := by
  have hcast : (n : K) ≤ pyTrunc x ↔ (n : ℤ) ≤ pyTrunc x := by exact_mod_cast Iff.rfl
  have hpos : (0 : K) < n := Nat.cast_pos.mpr hn
  rw [hcast, pyTrunc]
  split
  · rw [Int.le_floor, Int.cast_natCast]
  · rename_i hneg
    have hlt := not_le.mp hneg
    have hceil : ⌈x⌉ ≤ 0 := by
      rw [Int.ceil_le, Int.cast_zero]
      exact hlt.le
    exact iff_of_false (by omega) (by linarith)

/-- A column that is truncated and then clipped. -/
theorem clip_pyTrunc_iff {n : ℕ} {x : K} :
    min (max (pyTrunc x : K) 0) n = min (max x 0) n ↔
      (∃ k : ℤ, x = k) ∨ x ≤ 0 ∨ (n : K) ≤ x := by
  have hn : (0 : K) ≤ n := Nat.cast_nonneg n
  rcases le_or_gt x 0 with hle | hpos
  · have htrunc : (pyTrunc x : K) ≤ 0 := pyTrunc_nonpos_iff.mpr (hle.trans_lt one_pos)
    rw [max_eq_right htrunc, max_eq_right hle]
    exact iff_of_true rfl (Or.inr (Or.inl hle))
  · have htrunc : pyTrunc x = ⌊x⌋ := if_pos hpos.le
    have hfloor : (0 : K) ≤ ⌊x⌋ := by exact_mod_cast Int.floor_nonneg.mpr hpos.le
    rw [htrunc, max_eq_left hfloor, max_eq_left hpos.le, or_iff_right hpos.not_ge]
    rcases le_or_gt (n : K) x with hge | hlt
    · have hcast : (n : K) ≤ ⌊x⌋ := by exact_mod_cast Int.le_floor.mpr (by exact_mod_cast hge)
      rw [min_eq_right hcast, min_eq_right hge]
      exact iff_of_true rfl (Or.inr hge)
    · rw [min_eq_left hlt.le, min_eq_left ((Int.floor_le x).trans hlt.le), or_iff_left hlt.not_ge]
      constructor
      · intro h
        exact ⟨⌊x⌋, h.symm⟩
      · rintro ⟨k, rfl⟩
        rw [Int.floor_intCast]

omit [IsStrictOrderedRing K] in
theorem rowOfStored_float_eq_iff (M : Affine K) (p : K × K) :
    (M.mul p).2 = rowOfStored .float M p ↔ M.d = 0 ∨ (M.mul p).1 = p.1 := by
  -- The second row is computed from the new first coordinate.
  show M.d * p.1 + M.e * p.2 + M.f = M.d * (M.mul p).1 + M.e * p.2 + M.f ↔ _
  rw [add_left_inj, add_left_inj, mul_eq_mul_left_iff, or_comm, @eq_comm _ p.1]

/-- A corner follows the matrix exactly when the assignments do no harm to it. -/
theorem clipPoint_overwritten_iff (dtype : Dtype) (M : Affine K) (width : ℕ) {height : ℕ}
    (hheight : 0 < height) (p : K × K) :
    clipPoint width height (overwritten dtype M p) = clipPoint width height (M.mul p) ↔
      Unharmed M width height p dtype := by
  have hpos : (0 : K) < height := Nat.cast_pos.mpr hheight
  rw [clipPoint, clipPoint, Prod.mk.injEq, clip_eq_iff hpos]
  cases dtype with
  | float =>
      show _ ∧ ((M.mul p).2 = rowOfStored .float M p ∨ _) ↔ _
      rw [rowOfStored_float_eq_iff, Unharmed, or_assoc]
      exact and_iff_right rfl
  | int32 =>
      show min (max (pyTrunc (M.mul p).1 : K) 0) (width : K) = _ ∧
        ((M.mul p).2 = pyTrunc (rowOfStored .int32 M p) ∨
          ((M.mul p).2 ≤ 0 ∧ (pyTrunc (rowOfStored .int32 M p) : K) ≤ 0) ∨
          ((height : K) ≤ (M.mul p).2 ∧ (height : K) ≤ pyTrunc (rowOfStored .int32 M p))) ↔ _
      rw [clip_pyTrunc_iff, pyTrunc_nonpos_iff, le_pyTrunc_iff hheight]
      rfl

theorem affineTargets_moves_iff (dtype : Dtype) (M : Affine K) (width : ℕ) {height : ℕ}
    (hheight : 0 < height) (quad : QuadRow K) :
    Moves M width height quad (affineTargets dtype M width height quad) ↔
      ∀ i, Unharmed M width height (corner quad i) dtype := by
  refine forall_congr' fun i => ?_
  rw [corner_affineTargets]
  exact clipPoint_overwritten_iff dtype M width hheight _

end

/-! ### A quarter turn -/

/-- 100 rows and 100 columns. -/
def square : Img ℕ := ⟨100, 100, fun _ _ => 0⟩

/-- Operations on pixels that keep every image. -/
noncomputable def keepPixels : ImageOps ℝ ℕ where
  hsvScale _ _ im := im
  gaussianBlur _ im := im
  gaussianNoise _ im := im
  warpAffine _ im := im
  warpMask _ im := im
  warpPointRows _ pts := .pointRows pts
  boxes := ScaledLabels.realBoxes

/-- The smallest draw of an angle of at most 90 degrees turns the image by -90. -/
theorem quarterTurn_eq : randomAffineMatrix realMath square (90 : ℝ) 0 0 0 = ⟨0, -1, 100, 1, 0, 0⟩ := by
  have hangle : -90 * Real.pi / 180 = -(Real.pi / 2) := by ring
  have hcos : Real.cos (-90 * Real.pi / 180) = 0 := by
    rw [hangle, Real.cos_neg, Real.cos_pi_div_two]
  have hsin : Real.sin (-90 * Real.pi / 180) = -1 := by
    rw [hangle, Real.sin_neg, Real.sin_pi_div_two]
  have hrotation : getRotationMatrix2D realMath (-90) (50, 50) 1 = ⟨0, -1, 100, 1, 0, 0⟩ := by
    simp only [getRotationMatrix2D, realMath, hcos, hsin]
    norm_num
  -- Every other draw is of a single value.
  have hdraw : uniform (-90) 90 (0 : ℝ) = -90 := by simp [uniform]
  have hscale : uniform (1 - 0) (1 + 0) (0 : ℝ) = 1 := by simp [uniform]
  have htranslate : uniform (-0) 0 (0 : ℝ) = 0 := by simp [uniform]
  have hcentre : ((100 : ℕ) : ℝ) / 2 = 50 := by norm_num
  simp only [randomAffineMatrix, square, Pi.zero_apply, hdraw, hscale, htranslate, hcentre,
    hrotation]
  norm_num

/-- A box near the left border. -/
noncomputable def leftQuad : QuadRow ℝ := ![10, 20, 40, 20, 40, 30, 10, 30]

end W2Net.Proofs.RandomAffine
