import Mathlib.Algebra.Order.Field.Basic
import Mathlib.Algebra.Order.Group.Unbundled.Abs
import Mathlib.Data.Fin.VecNotation
import Mathlib.Tactic.Linarith
import Mathlib.Tactic.Ring
import W2Net.Lib.Python

/-!
# `W2Net.Lib.Cv2`: the geometry functions of OpenCV

OpenCV is not part of the repository. `Cv2` holds the functions that the
modelled code calls, as parameters of the model. What the code relies on is a
named property of them:

* `Cv2.Symmetric`: the intersection of two rectangles does not depend on their
  order.
* `Cv2.AreaBounded`: the intersection is not larger than either rectangle.
* `Cv2Boxes.Rotation`: `cv2.boxPoints` turns the half extents around the centre.

`Cv2.aligned` computes the functions for rectangles with angle 0 and has both
properties.
-/

set_option autoImplicit false

namespace W2Net

/-- A rotated rectangle `((x, y), (w, h), angle)`. -/
structure RotatedRect (K : Type) where
  x : K
  y : K
  w : K
  h : K
  t : K
  deriving Repr, DecidableEq

namespace RotatedRect

variable {K : Type} [Field K]

def area (r : RotatedRect K) : K := r.w * r.h

end RotatedRect

/-- The first result of `cv2.rotatedRectangleIntersection` is 0 for no
intersection, 1 for a partial one and 2 when one rectangle lies in the other.
The second is the contour of the intersection. -/
structure Cv2 (K : Type) where
  rotatedRectangleIntersection : RotatedRect K → RotatedRect K → ℕ × List (K × K)
  contourArea : List (K × K) → K

/-- A quadrilateral `(x1, y1, …, x4, y4)`, one row of eight columns. -/
abbrev QuadRow (K : Type) : Type := Fin 8 → K

/-- The conversions between rotated rectangles and their corners,
`cv2.boxPoints` and `cv2.minAreaRect`. -/
structure Cv2Boxes (K : Type) where
  boxPoints : RotatedRect K → QuadRow K
  minAreaRect : QuadRow K → RotatedRect K

/-- The four points of OpenCV's `RotatedRect::points`, with the angle in degrees. -/
def RotatedRect.points {K : Type} [Field K] (m : PyMath K) (r : RotatedRect K) : QuadRow K :=
  let angle := r.t * m.pi / 180
  let b := m.cos angle / 2
  let a := m.sin angle / 2
  let x0 := r.x - a * r.h - b * r.w
  let y0 := r.y + b * r.h - a * r.w
  let x1 := r.x + a * r.h - b * r.w
  let y1 := r.y - b * r.h - a * r.w
  ![x0, y0, x1, y1, 2 * r.x - x0, 2 * r.y - y0, 2 * r.x - x1, 2 * r.y - y1]

/-- `cv2.boxPoints` is the rotation of the rectangle. -/
def Cv2Boxes.Rotation {K : Type} [Field K] (cvb : Cv2Boxes K) (m : PyMath K) : Prop :=
  ∀ r, cvb.boxPoints r = r.points m

namespace Cv2

variable {K : Type} [Field K] [LinearOrder K] (cv : Cv2 K)

/-- `rtn`, the kind of intersection. -/
def kind (a b : RotatedRect K) : ℕ := (cv.rotatedRectangleIntersection a b).1

/-- `np.abs(cv2.contourArea(contours))`. -/
def area (a b : RotatedRect K) : K :=
  |cv.contourArea (cv.rotatedRectangleIntersection a b).2|

/-- The kind and the area of an intersection do not depend on the order of the
two rectangles. -/
structure Symmetric : Prop where
  kind : ∀ a b, cv.kind a b = cv.kind b a
  area : ∀ a b, cv.area a b = cv.area b a

/-- The intersection of two rectangles is not larger than either of them. -/
def AreaBounded : Prop :=
  ∀ a b : RotatedRect K, 0 < a.w → 0 < a.h → 0 < b.w → 0 < b.h →
    cv.area a b ≤ min a.area b.area

/-! ### Rectangles with angle 0 -/

section Aligned

/-- The polygon area by the shoelace formula. -/
def shoelace (pts : List (K × K)) : K :=
  |((pts.zip (pts.rotate 1)).map fun e => e.1.1 * e.2.2 - e.2.1 * e.1.2).sum| / 2

/-- The interval that a side of length `s` around `c` covers. -/
def side (c s : K) : K × K := (c - s / 2, c + s / 2)

/-- The common part of two intervals. -/
def common (a b : K × K) : K × K := (max a.1 b.1, min a.2 b.2)

/-- `rotatedRectangleIntersection` for two rectangles with angle 0. -/
def alignedIntersection (a b : RotatedRect K) : ℕ × List (K × K) :=
  let u := common (side a.x a.w) (side b.x b.w)
  let v := common (side a.y a.h) (side b.y b.h)
  if u.2 ≤ u.1 ∨ v.2 ≤ v.1 then (0, [])
  else
    let kind :=
      if (u = side a.x a.w ∧ v = side a.y a.h) ∨ (u = side b.x b.w ∧ v = side b.y b.h) then 2
      else 1
    (kind, [(u.1, v.1), (u.2, v.1), (u.2, v.2), (u.1, v.2)])

/-- The functions on rectangles with angle 0. -/
def aligned : Cv2 K := ⟨alignedIntersection, shoelace⟩

omit [Field K] in
theorem common_comm (a b : K × K) : common a b = common b a := by
  rw [common, common, max_comm, min_comm]

theorem alignedIntersection_comm (a b : RotatedRect K) :
    alignedIntersection a b = alignedIntersection b a := by
  simp only [alignedIntersection, common_comm (side b.x b.w), common_comm (side b.y b.h),
    or_comm (a := common (side a.x a.w) (side b.x b.w) = side b.x b.w ∧ _)]

theorem aligned_symmetric : (aligned : Cv2 K).Symmetric where
  kind a b := congrArg Prod.fst (alignedIntersection_comm a b)
  area a b := by
    show |shoelace (alignedIntersection a b).2| = |shoelace (alignedIntersection b a).2|
    rw [alignedIntersection_comm]

/-- The shoelace formula on a rectangle. -/
theorem shoelace_rect [IsStrictOrderedRing K] {l r t b : K} (hx : l ≤ r) (hy : t ≤ b) :
    shoelace [(l, t), (r, t), (r, b), (l, b)] = (r - l) * (b - t) := by
  have hnonneg : 0 ≤ (r - l) * (b - t) :=
    mul_nonneg (sub_nonneg.mpr hx) (sub_nonneg.mpr hy)
  show |l * t - r * t + (r * b - r * t + (r * b - l * b + (l * t - l * b + 0)))| / 2
    = (r - l) * (b - t)
  have hsum : l * t - r * t + (r * b - r * t + (r * b - l * b + (l * t - l * b + 0)))
      = 2 * ((r - l) * (b - t)) := by ring
  rw [hsum, abs_of_nonneg (by linarith)]
  ring

/-- The common part of two intervals is not longer than either. -/
theorem common_length_le [IsStrictOrderedRing K] (a b : K × K) :
    (common a b).2 - (common a b).1 ≤ a.2 - a.1 :=
  sub_le_sub (min_le_left _ _) (le_max_left _ _)

theorem side_length [IsStrictOrderedRing K] (c s : K) : (side c s).2 - (side c s).1 = s := by
  simp only [side]
  ring

/-- The common part of two rectangles is not larger than the first one. -/
theorem area_aligned_le [IsStrictOrderedRing K] {a : RotatedRect K} (b : RotatedRect K)
    (hw : 0 < a.w) (hh : 0 < a.h) : (aligned : Cv2 K).area a b ≤ a.area := by
  show |shoelace (alignedIntersection a b).2| ≤ a.area
  simp only [alignedIntersection]
  split
  · -- No common part.
    simpa [shoelace, RotatedRect.area] using (mul_pos hw hh).le
  · rename_i hsome
    rw [not_or, not_le, not_le] at hsome
    obtain ⟨hu, hv⟩ := hsome
    have huw := common_length_le (side a.x a.w) (side b.x b.w)
    have hvh := common_length_le (side a.y a.h) (side b.y b.h)
    rw [side_length] at huw hvh
    rw [shoelace_rect hu.le hv.le, abs_of_nonneg (mul_nonneg (by linarith) (by linarith))]
    exact mul_le_mul huw hvh (by linarith) hw.le

theorem aligned_areaBounded [IsStrictOrderedRing K] : (aligned : Cv2 K).AreaBounded := by
  intro a b haw hah hbw hbh
  refine le_min (area_aligned_le b haw hah) ?_
  rw [aligned_symmetric.area]
  exact area_aligned_le a hbw hbh

end Aligned

end Cv2

end W2Net
