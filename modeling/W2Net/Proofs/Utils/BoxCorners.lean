import W2Net.Lib.Angle
import W2Net.Lib.Mirror
import W2Net.Proofs.Utils.ScaledLabels

/-!
# `W2Net.Proofs.Utils.BoxCorners`: the corners of a box `(cx, cy, w, h, a)`

The corners are the points of OpenCV for the box, as a set: their order and the
representative of the angle do not count (`boxCorners_wrap180`).
-/

set_option autoImplicit false

namespace W2Net.Proofs.BoxCorners

open W2Net.Proofs.ScaledLabels (quadCorners quadCorners_points realMath)

variable {K : Type} [Field K]

/-- The four corners, with the angle in degrees. -/
def boxCorners (m : PyMath K) (r : RowXywha K) : Set (K × K) :=
  quadCorners (RotatedRect.points m ⟨r.cx, r.cy, r.w, r.h, r.a⟩)

theorem boxCorners_eq (m : PyMath K) (r : RowXywha K) :
    boxCorners m r = cornersAt (r.cx, r.cy) (m.unitDeg r.a) (r.w / 2, r.h / 2) :=
  quadCorners_points m _

theorem realMath_trigLaws : realMath.TrigLaws where
  cos_neg := Real.cos_neg
  sin_neg := Real.sin_neg
  cos_add_pi := Real.cos_add_pi
  sin_add_pi := Real.sin_add_pi

/-- The representative of the angle does not matter. -/
theorem boxCorners_wrap180 [LinearOrder K] [IsStrictOrderedRing K] [FloorRing K] {m : PyMath K}
    (hm : m.TrigLaws) (r : RowXywha K) (a : K) :
    boxCorners m { r with a := wrap180 a } = boxCorners m { r with a := a } := by
  rw [boxCorners_eq, boxCorners_eq, hm.unitDeg_wrap180]

end W2Net.Proofs.BoxCorners
