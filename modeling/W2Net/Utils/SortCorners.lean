import W2Net.Lib.Argsort
import W2Net.Lib.Cv2
import W2Net.Lib.Python

/-!
# `W2Net.Utils.SortCorners`: the corners of a detection in order

The model of `sort_corners` of `utils/utils.py`, which `eval.py` applies to the quads of the
detections. `datasets/wake2gt.py` has a copy of its own for the ground truth. The array is the
list of its rows; the arithmetic is exact, and the storage of the result as `float32` is left out.
-/

set_option autoImplicit false

namespace W2Net.SortCorners

variable {K : Type} [Field K] [LinearOrder K] (math : PyMath K) (arccos : K → K)
  (argsort : Argsort K)

/-- `corners` behind `corners.reshape(8)`, in the order of the angles. -/
def sortedRow (quad : QuadRow K) : ℕ → K :=
  let corners := [(quad 0, quad 1), (quad 2, quad 3), (quad 4, quad 5), (quad 6, quad 7)]
  let centers : K × K :=
    ((quad 0 + quad 2 + quad 4 + quad 6) / 4, (quad 1 + quad 3 + quad 5 + quad 7) / 4)
  let corners := corners.map fun p => p - centers
  let cosine := corners.map fun p => p.1 / math.sqrt (p.1 ^ 2 + p.2 ^ 2)
  let cosine := cosine.map fun c => min (max c (-1)) 1
  let thetas := cosine.map fun c => arccos c / math.pi * 180
  -- `thetas[indice] = 360.0 - thetas[indice]`
  let thetas := List.zipWith (fun (p : K × K) t => if 0 < p.2 then 360 - t else t) corners thetas
  let corners := corners.map fun p => p + centers
  let corners := (argsort.order thetas).reverse.map fun i => corners.getD i 0
  fun k => if k % 2 = 0 then (corners.getD (k / 2) 0).1 else (corners.getD (k / 2) 0).2

/-- `first_idx`. -/
def firstIdx (corners : ℕ → K) : ℕ :=
  let dx1 := corners 4 - corners 0
  let dy1 := corners 5 - corners 1
  let dx2 := corners 6 - corners 2
  let dy2 := corners 7 - corners 3
  let slope1 := if dx1 ≠ 0 then dy1 / dx1 else 2147483647
  let slope2 := if dx2 ≠ 0 then dy2 / dx2 else 2147483647
  if slope2 < slope1 then
    if corners 0 < corners 4 then 0
    else if corners 0 = corners 4 then (if corners 1 < corners 5 then 0 else 2)
    else 2
  else if corners 2 < corners 6 then 1
  else if corners 2 = corners 6 then (if corners 3 < corners 7 then 1 else 3)
  else 3

/-- The body of the loop over `quads`. -/
def sortQuad (quad : QuadRow K) : QuadRow K :=
  let corners := sortedRow math arccos argsort quad
  let first := firstIdx corners
  fun k =>
    let idx := (first + k / 2) % 4
    corners (idx * 2 + k % 2)

/-- `sort_corners`. -/
def sortCorners (quads : List (QuadRow K)) : List (QuadRow K) :=
  quads.map (sortQuad math arccos argsort)

end W2Net.SortCorners
