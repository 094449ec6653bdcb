import W2Net.Lib.Cv2
import W2Net.Lib.FillLoop
import W2Net.Lib.Rounding

/-!
# `W2Net.Utils.Bbox`: boxes

The functions of `utils/bbox.py` on single rows. `RBox` is a rotated box
`(x1, y1, x2, y2, angle)`, `Aabb` an axis-aligned box, and `RowXywha` a box
`(cx, cy, w, h, angle)`. The array functions of the source apply these row by
row. Numbers are exact, except where a comparison of `float32` values decides.
-/

set_option autoImplicit false

namespace W2Net

/-- A rotated box `(x1, y1, x2, y2, angle)`. -/
structure RBox (K : Type) where
  x1 : K
  y1 : K
  x2 : K
  y2 : K
  a : K
  deriving Repr, DecidableEq

/-- An axis-aligned box `(x1, y1, x2, y2)`. -/
structure Aabb (K : Type) where
  x1 : K
  y1 : K
  x2 : K
  y2 : K
  deriving Repr, DecidableEq

/-- A box `(cx, cy, w, h, angle)`. -/
structure RowXywha (K : Type) where
  cx : K
  cy : K
  w : K
  h : K
  a : K
  deriving Repr, DecidableEq

namespace RBox

variable {K : Type} [Field K]

/-- `((x, y), (w, h), angle)` of a box, as the overlap functions compute it. -/
def rect (b : RBox K) : RotatedRect K where
  x := b.x1 + (b.x2 - b.x1) * (1 / 2)
  y := b.y1 + (b.y2 - b.y1) * (1 / 2)
  w := b.x2 - b.x1
  h := b.y2 - b.y1
  t := b.a

/-- The first five columns of a row. -/
def ofRow {n : ℕ} (row : Fin (n + 5) → K) : RBox K :=
  ⟨row ⟨0, by omega⟩, row ⟨1, by omega⟩, row ⟨2, by omega⟩, row ⟨3, by omega⟩, row ⟨4, by omega⟩⟩

/-- `w * h`. -/
def area (b : RBox K) : K := b.rect.area

/-- Both sides are positive. -/
def Positive [LinearOrder K] (b : RBox K) : Prop := 0 < b.rect.w ∧ 0 < b.rect.h

end RBox

namespace Bbox

variable {K : Type} [Field K] [LinearOrder K]

/-- `mask_valid_boxes(boxes, return_mask=True)` on one row: both sides longer
than 2 and the aspect ratio below 30. The array is one of `float32`: the sides
were rounded to it, and the `1e-16` is lost in a sum with a side longer than 2. -/
def maskValidBoxes [FloorRing K] (r : RowXywha K) : Bool :=
  let w := single r.w
  let h := single r.h
  let tiny : K := single (1 / 10 ^ 16)
  let ar := max (single (w / single (h + tiny))) (single (h / single (w + tiny)))
  decide (2 < w) && decide (2 < h) && decide (ar < 30)

/-- `min_area_square`: the axis-aligned square around the centre with the longer
side. -/
def minAreaSquare (b : RBox K) : Aabb K :=
  let w := b.x2 - b.x1
  let h := b.y2 - b.y1
  let ctrX := b.x1 + w * (1 / 2)
  let ctrY := b.y1 + h * (1 / 2)
  let s := max w h
  { x1 := ctrX - s * (1 / 2)
    y1 := ctrY - s * (1 / 2)
    x2 := ctrX + s * (1 / 2)
    y2 := ctrY + s * (1 / 2) }

/-- `bbox_overlaps`: one entry of the matrix. -/
def bboxOverlaps (box query : Aabb K) : K :=
  let area := (query.x2 - query.x1) * (query.y2 - query.y1)
  let iw := max (min box.x2 query.x2 - max box.x1 query.x1) 0
  let ih := max (min box.y2 query.y2 - max box.y1 query.y1) 0
  let ua := max ((box.x2 - box.x1) * (box.y2 - box.y1) + area - iw * ih) (1 / 10 ^ 8)
  iw * ih / ua

/-- `indicator is not None and indicator[n, k] < thresh`. -/
def skipped {N M : ℕ} (indicator : Option (Fin N → Fin M → K)) (thresh : K) (i : Fin N × Fin M) :
    Bool :=
  match indicator with
  | some ind => decide (ind i.1 i.2 < thresh)
  | none => false

section
variable {N M : ℕ} (cv : Cv2 K) (boxes : Fin N → RBox K) (queryBoxes : Fin M → RBox K)
  (indicator : Option (Fin N → Fin M → K)) (thresh : K)

/-- The body of the two loops of `rbox_overlaps`. -/
def overlapStep (i : Fin N × Fin M) : PyM (Option (NpFloat K)) :=
  if skipped indicator thresh i then .ok none
  else
    let box := boxes i.1
    let query := queryBoxes i.2
    let boxArea := query.area
    let ua := box.area + boxArea
    let contours := (cv.rotatedRectangleIntersection box.rect query.rect).2
    if cv.kind box.rect query.rect = 1 then
      let ia := cv.contourArea contours
      .ok (some (npDiv ia (ua - ia)))
    else if cv.kind box.rect query.rect = 2 then
      let ia := min (ua - boxArea) boxArea
      .ok (some (npDiv ia (ua - ia)))
    else .ok none

/-- `rbox_overlaps`, the one that was rewritten in Cython. -/
def rboxOverlaps : PyM (Fin N × Fin M → NpFloat K) :=
  fillLoop (overlapStep cv boxes queryBoxes indicator thresh) (cells N M) fun _ => .finite 0

end

/-- `rbox_2_quad(rboxes, mode='xywha')` on one row. -/
def rbox2Quad (cvb : Cv2Boxes K) (r : RowXywha K) : QuadRow K :=
  cvb.boxPoints ⟨r.cx, r.cy, r.w, r.h, r.a⟩

/-- `rbox_2_quad(rboxes, mode='xyxya')` on one row. -/
def rbox2QuadXyxya (cvb : Cv2Boxes K) (rbox : RBox K) : QuadRow K :=
  let w := rbox.x2 - rbox.x1
  let h := rbox.y2 - rbox.y1
  cvb.boxPoints ⟨rbox.x1 + 1 / 2 * w, rbox.y1 + 1 / 2 * h, w, h, rbox.a⟩

/-- A row of `quad_2_rbox(quads, mode='xywha')` before its first four columns lose their
fraction. -/
def quad2RboxRow (cvb : Cv2Boxes K) (quad : QuadRow K) : RowXywha K :=
  let r := cvb.minAreaRect quad
  if |r.t| < 45 then ⟨r.x, r.y, r.w, r.h, r.t⟩
  else if 45 < |r.t| then ⟨r.x, r.y, r.h, r.w, 90 + r.t⟩
  else if r.h < r.w then ⟨r.x, r.y, r.w, r.h, -45⟩
  else ⟨r.x, r.y, r.h, r.w, 45⟩

/-- `rboxes[:, 0:4].astype(np.int32)` on one row. -/
def truncRow [FloorRing K] (box : RowXywha K) : RowXywha K :=
  ⟨pyTrunc box.cx, pyTrunc box.cy, pyTrunc box.w, pyTrunc box.h, box.a⟩

/-- `quad_2_rbox(quads, mode='xywha')` on one row: the angle is brought to
`[-45, 45]` and the first four columns lose their fraction. -/
def quad2Rbox [FloorRing K] (cvb : Cv2Boxes K) (quad : QuadRow K) : RowXywha K :=
  truncRow (quad2RboxRow cvb quad)

/-- The argument of `constraint_theta`: a numpy array or a tensor, of rows or one row. -/
inductive BoxArray (K : Type) where
  | array2 (rows : List (RowXywha K))
  | array1 (row : RowXywha K)
  | tensor2 (rows : List (RowXywha K))
  | tensor1 (row : RowXywha K)
  deriving DecidableEq

/-- The rows of an argument. -/
def BoxArray.rows : BoxArray K → List (RowXywha K)
  | .array2 rows => rows
  | .array1 row => [row]
  | .tensor2 rows => rows
  | .tensor1 row => [row]

/-- The body of the loop of `constraint_theta`. -/
def constraintRow (box : RowXywha K) : RowXywha K :=
  if 45 < box.a then ⟨box.cx, box.cy, box.h, box.w, box.a - 90⟩
  else if box.a < -45 then ⟨box.cx, box.cy, box.h, box.w, box.a + 90⟩
  else if |box.a| = 45 then
    if box.h < box.w then ⟨box.cx, box.cy, box.w, box.h, -45⟩
    else ⟨box.cx, box.cy, box.h, box.w, 45⟩
  else box

/-- `constraint_theta`. The attribute `grad_fn` of a tensor is never `False`, and one row of a
tensor is put into a list, which has no columns. -/
def constraintTheta (bboxes : BoxArray K) : PyM (BoxArray K) :=
  let restricted (rows : List (RowXywha K)) : Bool :=
    rows.all fun box => decide (-90 ≤ box.a) && decide (box.a ≤ 90)
  match bboxes with
  | .array2 rows =>
      if restricted rows then .ok (.array2 (rows.map constraintRow)) else .error .assertionError
  | .array1 row =>
      if restricted [row] then .ok (.array1 (constraintRow row)) else .error .assertionError
  | .tensor2 _ => .error .assertionError
  | .tensor1 _ => .error .typeError

end Bbox

end W2Net
