import W2Net.Datasets.WakeDataset

/-!
# `W2Net.Utils.VisObbLabels`: the label viewers

The normalisation and the drawing of `utils/vis_obb_labels.py` and of
`utils/vis-obb-2.o.py`, which draw the annotated boxes over an image. Each
function takes a row `[cx, cy, w, h, a_deg]` of the array.
-/

set_option autoImplicit false

namespace W2Net

variable {K : Type} [Field K]

/-- `rbox_deg_to_quad` of both tools, before the corners are cut to integers. -/
def VisObbLabels.rboxDegToQuad (m : PyMath K) (r : RowXywha K) : QuadRow K :=
  WakeDataset.rboxToPoly m { r with a := r.a * m.pi / 180 }

variable [LinearOrder K]

namespace VisObbLabels

/-- The rows of the mask `m1`: half a turn more, and `w` and `h` exchanged. -/
def raiseMasked (r : RowXywha K) : RowXywha K :=
  if r.a ≤ -90 then { r with a := r.a + 180, w := r.h, h := r.w } else r

/-- The rows of the mask `m2`: half a turn less, and `w` and `h` exchanged. -/
def lowerMasked (r : RowXywha K) : RowXywha K :=
  if 90 < r.a then { r with a := r.a - 180, w := r.h, h := r.w } else r

/-- `normalize_xywha_deg`. -/
def normalizeXywhaDeg [FloorRing K] (r : RowXywha K) : RowXywha K :=
  let r := lowerMasked (raiseMasked { r with a := pyMod (r.a + 180) 360 - 180 })
  { r with w := |r.w|, h := |r.h| }

end VisObbLabels

/-- `normalize_xywha_deg` of the second tool, which leaves the signs of `w` and `h`. -/
def VisObb2.normalizeXywhaDeg [FloorRing K] (r : RowXywha K) : RowXywha K :=
  VisObbLabels.lowerMasked
    (VisObbLabels.raiseMasked { r with a := pyMod (r.a + 180) 360 - 180 })

end W2Net
