import W2Net.Lib.FillLoop
import W2Net.Utils.Bbox

/-!
# `W2Net.Utils.RboxOverlaps`: the IoU matrix of rotated boxes

The model of the compiled `rbox_overlaps` in `utils/overlaps/rbox_overlaps.pyx`,
which `models/losses.py` calls. `overlapEntry` is the body of the two loops for
one pair of boxes, and `rboxOverlaps` the matrix with the optional pre-filter.

`rboxOverlapsLoop` is the function with its loops and with the check that Cython puts
in front of each division. It returns `rboxOverlaps` where no divisor is 0.
-/

set_option autoImplicit false

namespace W2Net.RboxOverlaps

variable {K : Type} [Field K] [LinearOrder K] [FloorRing K] (cv : Cv2 K)

/-- The overlap of a box and a query box. An intersection that is only partial
has its area rounded to an integer. -/
def overlapEntry (box query : RBox K) : K :=
  let boxArea := query.area
  let ua := box.area + boxArea
  if cv.kind box.rect query.rect = 1 then
    let ia : K := (pyRound (cv.area box.rect query.rect) : K)
    ia / (ua - ia)
  else if cv.kind box.rect query.rect = 2 then
    let ia := min (ua - boxArea) boxArea
    ia / (ua - ia)
  else 0

/-- `rbox_overlaps`. An entry whose indicator is below `thresh` is skipped and
stays 0. -/
def rboxOverlaps {N M : ℕ} (boxes : Fin N → RBox K) (queryBoxes : Fin M → RBox K)
    (indicator : Option (Fin N → Fin M → K)) (thresh : K) : Fin N → Fin M → K :=
  fun n k =>
    match indicator with
    | some ind => if ind n k < thresh then 0 else overlapEntry cv (boxes n) (queryBoxes k)
    | none => overlapEntry cv (boxes n) (queryBoxes k)

/-! ### The loops -/

section
variable {N M : ℕ} (boxes : Fin N → RBox K) (queryBoxes : Fin M → RBox K)
  (indicator : Option (Fin N → Fin M → K)) (thresh : K)

/-- The body of the two loops, with the check of the divisor. -/
def overlapStep (i : Fin N × Fin M) : PyM (Option K) :=
  if Bbox.skipped indicator thresh i then .ok none
  else
    let box := boxes i.1
    let query := queryBoxes i.2
    let boxArea := query.area
    let ua := box.area + boxArea
    if cv.kind box.rect query.rect = 1 then
      let ia : K := (pyRound (cv.area box.rect query.rect) : K)
      (pyDiv ia (ua - ia)).map some
    else if cv.kind box.rect query.rect = 2 then
      let ia := min (ua - boxArea) boxArea
      (pyDiv ia (ua - ia)).map some
    else .ok none

/-- `rbox_overlaps`, entry by entry. -/
def rboxOverlapsLoop : PyM (Fin N × Fin M → K) :=
  fillLoop (overlapStep cv boxes queryBoxes indicator thresh) (cells N M) fun _ => 0

end

end W2Net.RboxOverlaps
