import Mathlib.Algebra.BigOperators.Fin
import W2Net.Lib.FirstMax
import W2Net.Utils.BoxCoder
import W2Net.Utils.RboxOverlaps

/-!
# `W2Net.Models.Losses`: the targets of `IntegratedLoss.forward`

The part of `models/losses.py` that decides what each anchor is trained on. For
one image it computes the IoU matrix of the anchors and the valid annotations,
and from it

* `iouArgmax`: the annotation an anchor is compared with,
* `positiveIndices`: the anchors that are trained on their annotation, and
* `clsTargets`: the classification target of each anchor.

The matrix functions take any matrix. `writtenTargets` writes the targets with
the assignments of the source, and `clsLoss` is the focal loss with them.
`imageTargets` is the whole computation for one image. `lmr5p` is the regression
loss of the positive anchors.
-/

set_option autoImplicit false

namespace W2Net.Losses

/-! ### From the IoU matrix to the targets -/

section
variable {R : Type} [LinearOrder R] {N M : ℕ} [NeZero N] [NeZero M]

/-- `iou_argmax` of `torch.max(ious, dim=1)`. -/
def iouArgmax (ious : Fin N → Fin M → R) (n : Fin N) : Fin M := argmax (ious n)

/-- `iou_max`. -/
def iouMax (ious : Fin N → Fin M → R) (n : Fin N) : R := ious n (iouArgmax ious n)

/-- `argmax_gt` of `ious.max(0)`. -/
def argmaxGt (ious : Fin N → Fin M → R) (k : Fin M) : Fin N := argmax fun n => ious n k

/-- `max_gt`. -/
def maxGt (ious : Fin N → Fin M → R) (k : Fin M) : R := ious (argmaxGt ious k) k

/-- `argmax_gt[max_gt < iou_thres]`: the best anchors of the annotations without
an anchor that reaches the threshold. -/
def forcedAnchors (ious : Fin N → Fin M → R) (iouThres : R) : List (Fin N) :=
  ((List.finRange M).filter fun k => maxGt ious k < iouThres).map (argmaxGt ious)

/-- `positive_indices`: the anchors that reach the threshold, and the forced
ones. -/
def positiveIndices (ious : Fin N → Fin M → R) (iouThres : R) : Fin N → Bool :=
  let positive : Fin N → Bool := fun n => decide (iouThres ≤ iouMax ious n)
  if ∃ k, maxGt ious k < iouThres then
    (forcedAnchors ious iouThres).foldl (fun p n => Function.update p n true) positive
  else positive

/-- `cls_targets`: a row is all -1 (ignored), all 0 (background) or one-hot at
the class of the assigned annotation. `bgThres` is `iou_thres - 0.1`. -/
def clsTargets {C : ℕ} (ious : Fin N → Fin M → R) (iouThres bgThres : R)
    (cls : Fin M → Fin C) (n : Fin N) (c : Fin C) : ℤ :=
  if positiveIndices ious iouThres n then
    if cls (iouArgmax ious n) = c then 1 else 0
  else if iouMax ious n < bgThres then 0
  else -1

end

/-! ### The classification loss -/

section
variable {K : Type} [Field K] [LinearOrder K] {N M C : ℕ}

/-- `targets[mask, :] = value`. -/
def fillRows (mask : Fin N → Bool) (value : ℤ) (targets : Fin N → Fin C → ℤ) : Fin N → Fin C → ℤ :=
  fun n c => if mask n then value else targets n c

/-- `targets[mask, columns[mask]] = value`. -/
def fillEntries (mask : Fin N → Bool) (columns : Fin N → Fin C) (value : ℤ)
    (targets : Fin N → Fin C → ℤ) : Fin N → Fin C → ℤ :=
  fun n c => if mask n = true ∧ columns n = c then value else targets n c

/-- `cls_targets`, as the assignments of `forward` write it. -/
def writtenTargets [NeZero N] [NeZero M] (ious : Fin N → Fin M → K) (iouThres : K)
    (cls : Fin M → Fin C) : Fin N → Fin C → ℤ :=
  let positive := positiveIndices ious iouThres
  let targets : Fin N → Fin C → ℤ := fun _ _ => -1
  let targets := fillRows (fun n => decide (iouMax ious n < iouThres - 1 / 10)) 0 targets
  let targets := fillRows positive 0 targets
  fillEntries positive (fun n => cls (iouArgmax ious n)) 1 targets

/-- `torch.clamp(classification, 1e-4, 1.0 - 1e-4)`. -/
def clampScore (p : K) : K := min (max p (1 / 10 ^ 4)) (1 - 1 / 10 ^ 4)

/-- An entry of `cls_loss`, with `torch.log` and `torch.pow`. -/
def focalEntry (tm : TorchMath K) (pow : K → K → K) (alpha gamma : K) (target : ℤ) (score : K) : K :=
  let p := clampScore score
  let alphaFactor := if target = 1 then alpha else 1 - alpha
  let focalWeight := alphaFactor * pow (if target = 1 then 1 - p else p) gamma
  let binCrossEntropy := -((target : K) * tm.log (p + 1 / 10 ^ 6)
    + (1 - (target : K)) * tm.log (1 - p + 1 / 10 ^ 6))
  if target ≠ -1 then focalWeight * binCrossEntropy else 0

/-- `num_positive_anchors`. -/
def numPositiveAnchors [NeZero N] [NeZero M] (ious : Fin N → Fin M → K) (iouThres : K) : ℕ :=
  ∑ n, if positiveIndices ious iouThres n then 1 else 0

/-- The entry of `cls_losses` for an image with annotations. -/
def clsLoss [NeZero N] [NeZero M] (tm : TorchMath K) (pow : K → K → K) (alpha gamma : K)
    (ious : Fin N → Fin M → K) (iouThres : K) (cls : Fin M → Fin C)
    (classification : Fin N → Fin C → K) : K :=
  let targets := writtenTargets ious iouThres cls
  (∑ n, ∑ c, focalEntry tm pow alpha gamma (targets n c) (classification n c))
    / max (numPositiveAnchors ious iouThres : K) 1

end

/-! ### One image -/

section
variable {K : Type} [Field K] [LinearOrder K] [FloorRing K] (cv : Cv2 K)

/-- A row of `annotations`: a box and a class, -1 for a padding row. -/
structure AnnotRow (K : Type) where
  box : RBox K
  cls : ℤ

/-- `bbox_annotation[bbox_annotation[:, -1] != -1]`. -/
def validAnnotations (annotations : List (AnnotRow K)) : List (AnnotRow K) :=
  annotations.filter fun b => b.cls ≠ -1

/-- The same line on the rows of the tensor, with the class in the last column. -/
def dropPadded (rows : List (Fin 6 → K)) : List (Fin 6 → K) := rows.filter fun r => r 5 ≠ -1

/-- `bbox_overlaps(min_area_square(anchors), min_area_square(bbox_annotation))`. -/
def indicator {N M : ℕ} (anchors : Fin N → RBox K) (boxes : Fin M → RBox K) :
    Fin N → Fin M → K :=
  fun n k => Bbox.bboxOverlaps (Bbox.minAreaSquare (anchors n)) (Bbox.minAreaSquare (boxes k))

/-- `ious`, with the pre-filter at `1e-1`. -/
def ious {N M : ℕ} (anchors : Fin N → RBox K) (boxes : Fin M → RBox K) : Fin N → Fin M → K :=
  RboxOverlaps.rboxOverlaps cv anchors boxes (some (indicator anchors boxes)) (1 / 10)

/-- What `forward` computes for one image: `positive_indices`, and the annotation
each anchor is assigned. -/
structure ImageTargets (N : ℕ) (K : Type) where
  positive : Fin N → Bool
  assigned : Fin N → AnnotRow K

/-- The targets of one image, or `none` for an image without annotations, whose
losses are 0. -/
def imageTargets {N : ℕ} [NeZero N] (anchors : Fin N → RBox K)
    (annotations : List (AnnotRow K)) (iouThres : K) : Option (ImageTargets N K) :=
  let valid := validAnnotations annotations
  if h : valid.length = 0 then none
  else
    have : NeZero valid.length := ⟨h⟩
    let m := ious cv anchors fun k => (valid.get k).box
    some
      { positive := positiveIndices m iouThres
        assigned := fun n => valid.get (iouArgmax m n) }

end

/-! ### The regression loss -/

section
variable {K : Type} [Field K] [LinearOrder K]

/-- `_smooth`. -/
def smooth (beta d : K) : K := if d < beta then 1 / 2 * d * d / beta else d - 1 / 2 * beta

/-- `loss` of `lmr5p` for one row: the smaller one of the two paths. -/
def lmr5pRow (c : BoxCoder K) (tm : TorchMath K) (beta : K) (input target anchor : Fin 5 → K) : K :=
  let t2Equiv := c.lmr5pangle tm (anchor 4) (input 4)
  let diff1 := |target 0 - input 0|
  let diff2 := |target 1 - input 1|
  let diff3 := |target 2 - input 2|
  let diff4 := |target 3 - input 3|
  -- The width of the target with the height of the input, and the other way around.
  let diff5 := |target 2 - input 3|
  let diff6 := |target 3 - input 2|
  let diff7 := |target 4 - input 4|
  let diff8 := |target 4 - t2Equiv|
  let lossA := smooth beta diff1 + smooth beta diff2 + smooth beta diff3 + smooth beta diff4
    + smooth beta diff7
  let lossB := smooth beta diff1 + smooth beta diff2 + smooth beta diff5 + smooth beta diff6
    + smooth beta diff8
  min lossA lossB

/-- `lmr5p` on arrays of `N` rows. `forward` calls it with `N` positive anchors, and not when
there are none. -/
def lmr5p {N : ℕ} [NeZero N] (c : BoxCoder K) (tm : TorchMath K)
    (inputs targets anchors : Fin N → Fin 5 → K) (beta : K) (sizeAverage : Bool) : K :=
  let loss := fun i => lmr5pRow c tm beta (inputs i) (targets i) (anchors i)
  if sizeAverage then (∑ i, loss i / 5) / N else ∑ i, loss i

end

end W2Net.Losses
