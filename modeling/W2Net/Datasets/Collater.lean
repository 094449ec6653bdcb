import W2Net.Utils.Rescale

/-!
# `W2Net.Datasets.Collater`: a batch in arrays of one size

The model of `Collater.__call__` of `datasets/collater.py`. Every image of the
batch is resized and placed at the top left of a canvas that holds all of them,
its boxes are multiplied by its own `im_scale` and padded with rows of -1, and
its mask goes to the same place as the image.

The boxes of the batch are rows with `n` columns. The random choice of a scale is
an argument.
-/

set_option autoImplicit false

namespace W2Net

namespace Img

variable {P : Type}

/-- `canvas[:h, :w] = im` for an image with `h` rows and `w` columns. -/
def paste (canvas im : Img P) : Img P :=
  { canvas with px := fun y x => if y < im.H ∧ x < im.W then im.px y x else canvas.px y x }

/-- An array of `H` rows and `W` columns with one value. -/
def full (H W : ℕ) (value : P) : Img P := ⟨H, W, fun _ _ => value⟩

end Img

namespace Collater

open W2Net.Letterbox (ResizeOps)

/-- A sample of the dataset. A sample without a mask has `None` there. -/
structure Sample (P K : Type) (n : ℕ) where
  image : Img P
  boxes : List (Fin n → K)
  mask : Option (Img ℕ)

/-- `Collater` after `__init__`. -/
structure Settings where
  scales : List ℤ
  keepRatio : Bool

/-- What `__call__` returns. -/
structure Batch (Q K : Type) (n : ℕ) where
  image : List (Img Q)
  boxes : List (List (Fin n → K))
  mask : Option (List (Img ℕ))

/-- The functions on images: `cv2.resize`, and `Normailize` with `Reshape`, which
take each pixel by itself. `zero` is the pixel of `torch.zeros`. -/
structure Ops (P Q : Type) where
  resize : ResizeOps P
  transform : P → Q
  zero : Q

variable {P Q K : Type} {n : ℕ}

/-- `cv2.resize(m, (w, h), interpolation=cv2.INTER_NEAREST)`. OpenCV refuses an
empty mask. -/
def resizeMask (ops : Ops P Q) (mask : Img ℕ) (w h : ℕ) : PyM (Img ℕ) :=
  if mask.H = 0 ∨ mask.W = 0 then .error .cv2Error else .ok (ops.resize.nearest mask w h)

/-- One round of the loop for `max_width` and `max_height`, for an image with
`hw.1` rows and `hw.2` columns. -/
def maxSizeStep (m : ℤ × ℤ) (hw : ℕ × ℕ) : ℤ × ℤ :=
  (if m.1 < hw.2 then (hw.2 : ℤ) else m.1, if m.2 < hw.1 then (hw.1 : ℤ) else m.2)

/-- `(max_width, max_height)`. -/
def maxSize (sizes : List (ℕ × ℕ)) : ℤ × ℤ := sizes.foldl maxSizeStep (-1, -1)

variable [Field K] [LinearOrder K] [FloorRing K]

/-- `bbox[:, :4] * im_scale`, or the same for the eight coordinates of a polygon. -/
def scaleBoxes (imScale : ImScale K) (bbox : List (Fin n → K)) : List (Fin n → K) :=
  if n < 9 then bbox.map imScale.mulFirst4
  else bbox.map fun row j => if (j : ℕ) < 8 then row j * imScale.entry j else row j

/-- `padded_boxes[i]` for an array of `maxNumBoxes` rows. -/
def padBoxes (maxNumBoxes : ℕ) (bbox : List (Fin n → K)) : List (Fin n → K) :=
  bbox ++ List.replicate (maxNumBoxes - bbox.length) fun _ => -1

/-- `rescale` of the batch. -/
def rescale (cfg : Settings) (ops : Ops P Q) (scale : ℤ) (im : Img P) : PyM (Img P × ImScale K) :=
  let targetSize := Rescale.flooredTarget (scale : K)
  Rescale.rescale ops.resize im (targetSize : K) 2000 cfg.keepRatio

/-- The second pass for one sample, with canvases of `H` rows and `W` columns. -/
def fillSample (cfg : Settings) (ops : Ops P Q) (scale : ℤ) (H W maxNumBoxes : ℕ) (hasMask : Bool)
    (sample : Sample P K n) : PyM (Img Q × List (Fin n → K) × Img ℕ) := do
  let (imRescaled, imScale) ← rescale cfg ops scale sample.image
  let image := (Img.full H W ops.zero).paste (imRescaled.map ops.transform)
  let boxes := padBoxes maxNumBoxes (scaleBoxes imScale sample.boxes)
  match hasMask, sample.mask with
  | true, some mask => do
      let maskResized ← resizeMask ops mask imRescaled.W imRescaled.H
      .ok (image, boxes, (Img.full H W 0).paste maskResized)
  | _, _ => .ok (image, boxes, Img.full H W 0)

/-- `__call__`, for the random index `ind`. -/
def call (cfg : Settings) (ops : Ops P Q) (ind : ℕ) (batch : List (Sample P K n)) :
    PyM (Batch Q K n) := do
  let scale ← getOrIndexError cfg.scales ind
  let first ← batch.mapM fun sample => rescale (K := K) cfg ops scale sample.image
  let size := maxSize (first.map fun r => (r.1.H, r.1.W))
  -- `torch.zeros` refuses the sizes -1 of an empty batch.
  if size.1 < 0 ∨ size.2 < 0 then .error .runtimeError
  else do
    let maxNumBoxes := (batch.map fun sample => sample.boxes.length).foldl max 0
    let hasMask := batch.all fun sample => sample.mask.isSome
    let rows ← batch.mapM
      (fillSample cfg ops scale size.2.toNat size.1.toNat maxNumBoxes hasMask)
    .ok { image := rows.map fun r => r.1
          boxes := rows.map fun r => r.2.1
          mask := if hasMask then some (rows.map fun r => r.2.2) else none }

end Collater

end W2Net
