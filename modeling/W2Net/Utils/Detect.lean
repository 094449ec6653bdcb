import W2Net.Models.Decoder
import W2Net.Utils.Rescale

/-!
# `W2Net.Utils.Detect`: detections on an image of any size

The model of `single_scale_detect` and `im_detect` of `utils/detect.py`. The image is
resized, the model runs on the resized image, and its boxes are brought back. Detections
of class 0 are dropped. The network is a function from the resized image to the
rows of the decoder. `im_detect` joins the detections of several sizes and suppresses among
all of them; a single number for `target_sizes` is a list with this number.
-/

set_option autoImplicit false

namespace W2Net.Detect

open W2Net.Letterbox (ResizeOps)

variable {K P : Type} [Field K] [LinearOrder K] [FloorRing K]

/-- A detection on the original image. -/
def unscale (imScales : ImScale K) (d : Detection K) : Detection K :=
  { d with box := imScales.divFirst4 d.box, anchor := d.anchor.map imScales.divFirst4 }

/-- What `single_scale_detect` does with the output of the model. -/
def selectDetections (imScales : ImScale K) (dets : List (Detection K)) : List (Detection K) :=
  (dets.map (unscale imScales)).filter fun d => decide (0 < d.cls)

/-- `single_scale_detect`. -/
def singleScaleDetect (ops : ResizeOps P) (model : Img P → PyM (List (Detection K))) (src : Img P)
    (targetSize : K) : PyM (List (Detection K)) := do
  let (im, imScales) ← Rescale.rescale ops src targetSize 2000 true
  let dets ← model im
  .ok (selectDetections imScales dets)

/-- `ms_dets` after the detections of one more size. -/
def addScale (msDets : Option (List (Detection K))) (clsDets : List (Detection K)) :
    Option (List (Detection K)) :=
  if clsDets.length = 0 then msDets
  else
    match msDets with
    | none => some clsDets
    | some ms => some (ms ++ clsDets)

/-- `ms_dets` after the loop: the suppression over all sizes. -/
def suppressScales (argsort : Argsort K) (cv : Cv2 K) :
    Option (List (Detection K)) → PyM (List (Detection K))
  | none => .ok []
  | some ms => do
      let keep ← Nms.nms argsort cv (ms.map Decoder.nmsRow) (1 / 10)
      keep.mapM (getOrIndexError ms)

/-- `im_detect`. -/
def imDetect (argsort : Argsort K) (cv : Cv2 K) (ops : ResizeOps P)
    (model : Img P → PyM (List (Detection K))) (src : Img P) (targetSizes : List K) :
    PyM (List (Detection K)) :=
  match targetSizes with
  | [targetSize] => singleScaleDetect ops model src targetSize
  | _ => do
      let msDets ← targetSizes.foldlM (fun msDets scale => do
        let clsDets ← singleScaleDetect ops model src scale
        .ok (addScale msDets clsDets)) none
      suppressScales argsort cv msDets

end W2Net.Detect
