import W2Net.Lib.FirstMax
import W2Net.Utils.BoxCoder
import W2Net.Utils.Nms

/-!
# `W2Net.Models.Decoder`: from the outputs of the heads to detections

The model of `RetinaNet.decoder` of `models/model.py` for a batch of one image,
with `clip_boxes` of `utils/bbox.py`. A row of the heads and its anchor become a
candidate with the score and the class of the highest class score. The
candidates that reach the threshold go through the suppression.
-/

set_option autoImplicit false

namespace W2Net

/-- What the heads predict for an anchor, with the anchor. -/
structure Prediction (K : Type) (classes : ℕ) where
  anchor : Fin 5 → K
  clsScore : Fin classes → K
  bboxPred : Fin 5 → K

/-- A row of the three arrays that `decoder` returns. The row has no anchor when
it stands for "no detection". -/
structure Detection (K : Type) where
  score : K
  cls : ℕ
  box : Fin 5 → K
  anchor : Option (Fin 5 → K)

namespace Decoder

variable {K : Type} [Field K] [LinearOrder K]

/-- `clip_boxes` on an image with `h` rows and `w` columns. -/
def clipBox (h w : ℕ) (box : Fin 5 → K) : Fin 5 → K :=
  ![max (box 0) 0, max (box 1) 0, min (box 2) w, min (box 3) h, box 4]

/-- The row `[torch.zeros(1), torch.zeros(1), torch.zeros(1, 5)]`. -/
def noDetection : Detection K := ⟨0, 0, 0, none⟩

/-- A row of `torch.cat([bboxes, scores], dim=2)`. -/
def nmsRow (d : Detection K) : Nms.Det K :=
  ![d.box 0, d.box 1, d.box 2, d.box 3, d.box 4, d.score]

/-- The parts of `RetinaNet` that `decoder` uses, and the functions behind them. -/
structure Config (K : Type) [LinearOrder K] where
  boxCoder : BoxCoder K
  tm : TorchMath K
  argsort : Argsort K
  cv : Cv2 K

variable (cfg : Config K)

/-- The decoded and clipped box with the highest class score. -/
def candidate {classes : ℕ} [NeZero classes] (h w : ℕ) (p : Prediction K classes) : Detection K where
  score := p.clsScore (argmax p.clsScore)
  cls := argmax p.clsScore
  box := clipBox h w (cfg.boxCoder.decode cfg.tm "xywht" p.anchor p.bboxPred)
  anchor := some p.anchor

variable [FloorRing K]

/-- `decoder`, with `testConf` in place of `thresh` when it is given. -/
def decoder {classes : ℕ} [NeZero classes] (h w : ℕ) (preds : List (Prediction K classes))
    (thresh nmsThresh : K) (testConf : Option K) : PyM (List (Detection K)) :=
  let thresh := testConf.getD thresh
  let kept := (preds.map (candidate cfg h w)).filter fun d => decide (thresh ≤ d.score)
  if kept.isEmpty then .ok [noDetection]
  else do
    let anchorsNmsIdx ← Nms.nms cfg.argsort cfg.cv (kept.map nmsRow) nmsThresh
    anchorsNmsIdx.mapM (getOrIndexError kept)

end Decoder

end W2Net
