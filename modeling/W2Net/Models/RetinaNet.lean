import W2Net.Models.Anchors
import W2Net.Models.FcaNet
import W2Net.Models.Fpan
import W2Net.Models.Heads

/-!
# `W2Net.Models.RetinaNet`: from an image to the rows of the detector

The model of `RetinaNet.forward` of `models/model.py` up to `cls_score` and
`bbox_pred`, with `original_anchors`. The segmentation branch turns into a gate
for each feature of the pyramid: `Gate` holds what the loop over `p_feats` does
to the feature with a given index. It uses `modules/cpam`, which is not part of
the repository, so a gate is any function that keeps the shape.
-/

set_option autoImplicit false

namespace W2Net

open W2Net.Layers W2Net.FcaNet W2Net.Fpan W2Net.Heads

/-- The gating of the detection features by the segmentation. -/
structure Gate (α : Type) where
  apply : ℕ → Tensor α → Tensor α
  shape_apply : ∀ i x, (apply i x).shape = x.shape

/-- The parts of `RetinaNet`. `numClasses` is `int(hyps['num_classes']) + 1`. -/
structure RetinaNet (α K : Type) where
  backbone : Backbone
  foregroundClasses : ℕ
  anchorGenerator : Anchors K
  entries : Entries α
  gate : Gate α

variable {α K : Type} [Field K]

def RetinaNet.numClasses (net : RetinaNet α K) : ℕ := net.foregroundClasses + 1

def RetinaNet.clsHead (net : RetinaNet α K) : CLSHead :=
  ⟨256, 256, 4, net.anchorGenerator.numAnchors, net.numClasses, by decide⟩

def RetinaNet.regHead (net : RetinaNet α K) : REGHead :=
  ⟨256, 256, 4, net.anchorGenerator.numAnchors, 5, by decide⟩

/-- `Anchors(ratios=np.array([0.2, 0.5, 1.0, 2.0, 5.0]))`. -/
def RetinaNet.defaultAnchors : Anchors K :=
  .init none none none (some [1 / 5, 1 / 2, 1, 2, 5]) none none

/-- The five features `P3` to `P7` that the heads get. -/
def RetinaNet.pyramid (net : RetinaNet α K) (ims : Tensor α) : PyM (List (Tensor α)) := do
  let c ← features net.entries net.backbone ims
  let ch := net.backbone.fpnInChannels
  let c5 ← sppf net.entries "sppf" ch.2.2 ch.2.2 5 c.2.2.2.2
  let p ← fpan net.entries "fpan" ch 256 c.2.2.1 c.2.2.2.1 c5
  .ok (p.mapIdx net.gate.apply)

/-- What `forward` computes in front of the loss and the decoder. -/
structure RetinaNet.Outputs (α K : Type) where
  anchors : List (List (AnchorBox K))
  clsScore : Tensor α
  bboxPred : Tensor α

def RetinaNet.forward (net : RetinaNet α K) (m : PyMath K) (ims : Tensor α) :
    PyM (RetinaNet.Outputs α K) := do
  let anchors ← net.anchorGenerator.forward m ims
  let p ← net.pyramid ims
  let cls ← p.mapM (net.clsHead.forward net.entries "cls_head")
  let clsScore ← Tensor.cat 1 cls
  let reg ← p.mapM (net.regHead.forward net.entries "reg_head")
  let bboxPred ← Tensor.cat 1 reg
  .ok ⟨anchors, clsScore, bboxPred⟩

end W2Net
