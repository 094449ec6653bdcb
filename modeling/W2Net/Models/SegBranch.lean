import W2Net.Models.RetinaNet
import W2Net.Models.Unetdecoder

/-!
# `W2Net.Models.SegBranch`: the segmentation in the forward pass

The model of `RetinaNet.forward` of `models/model.py`, in evaluation mode and up to `cls_score` and
`bbox_pred`, with the segmentation that `W2Net.Models.RetinaNet` takes as a gate: `P2` and `P1` from
the finer features of the backbone, the adapters, the segmentation head, and the loop that gates
the features of the detector with the segmentation.

`LightWeightWaveletCPAM` and `ConvLocal` are in `modules/cpam`, which is not part of the
repository. `Cpam` is any choice of them that keeps the shape of a feature.
-/

set_option autoImplicit false

namespace W2Net

open W2Net.Layers W2Net.FcaNet W2Net.Fpan W2Net.Heads W2Net.Unetdecoder

/-- The modules of `modules/cpam` that the network uses: an adapter for each of `P1` to `P5`, and
the attention on `P3` and `P4`. -/
structure Cpam (α : Type) where
  adapter : ℕ → Tensor α → Tensor α → PyM (Tensor α)
  convLocal : ℕ → Tensor α → PyM (Tensor α)
  adapter_returns : ∀ i x {n h w : ℕ}, HasShape [n, 256, h, w] x → 0 < h → 0 < w →
    Returns (adapter i x x) (HasShape [n, 256, h, w])
  convLocal_returns : ∀ i x {n h w : ℕ}, HasShape [n, 256, h, w] x → 0 < h → 0 < w →
    Returns (convLocal i x) (HasShape [n, 256, h, w])

section
variable {α K : Type} (E : Entries α)

/-- `P2` from `c2` and `P3`, and `P1` from `c1` and `P2`: `reduce` of the finer feature and the
coarser one in its size, with the two weights, through `smooth`. -/
def segFuse (p : String) (inChannels : ℕ) (c coarser : Tensor α) : PyM (Tensor α) := do
  let reduced ← (⟨inChannels, 256, 1, 1, 0⟩ : Conv2d).forward E (p ++ "_reduce") c
  let up ← interpolateLike E (p ++ "_interpolate") c coarser
  let sum ← addTo E (p ++ "_sum") (pointwise E ("w_" ++ p ++ ".0") reduced)
    (pointwise E ("w_" ++ p ++ ".1") up)
  convBnRelu E (p ++ "_smooth") 0 ⟨256, 256, 3, 1, 1⟩ sum

/-- `seg_logits`, from `c1`, `c2` and the features `P3` to `P7` for an image of `h × w` pixels. -/
def segLogits (cpam : Cpam α) (c1 c2 : Tensor α) (pFeats : List (Tensor α)) (h w : ℕ) :
    PyM (Tensor α) :=
  match pFeats with
  | [p3, p4, p5, _, _] => do
      let p2 ← segFuse E "p2" 256 c2 p3
      let p1 ← segFuse E "p1" 64 c1 p2
      let s1 ← cpam.adapter 0 p1 p1
      let s2 ← cpam.adapter 1 p2 p2
      let s3 ← cpam.adapter 2 p3 p3
      let s4 ← cpam.adapter 3 p4 p4
      let s5 ← cpam.adapter 4 p5 p5
      (⟨256, 1, true⟩ : FPNUNet5SegHead).forward E "seg_head" s1 s2 s3 s4 s5 h w
  | _ => .error .valueError

/-- `seg_att_convs[i]`: the attention on `P3` and `P4`, and a convolution on the coarser ones. -/
def segAttConv (cpam : Cpam α) (i : ℕ) (x : Tensor α) : PyM (Tensor α) :=
  if i < 2 then cpam.convLocal i x
  else convBnRelu E ("seg_att_convs." ++ toString i) 0 ⟨256, 256, 3, 1, 1⟩ x

/-- The body of the loop over `p_feats`, for the feature with index `i`. -/
def segGate (cpam : Cpam α) (aFull : Tensor α) (i : ℕ) (p : Tensor α) : PyM (Tensor α) := do
  let ai ← interpolateLike E "A_full" p aFull
  let factor := pointwise E ("seg_gate_ks." ++ toString i) ai
  let pg ← mulTo E "Pg" p factor
  let att ← segAttConv E cpam i pg
  addTo E "att_p_feats" p (pointwise E "seg_att_alpha" att)

/-- `RetinaNet.forward` in front of the loss and the decoder, with `seg_logits`. `BatchNorm2d` acts
on each entry, as in evaluation mode. In training mode it raises for a single value a channel. -/
def RetinaNet.segForward [Field K] (net : RetinaNet α K) (cpam : Cpam α) (m : PyMath K)
    (ims : Tensor α) : PyM (RetinaNet.Outputs α K × Tensor α) := do
  let anchors ← net.anchorGenerator.forward m ims
  let c ← features net.entries net.backbone ims
  let ch := net.backbone.fpnInChannels
  let c5 ← sppf net.entries "sppf" ch.2.2 ch.2.2 5 c.2.2.2.2
  let pFeats ← fpan net.entries "fpan" ch 256 c.2.2.1 c.2.2.2.1 c5
  let h := ims.shape.getD 2 0
  let w := ims.shape.getD 3 0
  let logits ← segLogits net.entries cpam c.1 c.2.1 pFeats h w
  let aFull := pointwise net.entries "A_full.sigmoid" logits
  let p ← pFeats.zipIdx.mapM fun p => segGate net.entries cpam aFull p.2 p.1
  let cls ← p.mapM (net.clsHead.forward net.entries "cls_head")
  let clsScore ← Tensor.cat 1 cls
  let reg ← p.mapM (net.regHead.forward net.entries "reg_head")
  let bboxPred ← Tensor.cat 1 reg
  .ok (⟨anchors, clsScore, bboxPred⟩, logits)

/-- The loop body as a gate. Where it raises, the gate leaves the feature as it is. -/
def Cpam.gate (cpam : Cpam α) (logits : Tensor α) : Gate α where
  apply i p :=
    match segGate E cpam (pointwise E "A_full.sigmoid" logits) i p with
    | .ok p' => ⟨p.shape, p'.data⟩
    | .error _ => p
  shape_apply i p := by
    split <;> rfl

/-- The network whose gate is the segmentation with these logits. -/
def RetinaNet.gatedBy (net : RetinaNet α K) (cpam : Cpam α) (logits : Tensor α) : RetinaNet α K :=
  { net with gate := cpam.gate net.entries logits }

end

end W2Net
