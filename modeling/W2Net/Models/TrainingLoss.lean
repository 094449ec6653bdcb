import Mathlib.Algebra.BigOperators.Group.Finset.Basic
import Mathlib.Data.PNat.Defs
import W2Net.Models.Losses
import W2Net.Train

/-!
# `W2Net.Models.TrainingLoss`: the losses of a batch

The model of `IntegratedLoss` of `models/losses.py` over the images of a batch, and of the
losses that `RetinaNet.forward` returns in training:

* `regLoss`: the four regression losses that `func` can select, on the positive anchors.
* `imageLosses`, `forward`: the losses of an image, and their means over the batch.
* `segLoss`: `BCEWithLogitsLoss` with `pos_weight`, and `dice_loss_from_logits`.
* `trainLosses`: the entries of the dictionary that `train_model` reads. There is none with the
  key `loss`.
* `trainEpoch`: the loop of `train_model` over the batches, with the shapes of what it stacks.

The scores, the regression and the logits are those that the network has computed. The functions
of torch that leave the rationals are a parameter.
-/

set_option autoImplicit false

namespace W2Net.Losses

/-- `torch.pow` and `torch.sigmoid`, next to the functions of the box coder. -/
structure LossMath (K : Type) extends TorchMath K where
  pow : K → K → K
  sigmoid : K → K

section
variable {K : Type} [Field K] [LinearOrder K]

/-! ### Regression -/

/-- An entry of `smooth_l1_loss`. -/
def smoothL1Entry (beta diff : K) : K :=
  if diff < beta then 1 / 2 * diff ^ 2 / beta else diff - 1 / 2 * beta

/-- An entry of `balanced_l1_loss`. -/
def balancedL1Entry (lm : LossMath K) (beta alpha gamma diff : K) : K :=
  let b := lm.exp (gamma / alpha) - 1
  if diff < beta then
    alpha / b * (b * diff + 1) * lm.log (b * diff / beta + 1) - alpha * diff
  else gamma * diff + gamma / b - alpha * beta

/-- The mean of a loss over the entries of `N` rows of offsets. -/
def entryMean {N : ℕ} (entry : K → K) (inputs targets : Fin N → Fin 5 → K) : K :=
  (∑ i, ∑ j, entry |inputs i j - targets i j|) / (N * 5)

/-- `self.criteron`. -/
inductive Criteron where
  | smooth
  | mse
  | balanced
  | lmr5p
  deriving DecidableEq

/-- The choice of `__init__`. -/
def Criteron.ofFunc (func : String) : PyM Criteron :=
  if func = "smooth" then .ok .smooth
  else if func = "mse" then .ok .mse
  else if func = "balanced" then .ok .balanced
  else if func = "lmr5p" then .ok .lmr5p
  else .error .valueError

/-- `reg_loss` of the positive anchors, with the defaults of the loss functions. -/
def regLoss {N : ℕ} [NeZero N] (lm : LossMath K) (c : BoxCoder K) (criteron : Criteron)
    (inputs targets anchors : Fin N → Fin 5 → K) : K :=
  match criteron with
  | .smooth => entryMean (smoothL1Entry (1 / 9)) inputs targets
  | .mse => entryMean (fun diff => diff ^ 2) inputs targets
  | .balanced => entryMean (balancedL1Entry lm (1 / 9) (1 / 2) (3 / 2)) inputs targets
  | .lmr5p => lmr5p c lm.toTorchMath inputs targets anchors (1 / 9) true

/-! ### An image -/

/-- The attributes of `IntegratedLoss` that the losses of the boxes read. -/
structure IntegratedLoss (K : Type) where
  alpha : K
  gamma : K
  criteron : Criteron
  boxCoder : BoxCoder K

/-- `IntegratedLoss(func='smooth')`, as `RetinaNet` has it. -/
def IntegratedLoss.smooth : IntegratedLoss K := ⟨1 / 4, 2, .smooth, .init⟩

/-- The slices of the batch for one image. -/
structure TrainImage (N C : ℕ) (K : Type) where
  classification : Fin N → Fin C → K
  regression : Fin N → Fin 5 → K
  anchors : Fin N → Fin 5 → K
  annotations : List (AnnotRow K)

/-- The first five columns of an annotation. -/
def boxRow (b : RBox K) : Fin 5 → K := ![b.x1, b.y1, b.x2, b.y2, b.a]

/-- A class as an index into a row of `C` columns: a negative one counts from the end. -/
def classColumn (C : ℕ) [NeZero C] (cls : ℤ) : Fin C := Fin.ofNat C (cls % C).toNat

/-- The index is one of the row. -/
def ValidClass (C : ℕ) (cls : ℤ) : Prop := -(C : ℤ) ≤ cls ∧ cls < C

instance (C : ℕ) (cls : ℤ) : Decidable (ValidClass C cls) :=
  inferInstanceAs (Decidable (_ ∧ _))

/-- The positive anchors, in order. -/
def positives {N : ℕ} (positive : Fin N → Bool) : List (Fin N) :=
  (List.finRange N).filter positive

/-- The entry of `reg_losses`: 0 without a positive anchor. -/
def positiveRegLoss {N : ℕ} (lm : LossMath K) (loss : IntegratedLoss K) (positive : Fin N → Bool)
    (regression anchors gtBoxes : Fin N → Fin 5 → K) : K :=
  let rows := positives positive
  if h : rows.length = 0 then 0
  else
    have : NeZero rows.length := ⟨h⟩
    regLoss lm loss.boxCoder loss.criteron (fun i => regression (rows.get i))
      (fun i => loss.boxCoder.encode lm.toTorchMath (anchors (rows.get i)) (gtBoxes (rows.get i)))
      (fun i => anchors (rows.get i))

variable [FloorRing K] (cv : Cv2 K)

/-- The entries of `cls_losses` and `reg_losses` of an image. -/
def imageLosses {N C : ℕ} [NeZero N] [NeZero C] (lm : LossMath K) (loss : IntegratedLoss K)
    (iouThres : K) (image : TrainImage N C K) : PyM (K × K) :=
  let valid := validAnnotations image.annotations
  if h : valid.length = 0 then .ok (0, 0)
  else
    have : NeZero valid.length := ⟨h⟩
    let m := ious cv (fun n => .ofRow (image.anchors n)) fun k => (valid.get k).box
    let positive := positiveIndices m iouThres
    let assigned := fun n => valid.get (iouArgmax m n)
    if ∀ n, positive n = true → ValidClass C (assigned n).cls then
      let cls := fun k => classColumn C (valid.get k).cls
      .ok (clsLoss lm.toTorchMath lm.pow loss.alpha loss.gamma m iouThres cls image.classification,
        positiveRegLoss lm loss positive image.regression image.anchors fun n =>
          boxRow (assigned n).box)
    else .error .indexError

/-- `IntegratedLoss.forward` without its own segmentation loss: the means over the images. -/
def forward {B N C : ℕ} [NeZero N] [NeZero C] (lm : LossMath K) (loss : IntegratedLoss K)
    (iouThres : K) (images : Fin B → TrainImage N C K) : PyM (K × K) := do
  let losses ← (List.ofFn images).mapM (imageLosses cv lm loss iouThres)
  if losses.isEmpty then .error .runtimeError
  else .ok ((losses.map Prod.fst).sum / losses.length, (losses.map Prod.snd).sum / losses.length)

end

/-! ### Segmentation -/

section
variable {K : Type} [Field K] {B H W : ℕ}

/-- The hyper-parameters of the segmentation loss. -/
structure SegHyps (K : Type) where
  posWeight : K
  bceW : K
  diceW : K
  lambda : K

/-- `nn.BCEWithLogitsLoss(pos_weight=...)`, with the mean over all entries. -/
def bceWithLogits (lm : LossMath K) (posWeight : K) (logits targets : Fin B → Fin H → Fin W → K) :
    K :=
  (∑ b, ∑ r, ∑ c, -(posWeight * targets b r c * lm.log (lm.sigmoid (logits b r c))
    + (1 - targets b r c) * lm.log (1 - lm.sigmoid (logits b r c)))) / (B * (H * W))

/-- `dice` of one image in `dice_loss_from_logits`. -/
def softDice (lm : LossMath K) (logits targets : Fin H → Fin W → K) : K :=
  let eps := 1 / 10 ^ 6
  let inter := ∑ r, ∑ c, lm.sigmoid (logits r c) * targets r c
  let den := (∑ r, ∑ c, lm.sigmoid (logits r c)) + ∑ r, ∑ c, targets r c
  (2 * inter + eps) / (den + eps)

/-- `dice_loss_from_logits`. -/
def diceLossFromLogits (lm : LossMath K) (logits targets : Fin B → Fin H → Fin W → K) : K :=
  1 - (∑ b, softDice lm (logits b) (targets b)) / B

/-- `loss_seg` for a batch with masks. -/
def segLoss (lm : LossMath K) (hyps : SegHyps K) (logits targets : Fin B → Fin H → Fin W → K) : K :=
  (hyps.bceW * bceWithLogits lm hyps.posWeight logits targets
    + hyps.diceW * diceLossFromLogits lm logits targets) * hyps.lambda

end

/-! ### A batch -/

section
variable {K : Type} [Field K] [LinearOrder K] [FloorRing K]

/-- A batch in training: its images, the logits, and `gt_seg`, which can be missing. -/
structure TrainBatch (B N C H W : ℕ) (K : Type) where
  images : Fin B → TrainImage N C K
  segLogits : Fin B → Fin H → Fin W → K
  gtSeg : Option (Fin B → Fin H → Fin W → K)

/-- `RetinaNet.forward` in training, behind the network. -/
def trainLosses {B N C H W : ℕ} [NeZero N] [NeZero C] (cv : Cv2 K) (lm : LossMath K)
    (hyps : SegHyps K) (batch : TrainBatch B N C H W K) : PyM (Train.Losses K) := do
  let (lossCls, lossReg) ← forward cv lm .smooth (1 / 2) batch.images
  let lossSeg :=
    match batch.gtSeg with
    | some masks => segLoss lm hyps batch.segLogits masks
    | none => 0
  .ok { lossCls := lossCls, lossReg := lossReg, lossSeg := some lossSeg, loss := none }

/-- A batch with the sizes that its scale gives it. -/
structure SizedBatch (B C : ℕ) (K : Type) where
  N : ℕ+
  H : ℕ+
  W : ℕ+
  batch : TrainBatch B N C H W K

/-- The loop of `train_model` over the batches. `loss_cls` and `loss_reg` have no axis behind
`.mean()`. Without masks `loss_seg` has the one axis of `zeros_like`, so `torch.stack` raises in
front of the update of `mloss`. -/
def trainBatches {B C : ℕ} [NeZero C] (cv : Cv2 K) (lm : LossMath K) (hyps : SegHyps K)
    (lambda1 lambda2 : K) : ℕ → (Fin 3 → K) → List (SizedBatch B C K) → PyM (Fin 3 → K)
  | _, mloss, [] => .ok mloss
  | i, mloss, sized :: rest => do
      let losses ← trainLosses cv lm hyps sized.batch
      match losses.total lambda1 lambda2 with
      | .finite loss =>
          if loss = 0 then trainBatches cv lm hyps lambda1 lambda2 (i + 1) mloss rest
          else if sized.batch.gtSeg.isNone then .error .runtimeError
          else
            let mloss := fun c => (mloss c * i + losses.items c) / (i + 1)
            trainBatches cv lm hyps lambda1 lambda2 (i + 1) mloss rest
      | _ => .ok mloss

/-- The `mloss` of an epoch. -/
def trainEpoch {B C : ℕ} [NeZero C] (cv : Cv2 K) (lm : LossMath K) (hyps : SegHyps K)
    (lambda1 lambda2 : K) (batches : List (SizedBatch B C K)) : PyM (Fin 3 → K) :=
  trainBatches cv lm hyps lambda1 lambda2 0 (fun _ => 0) batches

end

end W2Net.Losses
