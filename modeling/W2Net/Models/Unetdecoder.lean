import W2Net.Models.Layers

/-!
# `W2Net.Models.Unetdecoder`: the decoder of the segmentation

The models of the modules of `models/Unetdecoder.py` that `FPNUNet5SegHead` of `models/heads.py`
is built from, and of the head itself:

* `CBAM`: the attention over the channels, and then over the pixels.
* `stripeLargeHybrid`, `multiScaleStripeConv`: convolutions along the rows and along the columns,
  put together along the channels.
* `UpBlock`: the coarser feature is doubled, resized where it still does not fit, and joined to
  the finer one.
* `FPNUNet5SegHead.forward`: four blocks from `P5` to `P1`, and the logits in the size of the image.

The layers are those of `W2Net.Models.Layers`, in evaluation mode, and so are the names.
-/

set_option autoImplicit false

namespace W2Net.Unetdecoder

open W2Net.Layers

variable {α : Type} (E : Entries α) (name : String)

/-! ### Layers -/

/-- `nn.Conv2d` with a kernel that is not square, and stride 1. -/
structure StripeConv2d where
  inChannels : ℕ
  outChannels : ℕ
  kernelSize : ℕ × ℕ
  padding : ℕ × ℕ

def StripeConv2d.forward (conv : StripeConv2d) (x : Tensor α) : PyM (Tensor α) :=
  match x.shape with
  | [n, c, h, w] =>
      if c = conv.inChannels ∧ conv.kernelSize.1 ≤ h + 2 * conv.padding.1 ∧
          conv.kernelSize.2 ≤ w + 2 * conv.padding.2 then
        .ok
          { shape := [n, conv.outChannels, convOut conv.kernelSize.1 1 conv.padding.1 h,
              convOut conv.kernelSize.2 1 conv.padding.2 w]
            data := E name [x] }
      else .error .runtimeError
  | _ => .error .runtimeError

/-- `nn.AdaptiveMaxPool2d(size)`. There has to be something to take the maximum of. -/
def adaptiveMaxPool2d (size : ℕ) (x : Tensor α) : PyM (Tensor α) :=
  match x.shape with
  | [n, c, h, w] =>
      if 0 < c ∧ 0 < h ∧ 0 < w then .ok ⟨[n, c, size, size], E name [x]⟩
      else .error .runtimeError
  | _ => .error .runtimeError

/-- `torch.mean(x, dim=1, keepdim=True)`. -/
def meanChannels (x : Tensor α) : PyM (Tensor α) :=
  match x.shape with
  | [n, _, h, w] => .ok ⟨[n, 1, h, w], E name [x]⟩
  | _ => .error .indexError

/-- The values of `torch.max(x, dim=1, keepdim=True)`. -/
def maxChannels (x : Tensor α) : PyM (Tensor α) :=
  match x.shape with
  | [n, c, h, w] => if 0 < c then .ok ⟨[n, 1, h, w], E name [x]⟩ else .error .indexError
  | _ => .error .indexError

/-- `nn.Upsample(scale_factor=2, mode='bilinear')`, or with `bilinear` off
`nn.ConvTranspose2d(inChannels, inChannels, kernel_size=2, stride=2)`. -/
def upsample (bilinear : Bool) (inChannels : ℕ) (x : Tensor α) : PyM (Tensor α) :=
  match x.shape with
  | [n, c, h, w] =>
      if bilinear ∨ c = inChannels then .ok ⟨[n, c, 2 * h, 2 * w], E name [x]⟩
      else .error .runtimeError
  | _ => .error .runtimeError

/-- `F.interpolate(x, size=like.shape[-2:])`. -/
def interpolateLike (like x : Tensor α) : PyM (Tensor α) :=
  interpolate E name (like.shape.getD 2 0) (like.shape.getD 3 0) x

/-- `conv`, `BatchNorm2d` and `ReLU` of a `nn.Sequential`, from its module `i` on. -/
def convBnRelu (i : ℕ) (conv : Conv2d) (x : Tensor α) : PyM (Tensor α) := do
  let y ← conv.forward E (name ++ "." ++ toString i) x
  let y := pointwise E (name ++ "." ++ toString (i + 1)) y
  .ok (pointwise E (name ++ "." ++ toString (i + 2)) y)

/-- `nn.Sequential(conv, BatchNorm2d, ReLU)` with a stripe. -/
def stripeBnRelu (conv : StripeConv2d) (x : Tensor α) : PyM (Tensor α) := do
  let y ← conv.forward E (name ++ ".0") x
  .ok (pointwise E (name ++ ".2") (pointwise E (name ++ ".1") y))

/-! ### `CBAM` -/

/-- `shared_mlp`: two convolutions of kernel 1. -/
def sharedMlp (channels reduction : ℕ) (x : Tensor α) : PyM (Tensor α) := do
  let y ← (⟨channels, channels / reduction, 1, 1, 0⟩ : Conv2d).forward E (name ++ ".0") x
  (⟨channels / reduction, channels, 1, 1, 0⟩ : Conv2d).forward E (name ++ ".2")
    (pointwise E (name ++ ".1") y)

/-- `x * ca`, for each channel. -/
def channelAttention (channels reduction : ℕ) (x : Tensor α) : PyM (Tensor α) := do
  let avg ← adaptiveAvgPool2d E (name ++ ".avg_pool") 1 x
  let avgOut ← sharedMlp E (name ++ ".shared_mlp") channels reduction avg
  let mx ← adaptiveMaxPool2d E (name ++ ".max_pool") 1 x
  let maxOut ← sharedMlp E (name ++ ".shared_mlp") channels reduction mx
  let ca ← addTo E (name ++ ".add") avgOut maxOut
  mulTo E (name ++ ".ca") x (pointwise E (name ++ ".sigmoid_channel") ca)

/-- `x * sa`, for each pixel. -/
def spatialAttention (x : Tensor α) : PyM (Tensor α) := do
  let avgOut ← meanChannels E (name ++ ".mean") x
  let maxOut ← maxChannels E (name ++ ".max") x
  let saInput ← Tensor.cat 1 [avgOut, maxOut]
  let sa ← (⟨2, 1, 7, 1, 3⟩ : Conv2d).forward E (name ++ ".conv_spatial") saInput
  mulTo E (name ++ ".sa") x (pointwise E (name ++ ".sigmoid_spatial") sa)

/-- `CBAM(channels).forward`. -/
def cbam (channels : ℕ) (x : Tensor α) : PyM (Tensor α) := do
  let x ← channelAttention E name channels 16 x
  spatialAttention E name x

/-! ### Stripes -/

/-- `h_convs`: a kernel of one row for each `k`. -/
def hConvs (inCh cEach : ℕ) (ks : List ℕ) (x : Tensor α) : PyM (List (Tensor α)) :=
  ks.zipIdx.mapM fun k =>
    stripeBnRelu E (name ++ ".h_convs." ++ toString k.2) ⟨inCh, cEach, (1, k.1), (0, k.1 / 2)⟩ x

/-- `v_convs`: a kernel of one column for each `k`. -/
def vConvs (inCh cEach : ℕ) (ks : List ℕ) (x : Tensor α) : PyM (List (Tensor α)) :=
  ks.zipIdx.mapM fun k =>
    stripeBnRelu E (name ++ ".v_convs." ++ toString k.2) ⟨inCh, cEach, (k.1, 1), (k.1 / 2, 0)⟩ x

/-- `StripeLargeHybrid(inCh, outCh, ksStripe, kLarge).forward`. The groups of the depthwise
convolution are as many as its channels; they do not enter the shape. -/
def stripeLargeHybrid (inCh outCh : ℕ) (ksStripe : List ℕ) (kLarge : ℕ) (x : Tensor α) :
    PyM (Tensor α) := do
  let cEach := outCh / (ksStripe.length * 2 + 1)
  let h ← hConvs E name inCh cEach ksStripe x
  let v ← vConvs E name inCh cEach ksStripe x
  let dw ← convBnRelu E (name ++ ".dw_large") 0 ⟨inCh, inCh, kLarge, 1, kLarge / 2⟩ x
  let large ← convBnRelu E (name ++ ".dw_large") 3 ⟨inCh, cEach, 1, 1, 0⟩ dw
  let y ← Tensor.cat 1 (h ++ v ++ [large])
  let y := pointwise E (name ++ ".bn_relu.1") (pointwise E (name ++ ".bn_relu.0") y)
  let totalCh := cEach * (ksStripe.length * 2 + 1)
  let y ← convBnRelu E (name ++ ".fuse") 0 ⟨totalCh, outCh, 1, 1, 0⟩ y
  cbam E (name ++ ".attn") outCh y

/-- `MultiScaleStripeConv(inCh, outCh, ksList).forward`, with the horizontal and the vertical
stripes. -/
def multiScaleStripeConv (inCh outCh : ℕ) (ksList : List ℕ) (x : Tensor α) : PyM (Tensor α) := do
  let cEach := outCh / (ksList.length * 2)
  let h ← hConvs E name inCh cEach ksList x
  let v ← vConvs E name inCh cEach ksList x
  let y ← Tensor.cat 1 (h ++ v)
  let y ← convBnRelu E (name ++ ".fuse") 0
    ⟨cEach * (ksList.length + ksList.length), outCh, 1, 1, 0⟩ y
  cbam E (name ++ ".cbam") outCh y

/-! ### Double convolutions -/

/-- `stripe_conv` of `StripeEnhancedDoubleConv`. -/
def stripeConv (inChannels outChannels : ℕ) (useLarge : Bool) (x : Tensor α) : PyM (Tensor α) :=
  if useLarge then stripeLargeHybrid E name inChannels outChannels [3, 7, 11] 9 x
  else multiScaleStripeConv E name inChannels outChannels [3, 5, 7] x

/-- `StripeEnhancedDoubleConv(inChannels, outChannels, midChannels, useLarge).forward`. Without
`midChannels`, or with 0, they are `outChannels`. -/
def stripeEnhancedDoubleConv (inChannels outChannels : ℕ) (midChannels : Option ℕ)
    (useLarge : Bool) (x : Tensor α) : PyM (Tensor α) := do
  let mid := match midChannels with
    | none | some 0 => outChannels
    | some (c + 1) => c + 1
  let y ← convBnRelu E (name ++ ".standard_conv") 0 ⟨inChannels, mid, 3, 1, 1⟩ x
  let standardOut ← convBnRelu E (name ++ ".standard_conv") 3 ⟨mid, outChannels / 2, 3, 1, 1⟩ y
  let stripeOut ← stripeConv E (name ++ ".stripe_conv") inChannels (outChannels / 2) useLarge x
  let fused ← Tensor.cat 1 [standardOut, stripeOut]
  let out ← convBnRelu E (name ++ ".final_conv") 0 ⟨outChannels, outChannels, 1, 1, 0⟩ fused
  cbam E (name ++ ".attention") outChannels out

/-- The second stage of `EnhancedDoubleConv`, with or without stripes. -/
def secondStage (midCh outCh : ℕ) (useStripe : Bool) (y : Tensor α) : PyM (Tensor α) :=
  if useStripe then do
    -- An odd channel goes to the stripes.
    let cStd := outCh / 2
    let cStripe := outCh - cStd
    let std ← convBnRelu E (name ++ ".conv2_std") 0 ⟨midCh, cStd, 3, 1, 1⟩ y
    let stripe ← multiScaleStripeConv E (name ++ ".conv2_stripe") midCh cStripe [3, 5, 7] y
    let y ← Tensor.cat 1 [std, stripe]
    convBnRelu E (name ++ ".fuse") 0 ⟨outCh, outCh, 1, 1, 0⟩ y
  else convBnRelu E (name ++ ".conv2") 0 ⟨midCh, outCh, 3, 1, 1⟩ y

/-- `EnhancedDoubleConv(inCh, outCh, midCh, useStripe, residual=residual).forward`. -/
def enhancedDoubleConv (inCh outCh : ℕ) (midCh : Option ℕ) (useStripe residual : Bool)
    (x : Tensor α) : PyM (Tensor α) := do
  let mid := midCh.getD outCh
  let y ← convBnRelu E (name ++ ".conv1") 0 ⟨inCh, mid, 3, 1, 1⟩ x
  let y ← secondStage E name mid outCh useStripe y
  if residual && decide (inCh = outCh) then addTo E (name ++ ".residual") y x else .ok y

/-! ### The decoder -/

/-- `UpBlock`. -/
structure UpBlock where
  inCh : ℕ
  skipCh : ℕ
  outCh : ℕ
  bilinear : Bool
  useLarge : Bool

/-- The doubled feature in the size of `skip`. It is off by one where that size is odd. -/
def fitTo (skip x : Tensor α) : PyM (Tensor α) :=
  if x.shape.drop (x.shape.length - 2) ≠ skip.shape.drop (skip.shape.length - 2) then
    interpolateLike E name skip x
  else .ok x

def UpBlock.forward (block : UpBlock) (x skip : Tensor α) : PyM (Tensor α) := do
  let x ← upsample E (name ++ ".up") block.bilinear block.inCh x
  let x ← fitTo E (name ++ ".interpolate") skip x
  let x ← Tensor.cat 1 [skip, x]
  stripeEnhancedDoubleConv E (name ++ ".conv") (block.inCh + block.skipCh) block.outCh
    (some block.outCh) block.useLarge x

/-- `FPNUNet5SegHead`. -/
structure FPNUNet5SegHead where
  fpnChannels : ℕ
  outChannels : ℕ
  bilinear : Bool

/-- `UpBlock(C, C, C, bilinear, use_large)`. -/
def FPNUNet5SegHead.upBlock (head : FPNUNet5SegHead) (useLarge : Bool) : UpBlock :=
  ⟨head.fpnChannels, head.fpnChannels, head.fpnChannels, head.bilinear, useLarge⟩

/-- `FPNUNet5SegHead.forward`, with `out_hw` as `(outH, outW)`. -/
def FPNUNet5SegHead.forward (head : FPNUNet5SegHead) (p1 p2 p3 p4 p5 : Tensor α) (outH outW : ℕ) :
    PyM (Tensor α) := do
  let x ← (head.upBlock false).forward E (name ++ ".up65") p5 p4
  let x ← (head.upBlock true).forward E (name ++ ".up54") x p3
  let x ← (head.upBlock true).forward E (name ++ ".up43") x p2
  let x ← (head.upBlock true).forward E (name ++ ".up32") x p1
  let x ← enhancedDoubleConv E (name ++ ".head.0") head.fpnChannels head.fpnChannels none
    false false x
  let x ← (⟨head.fpnChannels, head.outChannels, 1, 1, 0⟩ : Conv2d).forward E (name ++ ".head.1") x
  interpolate E (name ++ ".interpolate") outH outW x

end W2Net.Unetdecoder
