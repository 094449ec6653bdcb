import W2Net.Models.Layers

/-!
# `W2Net.Models.FcaNet`: the backbone

The model of the part of `models/FcaNet.py` that `RetinaNet` runs: the stem
`conv1`, `bn1`, `relu`, `maxpool` and the four layers of blocks. The frequency
attention of a block multiplies the channels and keeps the shape, so it is a
`pointwise` layer. `expansion` and `inplanes` follow `ResNet.__init__`.
-/

set_option autoImplicit false

namespace W2Net.FcaNet

open W2Net.Layers

variable {α : Type} (E : Entries α)

/-- The two block classes. -/
inductive Block where
  | basic
  | bottleneck
  deriving Repr, DecidableEq

def Block.expansion : Block → ℕ
  | .basic => 1
  | .bottleneck => 4

/-- `conv3x3`. -/
def conv3x3 (inPlanes outPlanes stride : ℕ) : Conv2d := ⟨inPlanes, outPlanes, 3, stride, 1⟩

/-- `conv1x1`. -/
def conv1x1 (inPlanes outPlanes stride : ℕ) : Conv2d := ⟨inPlanes, outPlanes, 1, stride, 0⟩

/-- The branch of a block that is added to the residual. -/
def Block.branch (name : String) (inplanes planes stride : ℕ) (x : Tensor α) :
    Block → PyM (Tensor α)
  | .basic => do
      let out ← (conv3x3 inplanes planes stride).forward E (name ++ ".conv1") x
      let out := pointwise E (name ++ ".bn1") out
      let out := pointwise E (name ++ ".relu") out
      let out ← (conv3x3 planes planes 1).forward E (name ++ ".conv2") out
      let out := pointwise E (name ++ ".bn2") out
      .ok (pointwise E (name ++ ".att") out)
  | .bottleneck => do
      let out ← (conv1x1 inplanes planes 1).forward E (name ++ ".conv1") x
      let out := pointwise E (name ++ ".bn1") out
      let out := pointwise E (name ++ ".relu") out
      let out ← (conv3x3 planes planes stride).forward E (name ++ ".conv2") out
      let out := pointwise E (name ++ ".bn2") out
      let out := pointwise E (name ++ ".relu") out
      let out ← (conv1x1 planes (planes * 4) 1).forward E (name ++ ".conv3") out
      let out := pointwise E (name ++ ".bn3") out
      .ok (pointwise E (name ++ ".att") out)

/-- The residual: the input, or with `downsample` a strided 1x1 convolution of it. -/
def Block.residual (block : Block) (name : String) (inplanes planes stride : ℕ)
    (downsample : Bool) (x : Tensor α) : PyM (Tensor α) :=
  if downsample then do
    let residual ← (conv1x1 inplanes (planes * block.expansion) stride).forward E
      (name ++ ".downsample.0") x
    .ok (pointwise E (name ++ ".downsample.1") residual)
  else .ok x

/-- `FcaBasicBlock.forward` and `FcaBottleneck.forward`. -/
def Block.forward (block : Block) (name : String) (inplanes planes stride : ℕ)
    (downsample : Bool) (x : Tensor α) : PyM (Tensor α) := do
  let out ← block.branch E name inplanes planes stride x
  let residual ← block.residual E name inplanes planes stride downsample x
  let out ← addTo E (name ++ ".add") out residual
  .ok (pointwise E (name ++ ".relu") out)

/-- The blocks of a layer after the first one, from the block `i` on. -/
def restBlocks (block : Block) (name : String) (planes : ℕ) :
    ℕ → ℕ → Tensor α → PyM (Tensor α)
  | _, 0, x => .ok x
  | i, k + 1, x => do
      let x ← block.forward E (name ++ "." ++ toString i) (planes * block.expansion) planes 1 false x
      restBlocks block name planes (i + 1) k x

/-- The layer that `_make_layer` builds: the first block has the stride, and a
`downsample` when its input and output differ in shape. -/
def makeLayer (block : Block) (name : String) (inplanes planes blocks stride : ℕ) (x : Tensor α) :
    PyM (Tensor α) := do
  let downsample := decide (stride ≠ 1) || decide (inplanes ≠ planes * block.expansion)
  let x ← block.forward E (name ++ ".0") inplanes planes stride downsample x
  restBlocks E block name planes 1 (blocks - 1) x

/-- The backbones of `init_backbone`. -/
inductive Backbone where
  | fca34
  | fca50
  | fca101
  | fca152
  deriving Repr, DecidableEq

def Backbone.block : Backbone → Block
  | .fca34 => .basic
  | .fca50 => .bottleneck
  | .fca101 => .bottleneck
  | .fca152 => .bottleneck

/-- The argument `layers` of `ResNet`. -/
def Backbone.layers : Backbone → ℕ × ℕ × ℕ × ℕ
  | .fca34 => (3, 4, 6, 3)
  | .fca50 => (3, 4, 6, 3)
  | .fca101 => (3, 4, 23, 3)
  | .fca152 => (3, 8, 36, 3)

/-- `fpn_in_channels`. -/
def Backbone.fpnInChannels : Backbone → ℕ × ℕ × ℕ
  | .fca34 => (128, 256, 512)
  | .fca50 => (512, 1024, 2048)
  | .fca101 => (512, 1024, 2048)
  | .fca152 => (512, 1024, 2048)

/-- `relu(bn1(conv1(ims)))`. -/
def stem (ims : Tensor α) : PyM (Tensor α) := do
  let c1 ← (⟨3, 64, 7, 2, 3⟩ : Conv2d).forward E "backbone.conv1" ims
  .ok (pointwise E "backbone.relu" (pointwise E "backbone.bn1" c1))

/-- The features `(c1, c2, c3, c4, c5)` in front of the SPPF module. -/
def features (backbone : Backbone) (ims : Tensor α) :
    PyM (Tensor α × Tensor α × Tensor α × Tensor α × Tensor α) := do
  let e := backbone.block.expansion
  let c1 ← stem E ims
  let x ← maxPool2d E "backbone.maxpool" 3 2 1 c1
  let c2 ← makeLayer E backbone.block "backbone.layer1" 64 64 backbone.layers.1 1 x
  let c3 ← makeLayer E backbone.block "backbone.layer2" (64 * e) 128 backbone.layers.2.1 2 c2
  let c4 ← makeLayer E backbone.block "backbone.layer3" (128 * e) 256 backbone.layers.2.2.1 2 c3
  let c5 ← makeLayer E backbone.block "backbone.layer4" (256 * e) 512 backbone.layers.2.2.2 2 c4
  .ok (c1, c2, c3, c4, c5)

end W2Net.FcaNet
