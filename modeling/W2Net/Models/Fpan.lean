import W2Net.Models.Layers

/-!
# `W2Net.Models.Fpan`: the feature pyramid

The models of `utils/SPPF.py`, `models/MultiScaleAttMod.py` and `models/FPAN.py`.
`FPAN` gets the three features `c3`, `c4`, `c5` and returns five: `LastLevelP6P7`
adds the two coarse levels. The loop of `FPAN.forward` from the coarsest feature
to the finest one is written out for the three features, since the attention
modules after it name them by index.
-/

set_option autoImplicit false

namespace W2Net.Fpan

open W2Net.Layers

variable {α : Type} (E : Entries α)

/-- `SPPF.forward`, with the pool size `k`. -/
def sppf (name : String) (cIn cOut k : ℕ) (x : Tensor α) : PyM (Tensor α) := do
  let x ← (⟨cIn, cOut, 1, 1, 0⟩ : Conv2d).forward E (name ++ ".cv1") x
  let y1 ← maxPool2d E (name ++ ".m") k 1 (k / 2) x
  let y2 ← maxPool2d E (name ++ ".m") k 1 (k / 2) y1
  let y3 ← maxPool2d E (name ++ ".m") k 1 (k / 2) y2
  let cat ← Tensor.cat 1 [x, y1, y2, y3]
  (⟨cOut * 4, cOut, 1, 1, 0⟩ : Conv2d).forward E (name ++ ".cv2") cat

/-- `view(b, -1, output_channels)`: the feature matrix, one row for each attended position. -/
def viewRows (b channels : ℕ) (t : Tensor α) : PyM (Tensor α) :=
  t.reshape [some b, none, some channels]

/-- `conv_high`. -/
def convHigh (name : String) (channelsHigh channelsOutput : ℕ) (fmsHigh : Tensor α) :
    PyM (Tensor α) := do
  let high ← (⟨channelsHigh, channelsOutput, 1, 1, 0⟩ : Conv2d).forward E
    (name ++ ".conv_high.0") fmsHigh
  let high := pointwise E (name ++ ".conv_high.1") high
  .ok (pointwise E (name ++ ".conv_high.2") high)

/-- From the two feature matrices to `mid`. -/
def attention (name : String) (channelsOutput divchannel b h1 w1 : ℕ) (featLow featHigh : Tensor α) :
    PyM (Tensor α) := do
  let midLow ← linear E (name ++ ".fc1") channelsOutput (channelsOutput / divchannel) featLow
  let midHigh ← linear E (name ++ ".fc2") channelsOutput (channelsOutput / divchannel) featHigh
  let midHigh ← midHigh.permute [0, 2, 1]
  let energy ← bmm E (name ++ ".energy") midLow midHigh
  let attention := pointwise E (name ++ ".softmax") energy
  let featHighT ← featHigh.permute [0, 2, 1]
  let attentionT ← attention.permute [0, 2, 1]
  let mid ← bmm E (name ++ ".mid") featHighT attentionT
  mid.reshape [some b, some channelsOutput, some h1, some w1]

/-- `mid` of `MSAM.forward`, before the multiplication with `scale`: attention from the pixels of
`fms_low` to those of `fms_high`. The features have to have `channels_output` channels. -/
def msamMid (name : String) (channelsHigh channelsOutput divchannel : ℕ)
    (fmsLow fmsHigh : Tensor α) : PyM (Tensor α) :=
  match fmsLow.shape with
  | [b, c1, h1, w1] =>
      if c1 ≠ channelsOutput then .error .valueError
      else do
        let featLow ← viewRows b channelsOutput fmsLow
        let high ← convHigh E name channelsHigh channelsOutput fmsHigh
        let featHigh ← viewRows b channelsOutput high
        attention E name channelsOutput divchannel b h1 w1 featLow featHigh
  | _ => .error .valueError

/-- `MSAM.forward`. -/
def msam (name : String) (channelsHigh channelsOutput divchannel : ℕ) (fmsLow fmsHigh : Tensor α) :
    PyM (Tensor α) := do
  let mid ← msamMid E name channelsHigh channelsOutput divchannel fmsLow fmsHigh
  .ok (pointwise E (name ++ ".scale") mid)

/-- `LastLevelP6P7.forward`. -/
def lastLevelP6P7 (name : String) (inChannels outChannels : ℕ) (c5 : Tensor α) :
    PyM (Tensor α × Tensor α) := do
  let p6 ← (⟨inChannels, outChannels, 3, 2, 1⟩ : Conv2d).forward E (name ++ ".p6") c5
  let p7 ← (⟨outChannels, outChannels, 3, 2, 1⟩ : Conv2d).forward E (name ++ ".p7")
    (pointwise E (name ++ ".relu") p6)
  .ok (p6, p7)

/-- `inner_lateral + inner_top_down` for one feature: the coarser one is resized
to the finer one. Returns `inner_lateral` and the sum. -/
def topDown (name : String) (inChannels outChannels : ℕ) (feature lastInner : Tensor α) :
    PyM (Tensor α × Tensor α) := do
  let lateral ← (⟨inChannels, outChannels, 1, 1, 0⟩ : Conv2d).forward E name feature
  let h := lateral.shape.getD 2 0
  let w := lateral.shape.getD 3 0
  let down ← interpolate E (name ++ ".interpolate") h w lastInner
  let sum ← addTo E (name ++ ".add") lateral down
  .ok (lateral, sum)

/-- `FPAN.forward` on `[c3, c4, c5]`, with `in_channels_list` and `out_channels`.
Returns the five features `P3` to `P7`. -/
def fpan (name : String) (inChannelsList : ℕ × ℕ × ℕ) (outChannels : ℕ) (c3 c4 c5 : Tensor α) :
    PyM (List (Tensor α)) := do
  let (ch3, ch4, ch5) := inChannelsList
  let inner5 ← (⟨ch5, outChannels, 1, 1, 0⟩ : Conv2d).forward E (name ++ ".fpan_inner3") c5
  let (lateral4, inner4) ← topDown E (name ++ ".fpan_inner2") ch4 outChannels c4 inner5
  let (lateral3, inner3) ← topDown E (name ++ ".fpan_inner1") ch3 outChannels c3 inner4
  let (p6, p7) ← lastLevelP6P7 E (name ++ ".top_blocks") ch5 outChannels c5
  let att5 ← msam E (name ++ ".MSAM5") outChannels outChannels 4 inner5 p6
  let att4 ← msam E (name ++ ".MSAM4") ch5 outChannels 4 lateral4 c5
  let att3 ← msam E (name ++ ".MSAM3") ch4 outChannels 4 lateral3 c4
  let middle5 ← addTo E (name ++ ".middle5") inner5 att5
  let middle4 ← addTo E (name ++ ".middle4") inner4 att4
  let middle3 ← addTo E (name ++ ".middle3") inner3 att3
  let p3 ← (⟨outChannels, outChannels, 3, 1, 1⟩ : Conv2d).forward E (name ++ ".fpan_layer1") middle3
  let p4 ← (⟨outChannels, outChannels, 3, 1, 1⟩ : Conv2d).forward E (name ++ ".fpan_layer2") middle4
  let p5 ← (⟨outChannels, outChannels, 3, 1, 1⟩ : Conv2d).forward E (name ++ ".fpan_layer3") middle5
  .ok [p3, p4, p5, p6, p7]

end W2Net.Fpan
