import W2Net.Models.Fpan

/-!
# `W2Net.Modules.Smsa`: attention with permuted features

The models of `DSConvAttn` and `MSAM` of `modules/SMSA.py`. Its `MSAM.forward` moves the
channels of a feature to the end before it makes the feature matrix, and is otherwise the one
of `models/MultiScaleAttMod.py` up to `mid`.
-/

set_option autoImplicit false

namespace W2Net.Smsa

open W2Net.Fpan (convHigh attention)
open W2Net.Layers

variable {α : Type} (E : Entries α)

/-- `DSConvAttn.forward`: a convolution by channel and one by pixel, and a weight for each
channel. -/
def dsConvAttn (name : String) (channels reduction k : ℕ) (x : Tensor α) : PyM (Tensor α) := do
  let y ← (⟨channels, channels, k, 1, k / 2⟩ : Conv2d).forward E (name ++ ".dw") x
  let y ← (⟨channels, channels, 1, 1, 0⟩ : Conv2d).forward E (name ++ ".pw") y
  let y := pointwise E (name ++ ".act") (pointwise E (name ++ ".bn") y)
  let mid := max (channels / reduction) 8
  let w ← adaptiveAvgPool2d E (name ++ ".se.0") 1 y
  let w ← (⟨channels, mid, 1, 1, 0⟩ : Conv2d).forward E (name ++ ".se.1") w
  let w := pointwise E (name ++ ".se.2") w
  let w ← (⟨mid, channels, 1, 1, 0⟩ : Conv2d).forward E (name ++ ".se.3") w
  let w := pointwise E (name ++ ".se.4") w
  mulTo E (name ++ ".weighted") y w

/-- `permute(0, 2, 3, 1).contiguous().view(b, -1, output_channels)`: the feature matrix, one
row for each pixel. -/
def permuteRows (b channels : ℕ) (t : Tensor α) : PyM (Tensor α) := do
  let t ← t.permute [0, 2, 3, 1]
  t.reshape [some b, none, some channels]

/-- `mid` of `MSAM.forward`, before its refinement. -/
def msamMid (name : String) (channelsHigh channelsOutput divchannel : ℕ)
    (fmsLow fmsHigh : Tensor α) : PyM (Tensor α) :=
  match fmsLow.shape with
  | [b, c1, h1, w1] =>
      if c1 ≠ channelsOutput then .error .valueError
      else do
        let featLow ← permuteRows b channelsOutput fmsLow
        let high ← convHigh E name channelsHigh channelsOutput fmsHigh
        let featHigh ← permuteRows b channelsOutput high
        attention E name channelsOutput divchannel b h1 w1 featLow featHigh
  | _ => .error .valueError

/-- `MSAM.forward`. -/
def msam (name : String) (channelsHigh channelsOutput divchannel dscaReduction : ℕ)
    (useResidual : Bool) (fmsLow fmsHigh : Tensor α) : PyM (Tensor α) := do
  let mid ← msamMid E name channelsHigh channelsOutput divchannel fmsLow fmsHigh
  let midRefine ← dsConvAttn E (name ++ ".dsca") channelsOutput dscaReduction 3 mid
  let out := pointwise E (name ++ ".scale") midRefine
  if useResidual then addTo E (name ++ ".residual") out fmsLow else .ok out

end W2Net.Smsa
