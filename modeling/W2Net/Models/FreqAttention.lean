import Mathlib.Algebra.BigOperators.Group.Finset.Basic
import Mathlib.Order.Interval.Finset.Nat
import W2Net.Lib.Python

/-!
# `W2Net.Models.FreqAttention`: the attention of the backbone

The model of `get_freq_indices`, `MultiSpectralDCTLayer` and `MultiSpectralAttentionLayer` of
`models/FcaNet.py`, for one image. A layer multiplies each channel with a filter for a pair of
frequencies, and the sums become the weight of the channel. Feature maps whose size is not the one
of the filters go through `adaptive_avg_pool2d` first.
-/

set_option autoImplicit false

namespace W2Net.FcaNet

/-! ### The frequencies -/

/-- The three orders of the frequencies. -/
inductive FreqOrder where
  | top
  | low
  | bot
  deriving Repr, DecidableEq

/-- A `method` that the assertion lets pass: an order, and the number of frequencies. -/
structure FreqSel where
  order : FreqOrder
  numFreq : ℕ
  valid : numFreq ∈ [1, 2, 4, 8, 16, 32]

/-- `all_top_indices_x`, `all_low_indices_x` and `all_bot_indices_x`. -/
def FreqOrder.indicesX : FreqOrder → List ℕ
  | .top => [0, 0, 6, 0, 0, 1, 1, 4, 5, 1, 3, 0, 0, 0, 3, 2, 4, 6, 3, 5, 5, 2, 6, 5, 5, 3, 3, 4, 2, 2,
      6, 1]
  | .low => [0, 0, 1, 1, 0, 2, 2, 1, 2, 0, 3, 4, 0, 1, 3, 0, 1, 2, 3, 4, 5, 0, 1, 2, 3, 4, 5, 6, 1, 2,
      3, 4]
  | .bot => [6, 1, 3, 3, 2, 4, 1, 2, 4, 4, 5, 1, 4, 6, 2, 5, 6, 1, 6, 2, 2, 4, 3, 3, 5, 5, 6, 2, 5, 5,
      3, 6]

/-- `all_top_indices_y`, `all_low_indices_y` and `all_bot_indices_y`. -/
def FreqOrder.indicesY : FreqOrder → List ℕ
  | .top => [0, 1, 0, 5, 2, 0, 2, 0, 0, 6, 0, 4, 6, 3, 5, 2, 6, 3, 3, 3, 5, 1, 1, 2, 4, 2, 1, 1, 3, 0,
      5, 3]
  | .low => [0, 1, 0, 1, 2, 0, 1, 2, 2, 3, 0, 0, 4, 3, 1, 5, 4, 3, 2, 1, 0, 6, 5, 4, 3, 2, 1, 0, 6, 5,
      4, 3]
  | .bot => [6, 4, 4, 6, 6, 3, 1, 4, 4, 5, 6, 5, 2, 2, 5, 1, 4, 3, 5, 0, 3, 1, 1, 2, 4, 2, 1, 1, 5, 3,
      3, 3]

/-- `get_freq_indices`. -/
def getFreqIndices (sel : FreqSel) : List ℕ × List ℕ :=
  (sel.order.indicesX.take sel.numFreq, sel.order.indicesY.take sel.numFreq)

/-! ### The filters -/

section
variable {K : Type} [Field K]

/-- `build_filter`. -/
def buildFilter (m : PyMath K) (pos freq POS : ℕ) : K :=
  let result := m.cos (m.pi * freq * (pos + 1 / 2) / POS) / m.sqrt POS
  if freq = 0 then result else result * m.sqrt 2

/-- `dct_filter[start:stop, t_x, t_y] = value` for all `t_x` and `t_y`. -/
def fillChannels {channel : ℕ} (start stop : ℕ) (value : ℕ → ℕ → K)
    (dctFilter : Fin channel → ℕ → ℕ → K) : Fin channel → ℕ → ℕ → K :=
  fun c => if start ≤ c.val ∧ c.val < stop then value else dctFilter c

/-- `get_dct_filter`. -/
def getDctFilter (m : PyMath K) (tileSizeX tileSizeY : ℕ) (mapperX mapperY : List ℕ)
    (channel : ℕ) : Fin channel → ℕ → ℕ → K :=
  let cPart := channel / mapperX.length
  (mapperX.zip mapperY).zipIdx.foldl
    (fun dctFilter freq =>
      fillChannels (freq.2 * cPart) ((freq.2 + 1) * cPart)
        (fun tX tY => buildFilter m tX freq.1.1 tileSizeX * buildFilter m tY freq.1.2 tileSizeY)
        dctFilter)
    fun _ _ _ => 0

/-- `MultiSpectralDCTLayer`: the size of the filters, and `weight`. -/
structure DctLayer (channel : ℕ) (K : Type) where
  height : ℕ
  width : ℕ
  weight : Fin channel → ℕ → ℕ → K

/-- `MultiSpectralDCTLayer.__init__`. -/
def DctLayer.init (m : PyMath K) (height width : ℕ) (mapperX mapperY : List ℕ) (channel : ℕ) :
    PyM (DctLayer channel K) :=
  if mapperX.length ≠ mapperY.length then .error .assertionError
  else if mapperX.length = 0 then .error .zeroDivisionError
  else if channel % mapperX.length ≠ 0 then .error .assertionError
  else .ok ⟨height, width, getDctFilter m height width mapperX mapperY channel⟩

/-- `MultiSpectralDCTLayer.forward` on a map of the size of the filters. -/
def DctLayer.forward {channel : ℕ} (layer : DctLayer channel K) (x : Fin channel → ℕ → ℕ → K)
    (c : Fin channel) : K :=
  ∑ tX ∈ Finset.range layer.height, ∑ tY ∈ Finset.range layer.width, x c tX tY * layer.weight c tX tY

/-! ### The attention -/

/-- A feature map of an image. -/
structure FeatureMap (channel : ℕ) (K : Type) where
  h : ℕ
  w : ℕ
  px : Fin channel → ℕ → ℕ → K

/-- The rows that `adaptive_avg_pool2d` averages for the row `i` of `outSize` rows. -/
def poolWindow (size outSize i : ℕ) : Finset ℕ :=
  Finset.Ico (i * size / outSize) (((i + 1) * size + outSize - 1) / outSize)

/-- `torch.nn.functional.adaptive_avg_pool2d`. -/
def adaptiveAvgPool2d {channel : ℕ} (x : FeatureMap channel K) (outH outW : ℕ) :
    Fin channel → ℕ → ℕ → K :=
  fun c i j =>
    (∑ r ∈ poolWindow x.h outH i, ∑ k ∈ poolWindow x.w outW j, x.px c r k)
      / ((poolWindow x.h outH i).card * (poolWindow x.w outW j).card)

/-- `MultiSpectralAttentionLayer`: the filters, and the two layers of `fc`. -/
structure AttentionLayer (channel hidden : ℕ) (K : Type) where
  dctLayer : DctLayer channel K
  fc1 : Fin hidden → Fin channel → K
  fc2 : Fin channel → Fin hidden → K

/-- `MultiSpectralAttentionLayer.__init__`, with the weights of `fc`. -/
def AttentionLayer.init {channel reduction : ℕ} (m : PyMath K) (dctH dctW : ℕ) (sel : FreqSel)
    (fc1 : Fin (channel / reduction) → Fin channel → K)
    (fc2 : Fin channel → Fin (channel / reduction) → K) :
    PyM (AttentionLayer channel (channel / reduction) K) := do
  let (mapperX, mapperY) := getFreqIndices sel
  let mapperX := mapperX.map fun tempX => tempX * (dctH / 7)
  let mapperY := mapperY.map fun tempY => tempY * (dctW / 7)
  let dctLayer ← DctLayer.init m dctH dctW mapperX mapperY channel
  .ok ⟨dctLayer, fc1, fc2⟩

variable [LinearOrder K] {channel hidden : ℕ} (layer : AttentionLayer channel hidden K)

/-- `y = self.dct_layer(x_pooled)`. -/
def AttentionLayer.pooled (x : FeatureMap channel K) : Fin channel → K :=
  layer.dctLayer.forward
    (if x.h ≠ layer.dctLayer.height ∨ x.w ≠ layer.dctLayer.width then
      adaptiveAvgPool2d x layer.dctLayer.height layer.dctLayer.width
    else x.px)

/-- `y = self.fc(y)`. -/
def AttentionLayer.scale (sigmoid : K → K) (x : FeatureMap channel K) (c : Fin channel) : K :=
  sigmoid (∑ j, layer.fc2 c j * max 0 (∑ k, layer.fc1 j k * layer.pooled x k))

/-- `MultiSpectralAttentionLayer.forward`. -/
def AttentionLayer.forward (sigmoid : K → K) (x : FeatureMap channel K) : FeatureMap channel K :=
  { x with px := fun c i j => x.px c i j * layer.scale sigmoid x c }

end

end W2Net.FcaNet
