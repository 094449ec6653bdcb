import W2Net.Models.FreqAttention

/-!
# `W2Net.Utils.WtVis`: the wavelet attention

The model of `WaveletFrequencyAttention` of `utils/WT-VIS.py`, for one image. The filters of the
subbands are products of the two filters of a wavelet. `wavelet_decompose` applies them with
stride 2 to the image, and then again to the low subband of each level. The means of all subbands
become the weights of the channels.
-/

set_option autoImplicit false

namespace W2Net.WtVis

open W2Net.FcaNet (FeatureMap)

variable {K : Type} [Field K]

/-- `pywt.Wavelet`: the filters of the decomposition, which have one length. -/
structure Wavelet (K : Type) where
  decLo : List K
  decHi : List K
  length_eq : decHi.length = decLo.length

/-- A filter of `conv2d`. -/
structure Filter (K : Type) where
  h : ℕ
  w : ℕ
  entry : ℕ → ℕ → K

/-- `row.view(1, -1) * col.view(-1, 1)`. -/
def outer (row col : List K) : Filter K :=
  ⟨col.length, row.length, fun i j => row.getD j 0 * col.getD i 0⟩

/-- The buffers of `WaveletFrequencyAttention`, and the weights of `freq_fc`. -/
structure WaveletFrequencyAttention (channel hidden : ℕ) (K : Type) where
  level : ℕ
  llFilter : Filter K
  lhFilter : Filter K
  hlFilter : Filter K
  hhFilter : Filter K
  fc1 : Fin hidden → ℕ → K
  fc2 : Fin channel → Fin hidden → K

/-- `get_wavelet_filters`, with `__init__`. -/
def WaveletFrequencyAttention.init {channel reduction : ℕ} (wavelet : Wavelet K) (level : ℕ)
    (fc1 : Fin (max (channel / reduction) 8) → ℕ → K)
    (fc2 : Fin channel → Fin (max (channel / reduction) 8) → K) :
    WaveletFrequencyAttention channel (max (channel / reduction) 8) K :=
  let decLo := wavelet.decLo.reverse
  let decHi := wavelet.decHi.reverse
  { level := level
    llFilter := outer decLo decLo
    lhFilter := outer decLo decHi
    hlFilter := outer decHi decLo
    hhFilter := outer decHi decHi
    fc1 := fc1
    fc2 := fc2 }

/-- An image with `pad` zeros around it. -/
def padded {c : ℕ} (x : FeatureMap c K) (pad : ℕ) (ch : Fin c) (p q : ℕ) : K :=
  if (pad ≤ p ∧ p - pad < x.h) ∧ pad ≤ q ∧ q - pad < x.w then x.px ch (p - pad) (q - pad) else 0

/-- `F.conv2d(x, filter.repeat(c, 1, 1, 1), stride, padding, groups=c)`. -/
def conv2d {c : ℕ} (x : FeatureMap c K) (filter : Filter K) (stride padding : ℕ) :
    PyM (FeatureMap c K) :=
  if c = 0 ∨ x.h = 0 ∨ x.w = 0 ∨ x.h + 2 * padding < filter.h ∨ x.w + 2 * padding < filter.w then
    .error .runtimeError
  else
    .ok
      { h := (x.h + 2 * padding - filter.h) / stride + 1
        w := (x.w + 2 * padding - filter.w) / stride + 1
        px := fun ch i j =>
          ∑ u ∈ Finset.range filter.h, ∑ v ∈ Finset.range filter.w,
            padded x padding ch (i * stride + u) (j * stride + v) * filter.entry u v }

variable {channel hidden c : ℕ} (layer : WaveletFrequencyAttention channel hidden K)

/-- The loop of `wavelet_decompose`, for the remaining levels. -/
def decomposeLevels (pad : ℕ) :
    ℕ → List (FeatureMap c K) → FeatureMap c K → PyM (List (FeatureMap c K))
  | 0, subbands, current => .ok (subbands ++ [current])
  | n + 1, subbands, current => do
      let ll ← conv2d current layer.llFilter 2 pad
      let lh ← conv2d current layer.lhFilter 2 pad
      let hl ← conv2d current layer.hlFilter 2 pad
      let hh ← conv2d current layer.hhFilter 2 pad
      decomposeLevels pad n (subbands ++ [lh, hl, hh]) ll

/-- `wavelet_decompose`. -/
def waveletDecompose (x : FeatureMap c K) : PyM (List (FeatureMap c K)) :=
  decomposeLevels layer (layer.llFilter.w / 2) layer.level [] x

/-- `torch.mean(sb, dim=(2, 3))`. -/
def mean (sb : FeatureMap c K) (ch : Fin c) : K :=
  (∑ i ∈ Finset.range sb.h, ∑ j ∈ Finset.range sb.w, sb.px ch i j) / (sb.h * sb.w)

/-- `forward`, where the first linear layer and `view` fit only the channels of the layer. -/
def forward [LinearOrder K] (sigmoid : K → K) (x : FeatureMap c K) : PyM (Fin channel → K) := do
  let subbands ← waveletDecompose layer x
  let feat := subbands.flatMap fun sb => List.ofFn (mean sb)
  if feat.length ≠ channel * (3 * layer.level + 1) then .error .runtimeError
  else
    let hid := fun j => max 0 (∑ k ∈ Finset.range feat.length, layer.fc1 j k * feat.getD k 0)
    .ok fun ch => sigmoid (∑ j, layer.fc2 ch j * hid j)

end W2Net.WtVis
