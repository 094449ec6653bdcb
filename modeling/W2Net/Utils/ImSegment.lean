import Mathlib.Data.Fin.VecNotation
import W2Net.Utils.Rescale

/-!
# `W2Net.Utils.ImSegment`: segmentation of one image

The model of `im_segment` of `utils/im_segment.py`. The image is resized so that its shorter
side is `target_size`, padded at the bottom and on the right to multiples of 32, and
segmented. The logits are resized to the size of the image.

`toResized`, `toPadded` and `toOriginal` follow a location of the image through these steps.
-/

set_option autoImplicit false

namespace W2Net.ImSegment

open W2Net.Letterbox (ResizeOps)

variable {K L : Type} [Field K] [LinearOrder K] [FloorRing K]

/-- The three channels of a pixel. -/
abbrev Rgb (K : Type) : Type := Fin 3 → K

def mean : Rgb K := ![485 / 1000, 456 / 1000, 406 / 1000]

def std : Rgb K := ![229 / 1000, 224 / 1000, 225 / 1000]

/-- `(im / 255 - mean) / std` on one pixel. -/
def normalize (px : Rgb K) : Rgb K := fun c => (px c / 255 - mean c) / std c

/-- `target_size`: an `int`, or a list of them. -/
inductive TargetSize where
  | int (size : ℤ)
  | list (sizes : List ℤ)
  deriving DecidableEq

/-- `target_size[0]` of a list. -/
def TargetSize.first : TargetSize → PyM ℤ
  | .int size => .ok size
  | .list sizes => getOrIndexError sizes 0

/-- What a network returns for `return_seg=True`: a dictionary with the key `seg_logits`, or the
logits. -/
inductive Outs (L : Type) where
  | dict (segLogits : Img L)
  | logits (segLogits : Img L)

/-- A network. A call with a keyword it does not know raises `TypeError`. -/
structure Network (K L : Type) where
  forward : Img (Rgb K) → PyM (Outs L)
  segForward : Option (Img (Rgb K) → PyM (Img L))

/-- `seg_logits_s`: from the call with `return_seg=True`, or from `seg_forward`. -/
def Network.segLogits (model : Network K L) (im : Img (Rgb K)) : PyM (Img L) :=
  match model.forward im with
  | .ok (.dict segLogits) => .ok segLogits
  | .ok (.logits segLogits) => .ok segLogits
  | .error .typeError =>
      match model.segForward with
      | some segForward => segForward im
      | none => .error .runtimeError
  | .error e => .error e

/-- The resized sides, and the pads at the bottom and on the right. -/
structure Sizes where
  h : ℤ
  w : ℤ
  ph : ℤ
  pw : ℤ
  deriving DecidableEq

/-- `int(math.ceil(size / 32.0) * 32 - size)`. -/
def padTo32 (K : Type) [Field K] [LinearOrder K] [FloorRing K] (size : ℤ) : ℤ :=
  ⌈(size : K) / 32⌉ * 32 - size

/-- The sizes for an image of `H0` rows and `W0` columns. -/
def sizes (K : Type) [Field K] [LinearOrder K] [FloorRing K] (H0 W0 : ℕ) (targetSize : ℤ) :
    PyM Sizes := do
  let r : K ← pyDiv (targetSize : K) (min H0 W0 : ℕ)
  let h := pyRound (H0 * r)
  let w := pyRound (W0 * r)
  .ok ⟨h, w, padTo32 K h, padTo32 K w⟩

/-- `im_segment`, with `F.interpolate` to a number of rows and columns. -/
def imSegment (ops : ResizeOps (Rgb K)) (interpolate : Img L → ℕ → ℕ → Img L) (model : Network K L)
    (imRgb : Img (Rgb K)) (targetSize : TargetSize) : PyM (Img L) := do
  let target ← targetSize.first
  let s ← sizes K imRgb.H imRgb.W target
  let im ← Rescale.resize ops (imRgb.map normalize) s.w s.h
  let im := im.copyMakeBorder 0 s.ph.toNat 0 s.pw.toNat 0
  let segLogits ← model.segLogits im
  .ok (interpolate segLogits imRgb.H imRgb.W)

/-! ### Locations -/

/-- The linear map from a rectangle of a size `(rows, columns)` to another one. -/
def rectMap (src dst : K × K) (p : K × K) : K × K := (p.1 * dst.1 / src.1, p.2 * dst.2 / src.2)

variable (H0 W0 : ℕ) (s : Sizes)

/-- From the image to the resized image. -/
def toResized (p : K × K) : K × K := rectMap (H0, W0) (s.h, s.w) p

/-- From the resized image to the padded one, which begins with it. -/
def toPadded (p : K × K) : K × K := p

/-- From the logits, which cover the padded image, to their last resizing. -/
def toOriginal (p : K × K) : K × K :=
  rectMap ((s.h + s.ph : ℤ), (s.w + s.pw : ℤ)) (H0, W0) p

end W2Net.ImSegment
