import W2Net.Lib.Image
import W2Net.Lib.Python

/-!
# `W2Net.Utils.Letterbox`: resizing with padding

The model of `letterbox_pair` and `unletterbox_map` in `utils/letterbox.py`. The
image and its mask are scaled by one ratio and padded to the target size. The pads
are returned as four numbers, with which a map of the target size is cropped and
scaled back.
-/

set_option autoImplicit false

namespace W2Net.Letterbox

/-- `cv2.resize(img, (w, h))` with linear and with nearest interpolation. -/
structure ResizeOps (P : Type) where
  linear : Img P → ℕ → ℕ → Img P
  nearest : Img ℕ → ℕ → ℕ → Img ℕ

/-- The result has the requested size. -/
structure ResizeOps.Sized {P : Type} (ops : ResizeOps P) : Prop where
  linear : ∀ im w h, (ops.linear im w h).H = h ∧ (ops.linear im w h).W = w
  nearest : ∀ im w h, (ops.nearest im w h).H = h ∧ (ops.nearest im w h).W = w

/-- What `letterbox_pair` returns. The first component of `(r, r)` is `r`, and
`pads` is `(left, right, top, bottom)`. -/
structure Letterboxed (K P : Type) where
  img : Img P
  mask : Img ℕ
  r : K
  pads : List ℕ

variable {K P : Type} [Field K] [LinearOrder K] [FloorRing K]

/-- `letterbox_pair(img, mask, new_shape=(new_h, new_w))`. -/
def letterboxPair (ops : ResizeOps P) (color : P) (img : Img P) (mask : Img ℕ)
    (newShape : ℕ × ℕ) : Letterboxed K P :=
  let r : K := min ((newShape.1 : K) / img.H) ((newShape.2 : K) / img.W)
  let unpadW := pyRound ((img.W : K) * r)
  let unpadH := pyRound ((img.H : K) * r)
  let dw := (newShape.2 : ℤ) - unpadW
  let dh := (newShape.1 : ℤ) - unpadH
  -- `floor(d / 2)` and `ceil(d / 2)`
  let left := (dw / 2).toNat
  let right := ((dw + 1) / 2).toNat
  let top := (dh / 2).toNat
  let bottom := ((dh + 1) / 2).toNat
  { img := (ops.linear img unpadW.toNat unpadH.toNat).copyMakeBorder top bottom left right color
    mask := (ops.nearest mask unpadW.toNat unpadH.toNat).copyMakeBorder top bottom left right 0
    r := r
    pads := [left, right, top, bottom] }

/-! ### The way back -/

/-- A bound of a slice of `n` entries. A negative one counts from the end. -/
def sliceBound (n : ℕ) (i : ℤ) : ℕ := if 0 ≤ i then min i.toNat n else (i + n).toNat

/-- `im[y0:y1, x0:x1]`. -/
def slice {Q : Type} (im : Img Q) (y0 y1 x0 x1 : ℤ) : Img Q where
  H := sliceBound im.H y1 - sliceBound im.H y0
  W := sliceBound im.W x1 - sliceBound im.W x0
  px y x := im.px (sliceBound im.H y0 + y) (sliceBound im.W x0 + x)

/-- `prob_cropped`: the map without the four pads. -/
def probCropped {Q : Type} (probLb : Img Q) (left right top bottom : ℕ) : Img Q :=
  slice probLb top ((probLb.H : ℤ) - bottom) left ((probLb.W : ℤ) - right)

/-- `unletterbox_map(prob_lb, orig_hw, ratio, pads)`, which does not read `ratio`.
`resize im w h` is `cv2.resize(im, (w, h))`. -/
def unletterboxMap {Q : Type} (resize : Img Q → ℕ → ℕ → Img Q) (probLb : Img Q)
    (origHw : ℕ × ℕ) (pads : List ℕ) : PyM (Img Q) :=
  match pads with
  | [left, right, top, bottom] =>
      .ok (resize (probCropped probLb left right top bottom) origHw.2 origHw.1)
  | _ => .error .valueError

end W2Net.Letterbox
