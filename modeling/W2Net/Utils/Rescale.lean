import W2Net.Lib.Rounding
import W2Net.Utils.Letterbox

/-!
# `W2Net.Utils.Rescale`: resizing to multiples of 32

The model of `rescale` of `utils/utils.py`, which returns the resized image and
the array `im_scale`. The labels of the image are multiplied by the array, and
detections on the resized image are divided by it.

Up to the floor the factor is a double: a product that is a multiple of 32 in exact
arithmetic can come out below it. The two entries of `im_scale` are kept as exact
quotients of pixel counts, which are nearer to the doubles than any rounding behind
them can tell.
-/

set_option autoImplicit false

namespace W2Net

/-- `np.array([im_scale_x, im_scale_y, im_scale_x, im_scale_y])`. -/
structure ImScale (K : Type) where
  x : K
  y : K
  deriving DecidableEq

namespace ImScale

variable {K : Type} [Field K] (s : ImScale K)

/-- Entry `j` of the array. -/
def entry (j : ℕ) : K := if j % 2 = 0 then s.x else s.y

/-- `row[:4] = row[:4] * im_scale`. -/
def mulFirst4 {n : ℕ} (row : Fin n → K) : Fin n → K :=
  fun j => if (j : ℕ) < 4 then row j * s.entry j else row j

/-- `row[:4] = row[:4] / im_scale`. -/
def divFirst4 {n : ℕ} (row : Fin n → K) : Fin n → K :=
  fun j => if (j : ℕ) < 4 then row j / s.entry j else row j

end ImScale

namespace Rescale

open W2Net.Letterbox (ResizeOps)

variable {K P : Type} [Field K] [LinearOrder K] [FloorRing K]

/-- `multiple`, which no call changes. -/
def multiple : ℕ := 32

/-- The ratio that `rescale` keeps: the shorter side becomes `target_size`, unless
the longer one exceeds `max_size`. -/
def ratio (H W : ℕ) (targetSize maxSize : K) : PyM K := do
  let imScale ← double <$> pyDiv targetSize (min H W : ℕ)
  if maxSize < pyRound (double (imScale * (max H W : ℕ))) then
    double <$> pyDiv maxSize (max H W : ℕ)
  else .ok imScale

/-- `np.floor(size * im_scale / multiple) * multiple`. The division by 32 is exact. -/
def flooredSize (size : ℕ) (imScale : K) : ℤ := ⌊double (size * imScale) / multiple⌋ * multiple

/-- `target_size` without `keep_ratio`. -/
def flooredTarget (targetSize : K) : ℤ := ⌊targetSize / multiple⌋ * multiple

/-- `cv2.resize` to `w` columns and `h` rows. OpenCV refuses an empty result. -/
def resize (ops : ResizeOps P) (im : Img P) (w h : ℤ) : PyM (Img P) :=
  if w ≤ 0 ∨ h ≤ 0 then .error .cv2Error else .ok (ops.linear im w.toNat h.toNat)

/-- `rescale`. -/
def rescale (ops : ResizeOps P) (im : Img P) (targetSize maxSize : K) (keepRatio : Bool) :
    PyM (Img P × ImScale K) :=
  if keepRatio then do
    let imScale ← ratio im.H im.W targetSize maxSize
    let s : ImScale K := ⟨flooredSize im.W imScale / im.W, flooredSize im.H imScale / im.H⟩
    -- `cv2.resize` rounds the sizes it computes from the two factors.
    let resized ← resize ops im (pyRound (im.W * s.x)) (pyRound (im.H * s.y))
    .ok (resized, s)
  else do
    let target := flooredTarget targetSize
    let x ← pyDiv (target : K) im.W
    let y ← pyDiv (target : K) im.H
    let resized ← resize ops im target target
    .ok (resized, ⟨x, y⟩)

end Rescale

end W2Net
