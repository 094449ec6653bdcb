import W2Net.Lib.Image
import W2Net.Utils.Bbox
import W2Net.Utils.GeoUtils

/-!
# `W2Net.Utils.Augment`: the augmentation pipeline

The model of `utils/augment.py`: the augmentations that the datasets put in
their lists, `random_affine`, and the pipeline `Augment.__call__`.

An augmentation is called in two steps, as Python does it. `Signature.bind`
checks the arguments against the parameters of its `__call__`, and the body
returns a tuple of two or of three values, which the pipeline unpacks into two
names. The draws of `random.random()` are an infinite sequence (`Draws`), of
which each call consumes what it reads.

The operations of OpenCV and imgaug on pixels are the parameter `ImageOps`.
-/

set_option autoImplicit false

namespace W2Net.Augment

/-! ### Masks and labels -/

/-- A segmentation mask: an `H × W` array, a `K × 2` array with a point in each row, or
points in an array `[..., 2]` of another number of dimensions. The first two have
`ndim == 2`. -/
inductive SegMask (K : Type) where
  | raster (m : Img ℕ)
  | pointRows (pts : List (K × K))
  | points (pts : List (K × K))

/-- The label formats: `[cx, cy, w, h, a]`, `[c, x, y, w, h, a]`, and the four
corners. -/
inductive BoxMode where
  | xywha
  | cxywha
  | xyxyxyxy
  deriving Repr, DecidableEq

/-- The number of columns of a label row. -/
def BoxMode.width : BoxMode → ℕ
  | .xywha => 5
  | .cxywha => 6
  | .xyxyxyxy => 8

/-- A label row of the format. -/
abbrev LabelRow (K : Type) (mode : BoxMode) : Type := Fin mode.width → K

/-- What the pipeline transforms. -/
structure Sample (K P : Type) (mode : BoxMode) where
  img : Img P
  labels : List (LabelRow K mode)
  segMask : Option (SegMask K)

/-- The values of `random.random()`, in `[0, 1)`, in the order of the calls. -/
structure Draws (K : Type) [Zero K] [One K] [LE K] [LT K] where
  next : ℕ → K
  nonneg : ∀ n, 0 ≤ next n
  lt_one : ∀ n, next n < 1

namespace Draws

variable {K : Type} [Zero K] [One K] [LE K] [LT K]

/-- The next draw. -/
def head (d : Draws K) : K := d.next 0

/-- The draws after the next one. -/
def tail (d : Draws K) : Draws K where
  next n := d.next (n + 1)
  nonneg n := d.nonneg (n + 1)
  lt_one n := d.lt_one (n + 1)

end Draws

/-- The pixel operations of OpenCV and imgaug. `hsvScale a b` scales saturation
and brightness by `a` and `b`. -/
structure ImageOps (K P : Type) where
  hsvScale : K → K → Img P → Img P
  gaussianBlur : K → Img P → Img P
  gaussianNoise : K → Img P → Img P
  warpAffine : Affine K → Img P → Img P
  warpMask : Affine K → Img ℕ → Img ℕ
  warpPointRows : Affine K → List (K × K) → SegMask K
  boxes : Cv2Boxes K

section
variable {K P : Type} [Field K] [LinearOrder K] [FloorRing K]

/-- `random.uniform(lo, hi)` for the draw `u`. -/
def uniform (lo hi u : K) : K := lo + (hi - lo) * u

/-- `_norm180`. -/
def norm180 (aDeg : K) : K := pyMod (aDeg + 180) 360 - 180

/-! ### Flips -/

/-- The label map of `HorizontalFlip` for an image of width `W`. -/
def hflipRow (W : ℕ) : (mode : BoxMode) → LabelRow K mode → LabelRow K mode
  | .xywha, row =>
      fun j : Fin 5 =>
        if j = 0 then (W - 1 : K) - row (0 : Fin 5)
        else if j = 4 then norm180 (180 - row (4 : Fin 5))
        else row j
  | .cxywha, row =>
      fun j : Fin 6 =>
        if j = 1 then (W - 1 : K) - row (1 : Fin 6)
        else if j = 5 then norm180 (180 - row (5 : Fin 6))
        else row j
  | .xyxyxyxy, row => fun j : Fin 8 => if j.val % 2 = 0 then (W - 1 : K) - row j else row j

/-- The label map of `VerticalFlip` for an image of height `H`. -/
def vflipRow (H : ℕ) : (mode : BoxMode) → LabelRow K mode → LabelRow K mode
  | .xywha, row =>
      fun j : Fin 5 =>
        if j = 1 then (H - 1 : K) - row (1 : Fin 5)
        else if j = 4 then norm180 (-row (4 : Fin 5))
        else row j
  | .cxywha, row =>
      fun j : Fin 6 =>
        if j = 2 then (H - 1 : K) - row (2 : Fin 6)
        else if j = 5 then norm180 (-row (5 : Fin 6))
        else row j
  | .xyxyxyxy, row => fun j : Fin 8 => if j.val % 2 = 1 then (H - 1 : K) - row j else row j

/-- The mask of `HorizontalFlip`. `np.fliplr` exchanges the columns of a `K × 2` array. -/
def hflipMask (W : ℕ) : SegMask K → SegMask K
  | .raster m => .raster m.fliplr
  | .pointRows pts => .pointRows (pts.map Prod.swap)
  | .points pts => .points (pts.map fun p => ((W - 1 : K) - p.1, p.2))

/-- The mask of `VerticalFlip`. `np.flipud` reverses the rows of a `K × 2` array. -/
def vflipMask (H : ℕ) : SegMask K → SegMask K
  | .raster m => .raster m.flipud
  | .pointRows pts => .pointRows pts.reverse
  | .points pts => .points (pts.map fun p => (p.1, (H - 1 : K) - p.2))

/-! ### `random_affine` -/

/-- `cv2.getRotationMatrix2D(angle, center, scale)`. -/
def getRotationMatrix2D (m : PyMath K) (angle : K) (center : K × K) (scale : K) : Affine K :=
  let alpha := scale * m.cos (angle * m.pi / 180)
  let beta := scale * m.sin (angle * m.pi / 180)
  { a := alpha
    b := beta
    c := (1 - alpha) * center.1 - beta * center.2
    d := -beta
    e := alpha
    f := beta * center.1 + (1 - alpha) * center.2 }

/-- The type of the numbers in an array of labels. -/
inductive Dtype where
  | float
  | int32
  deriving Repr, DecidableEq

/-- What an assignment into the array stores: integers lose the fraction. -/
def Dtype.store : Dtype → K → K
  | .float, x => x
  | .int32, x => pyTrunc x

/-- The column of the `x` coordinate that belongs to column `j`. -/
def xCol (j : Fin 8) : Fin 8 := ⟨j.val / 2 * 2, by omega⟩

/-- The column of the `y` coordinate that belongs to column `j`. -/
def yCol (j : Fin 8) : Fin 8 := ⟨j.val / 2 * 2 + 1, by omega⟩

/-- The targets of `random_affine`, an array that the two assignments write in place.
The `y` columns are computed after the `x` columns were overwritten, so they read
the new `x`. -/
def affineTargets (dtype : Dtype) (M : Affine K) (width height : ℕ) (row : QuadRow K) : QuadRow K :=
  let newX : Fin 8 → K := fun j => dtype.store (row (xCol j) * M.a + row (yCol j) * M.b + M.c)
  let newY : Fin 8 → K := fun j => dtype.store (newX j * M.d + row (yCol j) * M.e + M.f)
  fun j =>
    if j.val % 2 = 0 then min (max (newX j) 0) width
    else min (max (newY j) 0) height

/-- The matrix that `random_affine` draws: a rotation and scaling around the
centre, then a translation. -/
def randomAffineMatrix (m : PyMath K) (img : Img P) (degree translate scale : K) (u : Fin 4 → K) :
    Affine K :=
  let R := getRotationMatrix2D m (uniform (-degree) degree (u 0))
    ((img.W : K) / 2, (img.H : K) / 2) (uniform (1 - scale) (1 + scale) (u 1))
  { R with
    c := R.c + uniform (-translate) translate (u 2) * img.H
    f := R.f + uniform (-translate) translate (u 3) * img.W }

/-- The parameters of `random_affine`. -/
def randomAffineSignature : Signature :=
  ⟨["img", "targets", "degree", "translate", "scale", "shear"], 1⟩

/-- `random_affine`: the warped image and the warped targets, in an array of the type
`dtype`. -/
def randomAffine (m : PyMath K) (ops : ImageOps K P) (img : Img P) (dtype : Dtype)
    (targets : List (QuadRow K)) (degree translate scale : K) (u : Fin 4 → K) :
    PyTuple (Img P) (List (QuadRow K)) (Affine K) :=
  let M := randomAffineMatrix m img degree translate scale u
  .pair (ops.warpAffine M img) (targets.map (affineTargets dtype M img.W img.H))

/-! ### The augmentations -/

/-- An augmentation object. -/
inductive Aug (K : Type) where
  | hsv (saturation brightness p : K)
  | horizontalFlip (p : K)
  | verticalFlip (p : K)
  | affine (degree translate scale shear p : K)
  | noise (intensity p : K)
  | blur (sigma p : K)

/-- The parameters of the `__call__` methods. `Noise` and `Blur` take no mask. -/
def Aug.signature : Aug K → Signature
  | .noise .. | .blur .. => ⟨["img", "labels", "mode"], 2⟩
  | _ => ⟨["img", "labels", "seg_mask", "mode"], 2⟩

/-- What an augmentation returns. -/
abbrev AugResult (K P : Type) (mode : BoxMode) : Type :=
  PyTuple (Img P) (List (LabelRow K mode)) (Option (SegMask K))

variable {mode : BoxMode}

/-- The triple of a sample. -/
def Sample.triple (s : Sample K P mode) : AugResult K P mode :=
  .triple s.img s.labels s.segMask

/-- `HSV.__call__`: with probability `p`, two more draws scale the colours. -/
def hsvCall (ops : ImageOps K P) (saturation brightness p : K) (s : Sample K P mode)
    (draws : Draws K) : AugResult K P mode × Draws K :=
  if draws.head < p then
    let a := uniform (-1) 1 draws.tail.head * saturation + 1
    let b := uniform (-1) 1 draws.tail.tail.head * brightness + 1
    ({ s with img := ops.hsvScale a b s.img }.triple, draws.tail.tail.tail)
  else (s.triple, draws.tail)

/-- `HorizontalFlip.__call__`. -/
def horizontalFlipCall (p : K) (s : Sample K P mode) (draws : Draws K) :
    AugResult K P mode × Draws K :=
  if p ≤ draws.head then (s.triple, draws.tail)
  else
    (.triple s.img.fliplr (s.labels.map (hflipRow s.img.W mode))
      (s.segMask.map (hflipMask s.img.W)), draws.tail)

/-- `VerticalFlip.__call__`. -/
def verticalFlipCall (p : K) (s : Sample K P mode) (draws : Draws K) :
    AugResult K P mode × Draws K :=
  if p ≤ draws.head then (s.triple, draws.tail)
  else
    (.triple s.img.flipud (s.labels.map (vflipRow s.img.H mode))
      (s.segMask.map (vflipMask s.img.H)), draws.tail)

/-- `Noise.__call__` and `Blur.__call__`: with probability `p` the image changes.
The result has no mask. -/
def pixelCall (op : Img P → Img P) (p : K) (s : Sample K P mode) (draws : Draws K) :
    AugResult K P mode × Draws K :=
  if draws.head < p then (.pair (op s.img) s.labels, draws.tail)
  else (.pair s.img s.labels, draws.tail)

/-- The mask of `Affine`, by the same matrix as the image. A `K × 2` array is warped as an
image is. -/
def affineMask (ops : ImageOps K P) (M : Affine K) : SegMask K → SegMask K
  | .raster m => .raster (ops.warpMask M m)
  | .pointRows pts => ops.warpPointRows M pts
  | .points pts => .points (pts.map M.mul)

/-- `[cx, cy, w, h, a]` as a row of boxes. -/
def rowOfLabel (r : LabelRow K .xywha) : RowXywha K :=
  ⟨r (0 : Fin 5), r (1 : Fin 5), r (2 : Fin 5), r (3 : Fin 5), r (4 : Fin 5)⟩

/-- A row of boxes as `[cx, cy, w, h, a]`. -/
def labelOfRow (r : RowXywha K) : LabelRow K .xywha :=
  fun j : Fin 5 =>
    if j = 0 then r.cx else if j = 1 then r.cy else if j = 2 then r.w
    else if j = 3 then r.h else r.a

/-- The part of `Affine.__call__` around `random_affine`, for a call that binds
its arguments. The two values that `random_affine` returns are unpacked into
three names. `rbox_2_quad` makes an array of `float32`, and the quads of the datasets
are `int32`. -/
def affineRest (m : PyMath K) (ops : ImageOps K P) (degree translate scale : K)
    (u : Fin 4 → K) : (mode : BoxMode) → Sample K P mode → PyM (AugResult K P mode)
  | .xywha, s => do
      let quads := s.labels.map fun r => Bbox.rbox2Quad ops.boxes (rowOfLabel r)
      let (img2, quads2, M) ←
        unpackThree (randomAffine m ops s.img .float quads degree translate scale u)
      let labels2 := quads2.map fun q => labelOfRow (Bbox.quad2Rbox ops.boxes q)
      .ok (.triple img2 labels2 (s.segMask.map (affineMask ops M)))
  | .xyxyxyxy, s => do
      let (img2, labels2, M) ←
        unpackThree (randomAffine m ops s.img .int32 s.labels degree translate scale u)
      .ok (.triple img2 labels2 (s.segMask.map (affineMask ops M)))
  -- Rows of six columns: `targets[:, [0, 2, 4, 6]]` is out of range.
  | .cxywha, _ => .error .indexError

/-- `Affine.__call__`. The call of `random_affine` passes `return_M=True`, which
is not one of its parameters. -/
def affineCall (m : PyMath K) (ops : ImageOps K P) (degree translate scale p : K)
    (s : Sample K P mode) (draws : Draws K) : PyM (AugResult K P mode × Draws K) :=
  if p ≤ draws.head then .ok (s.triple, draws.tail)
  else do
    randomAffineSignature.bind 2 ["degree", "translate", "scale", "shear", "return_M"]
    let result ← affineRest m ops degree translate scale (fun i => draws.tail.next i) mode s
    .ok (result, draws.tail.tail.tail.tail.tail)

/-- The body of `__call__`. -/
def Aug.body (m : PyMath K) (ops : ImageOps K P) (aug : Aug K) (s : Sample K P mode)
    (draws : Draws K) : PyM (AugResult K P mode × Draws K) :=
  match aug with
  | .hsv saturation brightness p => .ok (hsvCall ops saturation brightness p s draws)
  | .horizontalFlip p => .ok (horizontalFlipCall p s draws)
  | .verticalFlip p => .ok (verticalFlipCall p s draws)
  | .affine degree translate scale _ p => affineCall m ops degree translate scale p s draws
  | .noise intensity p => .ok (pixelCall (ops.gaussianNoise intensity) p s draws)
  | .blur sigma p => .ok (pixelCall (ops.gaussianBlur sigma) p s draws)

/-! ### The pipeline -/

/-- `probs`: one probability for all augmentations, or a list. -/
inductive Probs (K : Type) where
  | number (prob : K)
  | list (probs : List K)

/-- The probability of the augmentation at index `i`. -/
def Probs.get? : Probs K → ℕ → Option K
  | .number prob, _ => some prob
  | .list probs, i => probs[i]?

/-- An `Augment` object. -/
structure Pipeline (K : Type) (mode : BoxMode) where
  augmentations : List (Aug K)
  probs : Probs K

/-- `Augment(augmentations, box_mode=mode)`: the probability is 1. -/
def Pipeline.ofList (augmentations : List (Aug K)) : Pipeline K mode :=
  ⟨augmentations, .number 1⟩

/-- `img, labels = augmentation(img, labels, seg_mask, self.mode)`: four
positional arguments, and two names for the result. -/
def applyAug (m : PyMath K) (ops : ImageOps K P) (aug : Aug K) (s : Sample K P mode)
    (draws : Draws K) : PyM (Sample K P mode × Draws K) := do
  aug.signature.bind 4 []
  let (result, rest) ← aug.body m ops s draws
  let (img, labels) ← unpackTwo result
  .ok ({ s with img := img, labels := labels }, rest)

/-- The loop of `Augment.__call__` from index `i`. -/
def callLoop (m : PyMath K) (ops : ImageOps K P) (probs : Probs K) :
    List (Aug K) → ℕ → Sample K P mode → Draws K → PyM (Sample K P mode × Draws K)
  | [], _, s, draws => .ok (s, draws)
  | aug :: augs, i, s, draws =>
      match probs.get? i with
      | none => .error .indexError
      | some prob =>
          if draws.head < prob then do
            let (s, rest) ← applyAug m ops aug s draws.tail
            callLoop m ops probs augs (i + 1) s rest
          else callLoop m ops probs augs (i + 1) s draws.tail

/-- The parameters of `Augment.__call__`. -/
def callSignature : Signature := ⟨["img", "labels", "seg_mask"], 2⟩

/-- `Augment.__call__`. -/
def Pipeline.call (m : PyMath K) (ops : ImageOps K P) (t : Pipeline K mode) (s : Sample K P mode)
    (draws : Draws K) : PyM (Sample K P mode × Draws K) :=
  callLoop m ops t.probs t.augmentations 0 s draws

end

end W2Net.Augment
