import Mathlib.Algebra.BigOperators.Group.Finset.Basic
import Mathlib.Data.Fintype.Basic
import W2Net.Lib.Path
import W2Net.Utils.Map

/-!
# `W2Net.Eval`: from detections to the files that are evaluated

The model of the part of `data_evaluate` of `eval.py` that writes the detections of
each image to a text file, and of `eval_mAP` on the files. A score is printed with
`{:.2f}`, so `eval_mAP` reads `round2` of it. The function that prints a score is an argument, so
that the scores of the model can be evaluated in the same way.

The corners of a detection are those that are printed, of any type `B`.

The last part is the model of `seg_evaluate` and `_iou_dice`. The probabilities of the model and
the masks of the dataset are given for each image.
-/

set_option autoImplicit false

namespace W2Net.Eval

open W2Net.Map (TxtFile GtLine DrLine evalAP)

variable {B K : Type}

/-- A row of `dets`, with its printed corners. -/
structure ModelDet (B K : Type) where
  cls : ℕ
  score : K
  corners : B

/-- An image: its base name without the extension, and its detections, none when it cannot be
read. -/
structure ImageDets (B K : Type) where
  base : String
  dets : List (ModelDet B K)

/-- `float('{:.2f}'.format(x))`. -/
def round2 [Field K] [LinearOrder K] [FloorRing K] (x : K) : K := (pyRound (x * 100) : K) / 100

variable (returnClass : ℕ → PyM String) (print : K → K)

/-- The line of a detection. -/
def writeLine (d : ModelDet B K) : PyM (DrLine B K) := do
  let name ← returnClass d.cls
  .ok ⟨name, print d.score, d.corners⟩

/-- The file of an image. -/
def writeFile (image : ImageDets B K) : PyM (TxtFile (DrLine B K)) := do
  let lines ← image.dets.mapM (writeLine returnClass print)
  .ok ⟨image.base, lines⟩

/-- The loop over the images. -/
def writeFiles (images : List (ImageDets B K)) : PyM (List (TxtFile (DrLine B K))) :=
  images.mapM (writeFile returnClass print)

/-- A file replaces an earlier one with its name. -/
def overwrite {L : Type} (files : List (TxtFile L)) (file : TxtFile L) : List (TxtFile L) :=
  (files.filter fun f => f.stem ≠ file.stem) ++ [file]

/-- `dr_files_list`: the files of the directory, sorted by their names. `glob` skips hidden files,
so this is the list for images whose names do not start with a dot. -/
def onDisk {L : Type} (files : List (TxtFile L)) : List (TxtFile L) :=
  (files.foldl overwrite []).insertionSort fun f g => f.stem ++ ".txt" ≤ g.stem ++ ".txt"

/-- `data_evaluate`, up to the AP of each class. -/
def dataEvaluate [Field K] [LinearOrder K] (overlap : B → B → PyM (K × K)) (thres : K)
    (gtFiles : List (TxtFile (GtLine B))) (images : List (ImageDets B K)) :
    PyM (List (String × K)) := do
  let files ← writeFiles returnClass print images
  evalAP overlap thres gtFiles (onDisk files)

/-! ### File names -/

/-- The extensions of `_is_image`. No other character than an ASCII one is lowered to a letter
of them. -/
def imageExtensions : List Text :=
  [".jpg", ".jpeg", ".png", ".bmp", ".tif", ".tiff", ".webp"].map String.toList

/-- `_is_image(p)`. -/
def isImage (p : Text) : Bool := imageExtensions.contains ((Path.splitext p).2.map Char.toLower)

/-- `ims_list` from the lines of an image list (not of `VOC`, which lists bare names). -/
def imsList (lines : List Text) : List Text :=
  ((lines.map Text.strip).filter fun p => p ≠ []).filter isImage

/-- `base`. -/
def base (imPath : Text) : Text := (Path.splitext (Path.basename imPath)).1

/-- The name of the detection file of an image. -/
def drName (imPath : Text) : Text := base imPath ++ ".txt".toList

/-! ### Segmentation -/

/-- A mask with entries 0 and 1. -/
abbrev Mask (H W : ℕ) : Type := Fin H → Fin W → Bool

namespace Mask
variable {H W : ℕ}

/-- `pred & gt`. -/
def inter (a b : Mask H W) : Mask H W := fun r c => a r c && b r c

/-- `pred | gt`. -/
def union (a b : Mask H W) : Mask H W := fun r c => a r c || b r c

/-- `mask.float().sum()`. -/
def area [Field K] (m : Mask H W) : K := ∑ r, ∑ c, if m r c then 1 else 0

end Mask

section Scores
variable {H W : ℕ} [Field K] [LinearOrder K]

/-- `_iou_dice`. Its default for `eps` is 1. -/
def iouDice (eps : K) (pred target : Mask H W) : K × K :=
  let inter : K := (pred.inter target).area
  let union : K := (pred.union target).area
  ((inter + eps) / (union + eps), (2 * inter + eps) / (pred.area + target.area + eps))

/-- `iou` and `dice` of an image in `seg_evaluate`, with `clamp_min(1.0)`. -/
def segScores (pred gt : Mask H W) : K × K :=
  let inter : K := (pred.inter gt).area
  let union : K := max (pred.union gt).area 1
  let denom : K := max (pred.area + gt.area) 1
  (inter / union, 2 * inter / denom)

end Scores

/-- An image that `seg_evaluate` has probabilities and a mask for. -/
structure SegImage (K : Type) where
  height : ℕ
  width : ℕ
  prob : Fin height → Fin width → K
  gt : Fin height → Fin width → K

section SegEvaluate
variable [Field K] [LinearOrder K]

/-- The scores of `prob > thr` and `gt > 0`. -/
def SegImage.scores (thr : K) (image : SegImage K) : K × K :=
  segScores (fun r c => decide (thr < image.prob r c)) (fun r c => decide (0 < image.gt r c))

/-- One image of the loop, with `iou_sum`, `dice_sum` and `n_valid`. `none` is an image that
cannot be read, or has no mask or no logits. -/
def segStep (thr : K) (sums : K × K × ℕ) : Option (SegImage K) → K × K × ℕ
  | none => sums
  | some image =>
      if image.height * image.width = 0 then sums
      else (sums.1 + (image.scores thr).1, sums.2.1 + (image.scores thr).2, sums.2.2 + 1)

/-- `seg_evaluate`, behind the list of the images. -/
def segEvaluate (thr : K) (images : List (Option (SegImage K))) : K × K :=
  let sums := images.foldl (segStep thr) (0, 0, 0)
  if sums.2.2 = 0 then (0, 0) else (sums.1 / sums.2.2, sums.2.1 / sums.2.2)

end SegEvaluate

end W2Net.Eval
