import Mathlib.Data.Int.Notation
import Mathlib.Tactic.Common

/-!
# `W2Net.Lib.Image`: arrays of pixels

`Img P` is an array of `H` rows and `W` columns, as a function on positions. The
values outside the array are never read by the operations here.

`Cv2Regions` holds the functions of OpenCV on regions of a mask. OpenCV is not
part of the repository, so they are parameters of the model.
-/

set_option autoImplicit false

namespace W2Net

/-- An array of `H` rows and `W` columns. -/
structure Img (P : Type) where
  H : ℕ
  W : ℕ
  px : ℕ → ℕ → P

namespace Img

variable {P : Type} (im : Img P)

/-- `np.zeros((H, W))`. -/
def zeros (H W : ℕ) : Img ℕ := ⟨H, W, fun _ _ => 0⟩

/-- The array with `f` applied to each pixel. -/
def map {Q : Type} (f : P → Q) : Img Q := ⟨im.H, im.W, fun y x => f (im.px y x)⟩

/-- `np.fliplr`. -/
def fliplr : Img P := { im with px := fun y x => im.px y (im.W - 1 - x) }

/-- `np.flipud`. -/
def flipud : Img P := { im with px := fun y x => im.px (im.H - 1 - y) x }

/-- `cv2.copyMakeBorder` with a constant border. -/
def copyMakeBorder (top bottom left right : ℕ) (value : P) : Img P where
  H := top + im.H + bottom
  W := left + im.W + right
  px y x :=
    if top ≤ y ∧ y < top + im.H ∧ left ≤ x ∧ x < left + im.W then im.px (y - top) (x - left)
    else value

/-- `im.astype(np.uint8)` of an array of integers. -/
def astypeUint8 (im : Img ℕ) : Img ℕ := im.map (· % 256)

/-- `np.where(im > 0)`: the columns and rows of the positive entries, row by row. -/
def wherePos (im : Img ℕ) : List (ℕ × ℕ) :=
  (List.range im.H).flatMap fun y =>
    ((List.range im.W).filter fun x => decide (0 < im.px y x)).map fun x => (x, y)

end Img

/-- What `cv2.connectedComponentsWithStats` returns: the number of labels with
the background label 0, the label of each pixel, and the area and the centroid of
each label. -/
structure Components (K : Type) where
  num : ℕ
  labels : Img ℕ
  area : ℕ → ℤ
  centroid : ℕ → K × K

/-- `cv2.connectedComponentsWithStats` with connectivity 8, and `cv2.fillPoly` of
a polygon with the value 1 into an array of zeros. -/
structure Cv2Regions (K : Type) where
  connectedComponentsWithStats : Img ℕ → Components K
  fillPoly : ℕ → ℕ → List (ℤ × ℤ) → Img ℕ

namespace Components

variable {K : Type} (cc : Components K)

/-- `range(1, num)`: the labels of the foreground. -/
def foreground : List ℕ := List.range' 1 (cc.num - 1)

/-- `(labels == lab).astype(np.uint8)`. -/
def region (lab : ℕ) : Img ℕ := cc.labels.map fun l => if l = lab then 1 else 0

end Components

end W2Net
