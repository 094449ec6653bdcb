import Mathlib.Data.Fin.VecNotation
import W2Net.Lib.Python
import W2Net.Lib.Tensor

/-!
# `W2Net.Models.Anchors`: the anchor generator

The model of `models/anchors.py`. A numpy array with five columns is the list of
its rows, and a reshape of nested arrays in row-major order is `List.flatten`.
The arithmetic is exact; the casts to `float32` are left out.
-/

set_option autoImplicit false

namespace W2Net

/-- A box `(x1, y1, x2, y2, angle)`. -/
abbrev AnchorBox (K : Type) : Type := Fin 5 → K

section
variable {K : Type} [Field K]

/-- `generate_anchors`: one box around the origin for each ratio, rotation and
scale. -/
def generateAnchors (m : PyMath K) (baseSize : K) (ratios scales rotations : List K) :
    List (AnchorBox K) :=
  -- Columns 2 and 3 start with the same values.
  let size := (npTile scales (ratios.length * rotations.length)).map fun s => baseSize * s
  let areas := List.zipWith (fun w h => w * h) size size
  let ratio := npRepeat ratios (scales.length * rotations.length)
  let w := List.zipWith (fun area r => m.sqrt (area / r)) areas ratio
  let h := List.zipWith (fun w r => w * r) w ratio
  let angle := npTile (npRepeat rotations scales.length) ratios.length
  List.zipWith (fun (p : K × K) a =>
    ![0 - p.1 * (1 / 2), 0 - p.2 * (1 / 2), p.1 - p.1 * (1 / 2), p.2 - p.2 * (1 / 2), a])
    (w.zip h) angle

/-- `shift`: the anchors at every cell of a feature with `shape` rows and
columns, cell after cell. -/
def shift (shape : ℕ × ℕ) (stride : ℕ) (anchors : List (AnchorBox K)) : List (AnchorBox K) :=
  let shiftX := (List.range shape.2).map fun (i : ℕ) => ((i : K) + 1 / 2) * stride
  let shiftY := (List.range shape.1).map fun (i : ℕ) => ((i : K) + 1 / 2) * stride
  let grid := meshgrid shiftX shiftY
  let shifts : List (AnchorBox K) :=
    List.zipWith (fun x y => ![x, y, x, y, 0]) grid.1.flatten grid.2.flatten
  (shifts.map fun s => anchors.map fun a => a + s).flatten

end

/-- `Anchors` after `__init__`. -/
structure Anchors (K : Type) where
  pyramidLevels : List ℕ
  strides : List ℕ
  sizes : List ℕ
  ratios : List K
  scales : List K
  rotations : List K

section
variable {K : Type} [Field K]

/-- `__init__`, with its defaults. -/
def Anchors.init (pyramidLevels strides sizes : Option (List ℕ))
    (ratios scales rotations : Option (List K)) : Anchors K :=
  let levels := pyramidLevels.getD [3, 4, 5, 6, 7]
  { pyramidLevels := levels
    strides := strides.getD (levels.map fun x => 2 ^ x)
    sizes := sizes.getD (levels.map fun x => 2 ^ (x + 1))
    ratios := ratios.getD [1]
    scales := scales.getD [1]
    rotations := rotations.getD [0] }

/-- `num_anchors`. -/
def Anchors.numAnchors (g : Anchors K) : ℕ := g.scales.length * g.ratios.length * g.rotations.length

/-- `image_shapes`, for one level. -/
def imageShape (h w x : ℕ) : ℕ × ℕ := ((h + 2 ^ x - 1) / 2 ^ x, (w + 2 ^ x - 1) / 2 ^ x)

/-- The shifted anchors of a level, for the level and its index. -/
def Anchors.level (g : Anchors K) (m : PyMath K) (h w : ℕ) (p : ℕ × ℕ) : PyM (List (AnchorBox K)) := do
  let size ← getOrIndexError g.sizes p.2
  let stride ← getOrIndexError g.strides p.2
  .ok (shift (imageShape h w p.1) stride
    (generateAnchors m (size : K) g.ratios g.scales g.rotations))

/-- `Anchors.forward`: the rows of all levels, once for each image. -/
def Anchors.forward {α : Type} (g : Anchors K) (m : PyMath K) (ims : Tensor α) :
    PyM (List (List (AnchorBox K))) :=
  match ims.shape with
  | [n, _, h, w] => do
      let shifted ← g.pyramidLevels.zipIdx.mapM (g.level m h w)
      .ok (List.replicate n shifted.flatten)
  | _ => .error .valueError

end

end W2Net
