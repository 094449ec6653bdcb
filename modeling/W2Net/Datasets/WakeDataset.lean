import W2Net.Lib.Angle
import W2Net.Lib.Image
import W2Net.Utils.Bbox

/-!
# `W2Net.Datasets.WakeDataset`: the flip of the wake dataset

The part of `datasets/wake_dataset.py` that turns an annotated box into the three
return formats and flips them with the image: `rbox_to_poly`, `poly_to_aabb`,
`normalize_angle` and `WakeDataset._hflip_inplace`.
-/

set_option autoImplicit false

namespace W2Net.WakeDataset

/-- `angle_unit`. -/
inductive AngleUnit where
  | radian
  | degree
  deriving Repr, DecidableEq

variable {K : Type} [Field K]

/-- `rbox_to_poly`: the corners from the upper left one, with the angle in radians. -/
def rboxToPoly (m : PyMath K) (r : RowXywha K) : QuadRow K :=
  let dx := r.w / 2
  let dy := r.h / 2
  let cosT := m.cos r.a
  let sinT := m.sin r.a
  let rotX := fun x y : K => x * cosT - y * sinT + r.cx
  let rotY := fun x y : K => x * sinT + y * cosT + r.cy
  ![rotX (-dx) (-dy), rotY (-dx) (-dy), rotX dx (-dy), rotY dx (-dy), rotX dx dy, rotY dx dy,
    rotX (-dx) dy, rotY (-dx) dy]

variable [LinearOrder K]

/-- `poly_to_aabb`. -/
def polyToAabb (poly8 : QuadRow K) : Aabb K where
  x1 := min (min (poly8 0) (poly8 2)) (min (poly8 4) (poly8 6))
  y1 := min (min (poly8 1) (poly8 3)) (min (poly8 5) (poly8 7))
  x2 := max (max (poly8 0) (poly8 2)) (max (poly8 4) (poly8 6))
  y2 := max (max (poly8 1) (poly8 3)) (max (poly8 5) (poly8 7))

/-- A half turn in the unit. -/
def AngleUnit.half (m : PyMath K) : AngleUnit → K
  | .radian => m.pi
  | .degree => 180

/-- `normalize_angle(angle, unit)`. -/
def normalizeAngle [FloorRing K] (m : PyMath K) (angle : K) (unit : AngleUnit) : K :=
  wrapLoops (unit.half m) angle

/-- The boxes of an image in one of the return formats. -/
inductive Boxes (K : Type) where
  | rbox (rows : List (RowXywha K))
  | poly (rows : List (QuadRow K))
  | aabb (rows : List (Aabb K))

/-- A row `[cx, cy, w, h, angle]` in an image of width `W`. -/
def hflipRbox [FloorRing K] (m : PyMath K) (unit : AngleUnit) (W : ℕ) (r : RowXywha K) :
    RowXywha K :=
  { r with cx := (W - 1 : K) - r.cx, a := normalizeAngle m (unit.half m - r.a) unit }

/-- A row `[x1, y1, …, x4, y4]`. -/
def hflipPoly (W : ℕ) (p : QuadRow K) : QuadRow K :=
  fun j => if j.val % 2 = 0 then (W - 1 : K) - p j else p j

/-- A row `[xmin, ymin, xmax, ymax]`. -/
def hflipAabb (W : ℕ) (b : Aabb K) : Aabb K :=
  { b with x1 := (W - 1 : K) - b.x2, x2 := (W - 1 : K) - b.x1 }

/-- `WakeDataset._hflip_inplace`. -/
def hflipInplace [FloorRing K] {P : Type} (m : PyMath K) (unit : AngleUnit) (image : Img P) :
    Boxes K → Img P × Boxes K
  | .rbox rows => (image.fliplr, .rbox (rows.map (hflipRbox m unit image.W)))
  | .poly rows => (image.fliplr, .poly (rows.map (hflipPoly image.W)))
  | .aabb rows => (image.fliplr, .aabb (rows.map (hflipAabb image.W)))

end W2Net.WakeDataset
