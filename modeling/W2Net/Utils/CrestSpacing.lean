import W2Net.Lib.Image
import W2Net.Lib.OrderStats
import W2Net.Lib.Python

/-!
# `W2Net.Utils.CrestSpacing`: the wavelength in pixels

The model of `estimate_wavelength_from_mask` of `utils/utils.py`: the centroids of
the components are projected on the heading, and the wavelength is the median of
the distances between neighbouring projections, the outliers left out.
-/

set_option autoImplicit false

namespace W2Net.CrestSpacing

variable {K : Type} [Field K] [LinearOrder K] [FloorRing K]

/-- The dictionary of `estimate_wavelength_from_mask`. -/
structure SpacingInfo (K : Type) where
  spacingsPx : List K
  lambdaPx : Option K
  nCrests : ℕ
  deriving DecidableEq

/-- `centroids[keep]`: the centroids of the components that are large enough. -/
def keptCentroids (cc : Components K) (minArea : ℤ) : List (K × K) :=
  (cc.foreground.filter fun i => decide (minArea ≤ cc.area i)).map cc.centroid

/-- `np.diff(np.sort(centroids @ v))`. -/
def adjacentSpacings (centroids : List (K × K)) (v : K × K) : List K :=
  npDiff (npSort (centroids.map fun c => c.1 * v.1 + c.2 * v.2))

/-- The interquartile filter, with the lower bound clipped at 0. It needs three
spacings. -/
def iqrFilter (spacings : List K) : List K :=
  if 3 ≤ spacings.length then
    let q1 := npPercentile spacings 25
    let q3 := npPercentile spacings 75
    let iqr := q3 - q1
    let lo := q1 - 3 / 2 * iqr
    let hi := q3 + 3 / 2 * iqr
    spacings.filter fun x => decide (max 0 lo ≤ x ∧ x ≤ hi)
  else spacings

/-- What the function does with the centroids and the direction `v`. -/
def spacingInfo (centroids : List (K × K)) (v : K × K) : SpacingInfo K :=
  if centroids.length < 2 then ⟨[], none, centroids.length⟩
  else
    let spacings := iqrFilter (adjacentSpacings centroids v)
    if spacings.length = 0 then ⟨[], none, centroids.length⟩
    else ⟨spacings, some (npMedian spacings), centroids.length⟩

/-- `estimate_wavelength_from_mask`. -/
def estimateWavelengthFromMask (m : PyMath K) (cv : Cv2Regions K) (binMask : Img ℕ)
    (headingRad : K) (minArea : ℤ) : SpacingInfo K :=
  spacingInfo (keptCentroids (cv.connectedComponentsWithStats binMask) minArea)
    (m.cos headingRad, m.sin headingRad)

end W2Net.CrestSpacing
