import Mathlib.Data.List.Sort
import W2Net.Utils.Lbr.Centerline
import W2Net.Utils.Lbr.Crests

/-!
# `W2Net.Utils.EdgeWavelength`: the wavelength between the edges of the crests

The model of `find_wave_edge_point`, `extract_wave_crests_with_edges` and
`calculate_wavelength_from_edges` of `utils/wavelength.py`. The crests are the components of the
mask, in the order of their projections on the box direction, and the wavelength is the mean
distance between edges of neighbours. `pixel_to_lonlat` and `calculate_geo_distance` are the
functions that `from utils.lbr import *` leaves in place.
-/

set_option autoImplicit false

namespace W2Net.Wavelength

open W2Net.Lbr (regionPoints waveProj npMean npStd pixelToLonlat calculateGeoDistance)

section
variable {K : Type} [Field K] [LinearOrder K]

/-- `np.argmin`. -/
def npArgmin (xs : List K) : ℕ :=
  match xs.argmin id with
  | none => 0
  | some x => xs.idxOf x

/-- The `mode` of an edge. -/
inductive Edge where
  | leading
  | trailing
  deriving DecidableEq

/-- `find_wave_edge_point`. -/
def findWaveEdgePoint (maskRegion : Img ℕ) (vDirection centerPt : K × K) (mode : Edge) :
    Option (K × K) :=
  let points := regionPoints maskRegion
  let projections := points.map (waveProj vDirection centerPt)
  match mode with
  | .leading => points[npArgmax projections]?
  | .trailing => points[npArgmin projections]?

/-- An entry of `wave_crests`. -/
structure EdgeCrest (K : Type) where
  id : ℕ
  area : ℤ
  center : K × K
  leadingEdge : K × K
  trailingEdge : K × K
  projection : K

/-- One round of the loop over the components. -/
def edgeCrestOf (cc : Components K) (vObb obbCenter : K × K) (minArea : ℤ) (i : ℕ) :
    Option (EdgeCrest K) :=
  if cc.area i < minArea then none
  else
    match findWaveEdgePoint (cc.region i) vObb obbCenter .leading,
        findWaveEdgePoint (cc.region i) vObb obbCenter .trailing with
    | some leadingPt, some trailingPt =>
        some ⟨i, cc.area i, cc.centroid i, leadingPt, trailingPt,
          waveProj vObb obbCenter (cc.centroid i)⟩
    | _, _ => none

/-- `extract_wave_crests_with_edges`. -/
def extractWaveCrestsWithEdges (cv : Cv2Regions K) (binMask : Img ℕ) (vObb obbCenter : K × K)
    (minArea : ℤ) : List (EdgeCrest K) :=
  let cc := cv.connectedComponentsWithStats binMask.astypeUint8
  (cc.foreground.filterMap (edgeCrestOf cc vObb obbCenter minArea)).mergeSort
    fun a b => decide (a.projection ≤ b.projection)

/-- `edge_mode`; every other text is taken as `trailing_to_leading`. -/
inductive EdgeMode where
  | leadingToLeading
  | trailingToTrailing
  | trailingToLeading
  deriving DecidableEq

/-- `pt1` and `pt2` of two neighbours. -/
def EdgeMode.points (mode : EdgeMode) (curr next : EdgeCrest K) : (K × K) × (K × K) :=
  match mode with
  | .leadingToLeading => (curr.leadingEdge, next.leadingEdge)
  | .trailingToTrailing => (curr.trailingEdge, next.trailingEdge)
  | .trailingToLeading => (curr.trailingEdge, next.leadingEdge)

/-- The dictionary of `calculate_wavelength_from_edges`. -/
structure EdgeWavelength (K : Type) where
  wavelengthM : Option K
  wavelengthsM : List K
  stdM : Option K
  nCrests : ℕ
  waveCrests : List (EdgeCrest K)

variable {C : Type}

/-- One round of the loop over the neighbours. The file is opened for each point. -/
def crestDistance (pp : PyProj K C) (tif : PyM (Raster K C)) (mode : EdgeMode)
    (neighbours : EdgeCrest K × EdgeCrest K) : PyM K := do
  let (pt1, pt2) := mode.points neighbours.1 neighbours.2
  let ds ← tif
  .ok (calculateGeoDistance pp (pixelToLonlat ds pt1.1 pt1.2) (pixelToLonlat ds pt2.1 pt2.2))

/-- What the function makes of the crests. An exception of the loop is caught. -/
def edgeWavelength (m : PyMath K) (pp : PyProj K C) (tif : PyM (Raster K C)) (mode : EdgeMode)
    (waveCrests : List (EdgeCrest K)) : EdgeWavelength K :=
  if waveCrests.length < 2 then ⟨none, [], none, waveCrests.length, waveCrests⟩
  else
    match (waveCrests.zip waveCrests.tail).mapM (crestDistance pp tif mode) with
    | .error _ => ⟨none, [], none, waveCrests.length, waveCrests⟩
    | .ok wavelengths =>
        if 0 < wavelengths.length then
          ⟨some (npMean wavelengths), wavelengths, some (npStd m wavelengths), waveCrests.length,
            waveCrests⟩
        else ⟨none, wavelengths, none, waveCrests.length, waveCrests⟩

/-- `calculate_wavelength_from_edges`. -/
def calculateWavelengthFromEdges (m : PyMath K) (cv : Cv2Regions K) (pp : PyProj K C)
    (tif : PyM (Raster K C)) (binMask : Img ℕ) (vObb obbCenter : K × K) (minArea : ℤ)
    (mode : EdgeMode) : EdgeWavelength K :=
  edgeWavelength m pp tif mode (extractWaveCrestsWithEdges cv binMask vObb obbCenter minArea)

end

end W2Net.Wavelength
