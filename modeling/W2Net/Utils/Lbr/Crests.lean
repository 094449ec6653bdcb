import W2Net.Utils.GeoUtils
import W2Net.Utils.Lbr.Bresenham
import W2Net.Utils.Lbr.Obb

/-!
# `W2Net.Utils.Lbr.Crests`: the wave-gap scanners of `utils/lbr.py`

Four functions lay a digital line over a binary mask, collect the runs of
foreground samples, and measure the gaps between neighbouring runs:

* `calculateWavelengthAlongCenterline`: along `v_wave` through the box centre;
* `calculateGapAlongObbCenterline`: across the long edge, through the centre;
* `calculateGapAlongShortMidline`: along the extended midline of the short
  edges;
* `calcWaveGapsAlongShortMidline`: along the midline itself, with the gaps in
  steps.

All four clip every sample of the line to the image, each coordinate on its
own (`BinMask.clipPixel`), before they read the mask. The first three take the
distance of a gap from `pixelToLonlat` and `calculateGeoDistance`. The module
defines both names twice in the Python source; the later definitions are the
live ones.
-/

set_option autoImplicit false

namespace W2Net.Lbr

/-! ### The mask and its samples -/

/-- A binary mask of `H` rows and `W` columns. `val` is read inside the image
only, row first. -/
structure BinMask where
  H : ℕ
  W : ℕ
  H_pos : 0 < H
  W_pos : 0 < W
  val : ℕ → ℕ → ℕ

namespace BinMask

/-- The pixel is inside the image. -/
def Inside (m : BinMask) (p : Pixel) : Prop :=
  0 ≤ p.x ∧ p.x < m.W ∧ 0 ≤ p.y ∧ p.y < m.H

instance (m : BinMask) (p : Pixel) : Decidable (m.Inside p) :=
  inferInstanceAs (Decidable (_ ∧ _ ∧ _ ∧ _))

/-- `bin_mask[y, x] > 0`. -/
def fg (m : BinMask) (p : Pixel) : Bool := decide (0 < m.val p.y.toNat p.x.toNat)

/-- `xs = np.clip(xs, 0, W - 1)` and `ys = np.clip(ys, 0, H - 1)`. -/
def clipPixel (m : BinMask) (p : Pixel) : Pixel :=
  ⟨npClip p.x 0 (m.W - 1), npClip p.y 0 (m.H - 1)⟩

/-- `vals = (bin_mask[ys, xs] > 0)` after the clipping. -/
def vals (m : BinMask) (line : List Pixel) : List Bool :=
  line.map fun p => m.fg (m.clipPixel p)

end BinMask

/-! ### The run scan -/

/-- The inner loop: `while i + 1 < L and vals[i + 1] == 1: i += 1`. -/
def runEnd (vals : List Bool) : ℕ → ℕ → ℕ
  | 0, i => i
  | fuel + 1, i =>
      if i + 1 < vals.length ∧ vals.getD (i + 1) false = true then runEnd vals fuel (i + 1)
      else i

/-- The outer loop: `while i < L`. A run `(start, end)` is kept when `keep`
accepts it. -/
def scanFrom (vals : List Bool) (keep : ℕ → ℕ → Bool) : ℕ → ℕ → List (ℕ × ℕ)
  | 0, _ => []
  | fuel + 1, i =>
      if i < vals.length then
        if vals.getD i false = true then
          let e := runEnd vals vals.length i
          if keep i e then (i, e) :: scanFrom vals keep fuel (e + 1)
          else scanFrom vals keep fuel (e + 1)
        else scanFrom vals keep fuel (i + 1)
      else []

/-- The crest segments of a sample sequence, first to last. -/
def crestSegments (vals : List Bool) (keep : ℕ → ℕ → Bool) : List (ℕ × ℕ) :=
  scanFrom vals keep vals.length 0

/-- `(end - start + 1) >= min_len`. -/
def longEnough (minLen : ℤ) (s e : ℕ) : Bool := decide (minLen ≤ (e : ℤ) - s + 1)

/-- The index pairs `(idx_exit, idx_enter)` of neighbouring segments. The
guard is the source's `if idx_enter <= idx_exit: continue`. -/
def gapIndices : List (ℕ × ℕ) → List (ℕ × ℕ)
  | (_, exit) :: (enter, e) :: rest =>
      if enter ≤ exit then gapIndices ((enter, e) :: rest)
      else (exit, enter) :: gapIndices ((enter, e) :: rest)
  | _ => []

/-! ### Distances -/

section
variable {K C : Type} [Field K] [LinearOrder K] [FloorRing K]

/-- The live `pixel_to_lonlat`: `src.xy(row, col)`, taken as longitude and
latitude. -/
def pixelToLonlat (ds : Raster K C) (col row : K) : K × K := ds.xy row col

/-- The first `pixel_to_lonlat` of the module, which the live one shadows: the
raster's coordinates go through the transformer. -/
def pixelToLonlatShadowed (pp : PyProj K C) (ds : Raster K C) (col row : K) : PyM (K × K) :=
  match ds.crs with
  | none => .error .valueError
  | some crs => .ok (pp.toWgs84 crs (ds.transform.mul (col, row)))

/-- `calculate_geo_distance`. -/
def calculateGeoDistance (pp : PyProj K C) (a b : K × K) : K := |pp.geodInv a b|

/-- `haversine(lon1, lat1, lon2, lat2)`. -/
def haversine (m : PyMath K) (a b : K × K) : K :=
  let rad := fun x : K => x * (m.pi / 180)
  let dphi := rad (b.2 - a.2)
  let dlambda := rad (b.1 - a.1)
  let h := m.sin (dphi / 2) ^ 2
    + m.cos (rad a.2) * m.cos (rad b.2) * m.sin (dlambda / 2) ^ 2
  6371000 * (2 * m.atan2 (m.sqrt h) (m.sqrt (1 - h)))

/-- `np.mean`. -/
def npMean (xs : List K) : K := xs.sum / xs.length

/-- `np.std`. -/
def npStd (m : PyMath K) (xs : List K) : K :=
  m.sqrt (npMean (xs.map fun x => (x - npMean xs) ^ 2))

/-! ### The scanners -/

/-- The dictionary the crest-gap functions return. The wavelength scanner has
no `sample_xs` / `sample_ys`, and they are `None` when no line was drawn. -/
structure CrestGaps (K : Type) where
  gapMeanM : Option K
  gapStdM : Option K
  gapsM : List K
  nCrests : ℕ
  crestSegments : List (ℕ × ℕ)
  samples : Option (List Pixel)

/-- The result when the scan direction is the null vector. -/
def CrestGaps.empty (K : Type) : CrestGaps K := ⟨none, none, [], 0, [], none⟩

/-- The distance of one gap: the geodesic between the sampled pixels on its
two sides. -/
def gapDistance (pp : PyProj K C) (ds : Raster K C) (samples : List Pixel) (gap : ℕ × ℕ) : K :=
  let p1 := samples.getD gap.1 default
  let p2 := samples.getD gap.2 default
  calculateGeoDistance pp (pixelToLonlat ds p1.x p1.y) (pixelToLonlat ds p2.x p2.y)

/-- What the three crest-gap functions do with a scan line: clip it, read the
mask, collect the segments, and measure the gaps between neighbours. -/
def crestGapsOnLine (m : PyMath K) (pp : PyProj K C) (ds : Raster K C) (mask : BinMask)
    (line : List Pixel) (keep : ℕ → ℕ → Bool) : CrestGaps K :=
  let samples := line.map mask.clipPixel
  let segs := crestSegments (mask.vals line) keep
  if segs.length < 2 then ⟨none, none, [], segs.length, segs, some samples⟩
  else
    let gaps := (gapIndices segs).map (gapDistance pp ds samples)
    if gaps.length = 0 then ⟨none, none, [], segs.length, segs, some samples⟩
    else ⟨some (npMean gaps), some (npStd m gaps), gaps, segs.length, segs, some samples⟩

/-- `v / np.linalg.norm(v)`. -/
def unitVector (m : PyMath K) (v : K × K) : K × K :=
  (v.1 / m.hypot v.1 v.2, v.2 / m.hypot v.1 v.2)

/-- The scan line of `calculate_wavelength_along_centerline`: through the box
centre along the unit vector `v`, three quarters of the image diagonal to each
side. -/
def centerlineLine (m : PyMath K) (mask : BinMask) (v c : K × K) : List Pixel :=
  let halfLen := m.hypot (mask.H : K) (mask.W : K) * (3 / 4)
  bresenhamLine (c.1 - v.1 * halfLen, c.2 - v.2 * halfLen)
    (c.1 + v.1 * halfLen, c.2 + v.2 * halfLen)

/-- `calculate_wavelength_along_centerline`. -/
def calculateWavelengthAlongCenterline (m : PyMath K) (pp : PyProj K C) (ds : Raster K C)
    (mask : BinMask) (vWave obbCenter : K × K) (minArea : ℤ) : CrestGaps K :=
  if m.hypot vWave.1 vWave.2 < 1 / 10 ^ 6 then CrestGaps.empty K
  else
    crestGapsOnLine m pp ds mask (centerlineLine m mask (unitVector m vWave) obbCenter)
      (longEnough minArea)

/-- `v_scan`: the direction of the long edge, turned by 90 degrees, before it
is normalized. -/
def obbScanDirection (m : PyMath K) (quad : Quad K) : K × K :=
  let vObb := getObbDirectionVector m quad
  (-vObb.2, vObb.1)

/-- The scan line of `calculate_gap_along_obb_centerline`. -/
def obbCenterlineLine (mask : BinMask) (v c : K × K) : List Pixel :=
  let halfLen := (max mask.H mask.W : ℕ) * (4 / 5 : K)
  bresenhamLine (c.1 - v.1 * halfLen, c.2 - v.2 * halfLen)
    (c.1 + v.1 * halfLen, c.2 + v.2 * halfLen)

/-- `calculate_gap_along_obb_centerline`. Its `min_len_px` is not used: every
segment counts. -/
def calculateGapAlongObbCenterline (m : PyMath K) (pp : PyProj K C) (ds : Raster K C)
    (mask : BinMask) (quad : Quad K) (obbCenter : K × K) : CrestGaps K :=
  let vScan := obbScanDirection m quad
  if m.hypot vScan.1 vScan.2 < 1 / 10 ^ 6 then CrestGaps.empty K
  else
    crestGapsOnLine m pp ds mask (obbCenterlineLine mask (unitVector m vScan) obbCenter)
      fun _ _ => true

/-- The digital line between the short-edge midpoints, extended by
`extendRatio` of its length at both ends. -/
def shortMidlineLine (m : PyMath K) (quad : Quad K) (extendRatio : K) : List Pixel :=
  let ends := getShortEdgeMidlineEndpoints m quad extendRatio
  bresenhamLine ends.1 ends.2

/-- `calculate_gap_along_short_midline`. -/
def calculateGapAlongShortMidline (m : PyMath K) (pp : PyProj K C) (ds : Raster K C)
    (mask : BinMask) (quad : Quad K) (minLenPx : ℤ) : CrestGaps K :=
  crestGapsOnLine m pp ds mask (shortMidlineLine m quad (1 / 2)) (longEnough minLenPx)

/-- The dictionary of `calc_wave_gaps_along_short_midline`. -/
structure WaveGaps (K : Type) where
  gapMeanM : Option K
  gapDistsM : List K
  gapDistsUsed : List K
  gapSteps : List ℕ
  nStripes : ℕ
  stripes : List (ℕ × ℕ)
  samples : List Pixel
  lineLenPix : K
  lineLenM : Option K

/-- `gap_steps`: `max(0, start_next - end_k)` for neighbouring stripes, the
zero gaps left out. -/
def gapSteps : List (ℕ × ℕ) → List ℕ
  | (_, e) :: (s, e') :: rest =>
      if 0 < s - e then (s - e) :: gapSteps ((s, e') :: rest)
      else gapSteps ((s, e') :: rest)
  | _ => []

/-- The length of the scan line on the ground: in the raster's own coordinates
when its reference system is projected, else by `haversine`. -/
def lineLengthM (m : PyMath K) (pp : PyProj K C) (ds : Raster K C) (p q : K × K) : K :=
  let a := ds.transform.mul p
  let b := ds.transform.mul q
  if (ds.crs.map pp.isProjected).getD false then m.hypot (b.1 - a.1) (b.2 - a.2)
  else haversine m a b

/-- The gap distances that enter the mean: one minimum and one maximum are
dropped when there are three or more. -/
def trimmedGaps (gaps : List K) : List K :=
  if 3 ≤ gaps.length then ((gaps.mergeSort (· ≤ ·)).drop 1).dropLast else gaps

/-- `calc_wave_gaps_along_short_midline`. -/
def calcWaveGapsAlongShortMidline (m : PyMath K) (pp : PyProj K C) (ds : Raster K C)
    (mask : BinMask) (quad : Quad K) : WaveGaps K :=
  let ends := getShortEdgeMidlineEndpoints m quad 0
  let lineLenPix := m.hypot (ends.2.1 - ends.1.1) (ends.2.2 - ends.1.2)
  let line := shortMidlineLine m quad 0
  let samples := line.map mask.clipPixel
  let stripes := crestSegments (mask.vals line) fun _ _ => true
  let steps := gapSteps stripes
  if steps.length = 0 then
    ⟨none, [], [], steps, stripes.length, stripes, samples, lineLenPix, none⟩
  else
    let lineLenM := lineLengthM m pp ds ends.1 ends.2
    let mPerStep := lineLenM / (max 1 (line.length - 1) : ℕ)
    let gaps := steps.map fun (g : ℕ) => (g : K) * mPerStep
    let used := trimmedGaps gaps
    ⟨some (npMean used), gaps, used, steps, stripes.length, stripes, samples, lineLenPix,
      some lineLenM⟩

end

end W2Net.Lbr
