import W2Net.Lib.FirstMax
import W2Net.Lib.Image
import W2Net.Lib.Python

/-!
# `W2Net.Utils.Lbr.Centerline`: the crest edges along the centre line

The model of `find_centerline_edge_point` and of
`extract_wave_crests_along_centerline` of `utils/lbr.py`. A region is a mask, and
its pixels are the points that `np.where` lists row by row. The index that the
search returns points into the list of the pixels with a positive projection,
and is used on the list of all pixels of the band too.
-/

set_option autoImplicit false

namespace W2Net.Lbr

variable {K : Type} [Field K] [LinearOrder K]

/-- `pts = np.column_stack([xs, ys])` of a region. -/
def regionPoints (region : Img ℕ) : List (K × K) :=
  region.wherePos.map fun p => ((p.1 : K), (p.2 : K))

/-- `proj`: the projection of a point on `v_wave`, relative to the centre. -/
def waveProj (vWave centerPt p : K × K) : K :=
  (p.1 - centerPt.1) * vWave.1 + (p.2 - centerPt.2) * vWave.2

/-- `dist`: the distance of a point to the centre line. -/
def waveDist (vWave centerPt p : K × K) : K :=
  |vWave.1 * (p.2 - centerPt.2) - vWave.2 * (p.1 - centerPt.1)|

/-- `pts_sel`: the points of the band, or all points when the band is empty. -/
def bandPoints (vWave centerPt : K × K) (bandPx : K) (pts : List (K × K)) : List (K × K) :=
  let band := pts.filter fun p => decide (waveDist vWave centerPt p ≤ bandPx)
  if band.isEmpty then pts else band

/-- `find_centerline_edge_point`: the edge point and its projection, `None` for
an empty region. -/
def findCenterlineEdgePoint (region : Img ℕ) (vWave centerPt : K × K) (bandPx : K) :
    PyM (Option ((K × K) × K)) := do
  let pts := regionPoints region
  if pts.isEmpty then .ok none
  else
    let ptsSel := bandPoints vWave centerPt bandPx pts
    let projSel := ptsSel.map (waveProj vWave centerPt)
    let ptsValid := ptsSel.filter fun p => decide (0 < waveProj vWave centerPt p)
    if ptsValid.isEmpty then
      let idx := npArgmax projSel
      let edgePt ← getOrIndexError ptsSel idx
      let proj ← getOrIndexError projSel idx
      .ok (some (edgePt, proj))
    else
      let idx := npArgmax (ptsValid.map (waveProj vWave centerPt))
      let edgePt ← getOrIndexError ptsValid idx
      let proj ← getOrIndexError projSel idx
      .ok (some (edgePt, proj))

/-- An entry of `wave_crests`. -/
structure WaveCrest (K : Type) where
  id : ℕ
  area : ℤ
  center : K × K
  edge : K × K
  projection : K

/-- One round of the loop over the components. -/
def waveCrestOf (cc : Components K) (vWave obbCenter : K × K) (minArea : ℤ) (bandPx : K)
    (i : ℕ) : PyM (Option (WaveCrest K)) := do
  if cc.area i < minArea then .ok none
  else
    match ← findCenterlineEdgePoint (cc.region i) vWave obbCenter bandPx with
    | none => .ok none
    | some (edge, proj) =>
        if proj ≤ 0 then .ok none
        else .ok (some ⟨i, cc.area i, cc.centroid i, edge, proj⟩)

/-- `extract_wave_crests_along_centerline`. -/
def extractWaveCrestsAlongCenterline (cv : Cv2Regions K) (binMask : Img ℕ)
    (vWave obbCenter : K × K) (minArea : ℤ) (bandPx : K) : PyM (List (WaveCrest K)) := do
  let cc := cv.connectedComponentsWithStats binMask.astypeUint8
  let crests ← cc.foreground.mapM (waveCrestOf cc vWave obbCenter minArea bandPx)
  .ok ((crests.filterMap id).mergeSort fun a b => decide (a.projection ≤ b.projection))

end W2Net.Lbr
