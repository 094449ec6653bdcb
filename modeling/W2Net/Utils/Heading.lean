import Mathlib.Data.List.Sort
import W2Net.Lib.Image
import W2Net.Lib.Python
import W2Net.Utils.Lbr.Obb

/-!
# `W2Net.Utils.Heading`: the heading along the long edge of a box

The model of `resolve_heading_by_midline_majority` and
`resolve_heading_by_first_last` of `utils/utils.py`, and of
`resolve_heading_by_largest_cc` of `demo.py`. Each of them takes the direction `u`
of the long edge from the corners of the box, and decides from the mask between
`u` and `-u`. The decision is a definition of its own (`…Along`), so that it can be
read for both directions. A heading is the compass angle with the vector.
-/

set_option autoImplicit false

namespace W2Net.Heading

open W2Net.Lbr (Quad quadEdge quadEdgeLength longIdx)

variable {K : Type} [Field K] [LinearOrder K] [FloorRing K]

/-- `compass_wrap`. -/
def compassWrap (deg : K) : K :=
  let d := pyMod deg 360
  let d := if d < 0 then d + 360 else d
  if |d| < 1 / 10 ^ 9 ∨ |d - 360| < 1 / 10 ^ 9 then 0 else d

/-- `vec_to_compass_deg`. -/
def vecToCompassDeg (m : PyMath K) (v : K × K) : K :=
  compassWrap (m.atan2 v.1 (-v.2) * (180 / m.pi))

/-- `_vec_to_compass_deg`. -/
def vecToCompassDeg' (m : PyMath K) (v : K × K) : K :=
  let d := pyMod (m.atan2 v.1 (-v.2) * (180 / m.pi) + 360) 360
  if |d| < 1 / 10 ^ 9 ∨ |d - 360| < 1 / 10 ^ 9 then 0 else d

/-- `_long_edge_unit_from_quad`. -/
def longEdgeUnitFromQuad (m : PyMath K) (quad : Quad K) : K × K :=
  m.unit (quadEdge quad (longIdx m quad))

/-- `(p - center) · u`. -/
def axisProj (center u p : K × K) : K := (p.1 - center.1) * u.1 + (p.2 - center.2) * u.2

/-! ### `resolve_heading_by_midline_majority` -/

/-- The widths and thresholds of `resolve_heading_by_midline_majority`. -/
structure MidlineArgs (K : Type) where
  corridorPx : Option K
  excludeRadiusPx : Option K
  minFgPx : ℤ
  tau : K

/-- `corridor_px`, by default from the shortest edge of the box. -/
def MidlineArgs.corridor (args : MidlineArgs K) (m : PyMath K) (quad : Quad K) : K :=
  let shortEdge := min (min (quadEdgeLength m quad 0) (quadEdgeLength m quad 1))
    (min (quadEdgeLength m quad 2) (quadEdgeLength m quad 3))
  args.corridorPx.getD ((max 6 (pyTrunc (2 / 5 * shortEdge)) : ℤ) : K)

/-- `exclude_radius_px`, by default from the width of the corridor. -/
def MidlineArgs.excludeRadius (args : MidlineArgs K) (corridorPx : K) : K :=
  args.excludeRadiusPx.getD ((max 4 (pyTrunc (3 / 5 * corridorPx)) : ℤ) : K)

/-- The foreground pixels of the corridor along `u`, without the neighbourhood
of the centre. -/
def corridorPixels (center u : K × K) (corridorPx excludeRadiusPx : K) (pts : List (K × K)) :
    List (K × K) :=
  pts.filter fun p =>
    decide (|axisProj center (u.2, -u.1) p| ≤ corridorPx) &&
      decide (excludeRadiusPx ^ 2
        ≤ (p.1 - center.1) * (p.1 - center.1) + (p.2 - center.2) * (p.2 - center.2))

/-- The decision between `u` and `-u`: from the side with more pixels to the
other one. -/
def midlineMajorityAlong (m : PyMath K) (args : MidlineArgs K) (corridorPx : K)
    (center : K × K) (pts : List (K × K)) (u : K × K) : Option (K × (K × K)) :=
  if (pts.length : ℤ) < args.minFgPx then none
  else
    let sel := corridorPixels center u corridorPx (args.excludeRadius corridorPx) pts
    if sel.isEmpty then none
    else
      let pos := sel.countP fun p => decide (0 ≤ axisProj center u p)
      let neg := sel.countP fun p => decide (axisProj center u p < 0)
      let total := max (pos + neg) 1
      let diff : K := |(pos : K) - neg| / (total : ℕ)
      if diff < args.tau then none
      else
        let v := if neg < pos then -u else u
        some (vecToCompassDeg' m v, v)

/-- `resolve_heading_by_midline_majority`. -/
def resolveHeadingByMidlineMajority (m : PyMath K) (binMask : Img ℕ) (obbCenter : K × K)
    (args : MidlineArgs K) (quad : Quad K) : Option (K × (K × K)) :=
  midlineMajorityAlong m args (args.corridor m quad) obbCenter
    (binMask.astypeUint8.wherePos.map fun p => ((p.1 : K), (p.2 : K)))
    (longEdgeUnitFromQuad m quad)

/-! ### `resolve_heading_by_first_last` -/

/-- An item of `side_pos` or `side_neg`. -/
structure SideItem (K : Type) where
  area : ℤ
  s : K

/-- `wake_side.sort(key=lambda x: x["abs_s"])`. -/
def sortByDistance (side : List (SideItem K)) : List (SideItem K) :=
  side.insertionSort fun a b => |a.s| ≤ |b.s|

/-- `sum(x["area"] for x in side)`. -/
def sideArea (side : List (SideItem K)) : ℤ := (side.map SideItem.area).sum

/-- The vector for the chosen side, `w` being the direction to that side. `None`
when the side is empty. -/
def nearToFar (side : List (SideItem K)) (w : K × K) : Option (K × K) :=
  match (sortByDistance side).head?, (sortByDistance side).getLast? with
  | some first, some last => some (if last.area ≤ first.area then w else -w)
  | _, _ => none

/-- The decision between `u` and `-u`. -/
def firstLastAlong (m : PyMath K) (center : K × K) (comps : List (ℤ × (K × K))) (u : K × K) :
    Option (K × (K × K)) :=
  let items := comps.map fun c => (⟨c.1, axisProj center u c.2⟩ : SideItem K)
  let sidePos := items.filter fun x => decide (0 ≤ x.s)
  let sideNeg := items.filter fun x => decide (x.s < 0)
  let v := if sideArea sideNeg ≤ sideArea sidePos then nearToFar sidePos u
    else nearToFar sideNeg (-u)
  v.map fun v => (vecToCompassDeg m v, v)

/-- The components with at least the minimum area: area and centroid. -/
def largeComponents (cc : Components K) (minArea : ℤ) : List (ℤ × (K × K)) :=
  (cc.foreground.filter fun i => decide (minArea ≤ cc.area i)).map fun i =>
    (cc.area i, cc.centroid i)

/-- `resolve_heading_by_first_last`. -/
def resolveHeadingByFirstLast (m : PyMath K) (cv : Cv2Regions K) (binMask : Img ℕ)
    (obbCenter : K × K) (minArea : ℤ) (quad : Quad K) : Option (K × (K × K)) :=
  let comps := largeComponents (cv.connectedComponentsWithStats binMask.astypeUint8) minArea
  if comps.isEmpty then none
  else firstLastAlong m obbCenter comps (longEdgeUnitFromQuad m quad)

/-! ### `resolve_heading_by_largest_cc` -/

/-- The loop for `max_id` and `max_area_val`: the first largest component. -/
def largestComponent (cc : Components K) (minArea : ℤ) : Option ℕ :=
  (cc.foreground.foldl (fun (best : Option ℕ × ℤ) i =>
    if minArea ≤ cc.area i ∧ best.2 < cc.area i then (some i, cc.area i) else best)
    (none, -1)).1

/-- The decision between `u` and `-u`. -/
def largestCcAlong (m : PyMath K) (center centroid : K × K) (wakeIsBehind : Bool) (u : K × K) :
    K × (K × K) :=
  let s := axisProj center u centroid
  let v :=
    if wakeIsBehind then (if s < 0 then u else -u)
    else (if 0 ≤ s then u else -u)
  (vecToCompassDeg m v, v)

/-- `resolve_heading_by_largest_cc` of `demo.py`. -/
def resolveHeadingByLargestCc (m : PyMath K) (cv : Cv2Regions K) (binMask : Img ℕ)
    (obbCenter : K × K) (minArea : ℤ) (wakeIsBehind : Bool) (quad : Quad K) :
    Option (K × (K × K)) :=
  let cc := cv.connectedComponentsWithStats binMask.astypeUint8
  (largestComponent cc minArea).map fun i =>
    largestCcAlong m obbCenter (cc.centroid i) wakeIsBehind (longEdgeUnitFromQuad m quad)

end W2Net.Heading
