import Mathlib.Data.Fin.VecNotation
import W2Net.Lib.FirstMax
import W2Net.Lib.Python

/-!
# `W2Net.Utils.Lbr.Obb`: directions and midlines of an oriented box

The functions of `utils/lbr.py` that read a direction or a segment off the four
corners of an oriented bounding box: `get_obb_direction_vector` and
`get_short_edge_midline_endpoints`.
-/

set_option autoImplicit false

namespace W2Net.Lbr

variable {K : Type} [Field K] [LinearOrder K]

/-- The corners of an oriented box, shape `(4, 2)`. -/
abbrev Quad (K : Type) : Type := Fin 4 → K × K

/-- The edge from corner `i` to the next corner. -/
def quadEdge (q : Quad K) (i : Fin 4) : K × K :=
  ((q (i + 1)).1 - (q i).1, (q (i + 1)).2 - (q i).2)

/-- `np.linalg.norm(e) for e in edges`. -/
def quadEdgeLength (m : PyMath K) (q : Quad K) (i : Fin 4) : K :=
  m.hypot (quadEdge q i).1 (quadEdge q i).2

/-- `int(np.argmax(lens))`: the first longest edge. -/
def longIdx (m : PyMath K) (q : Quad K) : Fin 4 := argmax (quadEdgeLength m q)

/-- `get_obb_direction_vector`. -/
def getObbDirectionVector (m : PyMath K) (q : Quad K) : K × K :=
  let longEdge := quadEdge q (longIdx m q)
  let norm := m.hypot longEdge.1 longEdge.2 + 1 / 10 ^ 9
  (longEdge.1 / norm, longEdge.2 / norm)

/-- The midpoint of the edge from corner `i`. -/
def edgeMid (q : Quad K) (i : Fin 4) : K × K :=
  (1 / 2 * ((q i).1 + (q (i + 1)).1), 1 / 2 * ((q i).2 + (q (i + 1)).2))

/-- `sorted({0, 1, 2, 3} - {long_idx, long_opp})`: the two short edges, the
lower index first. -/
def shortIdxs (longIdx : Fin 4) : Fin 4 × Fin 4 :=
  if longIdx = 0 ∨ longIdx = 2 then (1, 3) else (0, 2)

/-- `get_short_edge_midline_endpoints`. -/
def getShortEdgeMidlineEndpoints (m : PyMath K) (q : Quad K) (extendRatio : K) :
    (K × K) × (K × K) :=
  let s := shortIdxs (longIdx m q)
  let mid0 := edgeMid q s.1
  let mid1 := edgeMid q s.2
  let v := (mid1.1 - mid0.1, mid1.2 - mid0.2)
  ((mid0.1 - extendRatio * v.1, mid0.2 - extendRatio * v.2),
   (mid1.1 + extendRatio * v.1, mid1.2 + extendRatio * v.2))

end W2Net.Lbr
