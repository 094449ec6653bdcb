import W2Net.Lib.Argsort
import W2Net.Lib.Cv2
import W2Net.Lib.Python

/-!
# `W2Net.Utils.Nms`: non-maximum suppression of rotated boxes

The model of `cpu_nms` in `utils/nms/cpu_nms.pyx` and of its wrapper `nms` in
`utils/nms_wrapper.py`. A detection is a row `(x1, y1, x2, y2, angle, score)`.

The two loops are `nmsLoop` and `suppressOverlaps`, with the array `suppressed`
as a function on indices. `cpuNms` runs them on the descending score order.
-/

set_option autoImplicit false

namespace W2Net.Nms

/-- A row of `dets`. -/
abbrev Det (K : Type) : Type := Fin 6 → K

section
variable {K : Type} [Field K]

/-- `((xx, yy), (ws, hs), tt)` of a row. -/
def Det.rect (d : Det K) : RotatedRect K where
  x := d 0 + (d 2 - d 0) * (1 / 2)
  y := d 1 + (d 3 - d 1) * (1 / 2)
  w := d 2 - d 0
  h := d 3 - d 1
  t := d 4

/-- `areas[i]`. -/
def Det.area (d : Det K) : K := d.rect.area

/-- `scores[i]`. -/
def Det.score (d : Det K) : K := d 5

variable [LinearOrder K] [FloorRing K] (cv : Cv2 K)

/-- `inter` of two rows. -/
def inter (d e : Det K) : K :=
  if cv.kind d.rect e.rect = 1 then (pyRound (cv.area d.rect e.rect) : K)
  else if cv.kind d.rect e.rect = 2 then min d.area e.area
  else 0

/-- `ovr` of two rows. The sum in the denominator is a `float32`, which is
never `-1e-6`, so the source does not divide by zero here. -/
def ovr (d e : Det K) : K :=
  inter cv d e / (d.area + e.area - inter cv d e + 1 / 10 ^ 6)

end

/-! ### The two loops -/

/-- The inner loop: every index of `rest` that overlaps `i` and is not yet
suppressed becomes suppressed. -/
def suppressOverlaps (overlaps : ℕ → ℕ → Bool) (i : ℕ) (rest : List ℕ)
    (suppressed : ℕ → Bool) : ℕ → Bool :=
  rest.foldl (fun sup j =>
    if sup j then sup
    else if overlaps i j then Function.update sup j true
    else sup) suppressed

/-- The outer loop over the indices of `order` that are left, with the array
`suppressed` and the list `keep`. -/
def nmsLoop (overlaps : ℕ → ℕ → Bool) : List ℕ → (ℕ → Bool) → List ℕ → List ℕ
  | [], _, keep => keep
  | i :: rest, suppressed, keep =>
      if suppressed i then nmsLoop overlaps rest suppressed keep
      else nmsLoop overlaps rest (suppressOverlaps overlaps i rest suppressed) (keep ++ [i])

section
variable {K : Type} [Field K] [LinearOrder K]

/-- `scores.argsort()[::-1]`. -/
def scoreOrder (argsort : Argsort K) (dets : List (Det K)) : List ℕ :=
  (argsort.order (dets.map Det.score)).reverse

/-- `dets[i]`. -/
def row (dets : List (Det K)) (i : ℕ) : Det K := dets.getD i 0

variable [FloorRing K]

/-- `ovr >= thresh` for the rows `i` and `j`. -/
def overlaps (cv : Cv2 K) (dets : List (Det K)) (thresh : K) (i j : ℕ) : Bool :=
  decide (thresh ≤ ovr cv (row dets i) (row dets j))

/-- `cpu_nms`: the indices of the kept rows. -/
def cpuNms (argsort : Argsort K) (cv : Cv2 K) (dets : List (Det K)) (thresh : K) : List ℕ :=
  nmsLoop (overlaps cv dets thresh) (scoreOrder argsort dets) (fun _ => false) []

/-- `nms`: an array with no row gives the empty list, and only six columns are
implemented. -/
def nms (argsort : Argsort K) (cv : Cv2 K) {cols : ℕ} (dets : List (Fin cols → K))
    (thresh : K) : PyM (List ℕ) :=
  if dets.length = 0 then .ok []
  else if cols = 5 then .error .notImplementedError
  else if h : cols = 6 then .ok (cpuNms argsort cv (dets.map fun d => d ∘ Fin.cast h.symm) thresh)
  else .error .notImplementedError

end

end W2Net.Nms
