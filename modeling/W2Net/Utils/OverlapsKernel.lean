import W2Net.Utils.OverlapsCuda
import W2Net.Utils.RotateNms

/-!
# `W2Net.Utils.OverlapsKernel`: the matrix of overlaps on the device

The model of the rest of `utils/overlaps_cuda/rbbox_overlaps_kernel.cu`: `area`, `reorder_pts`,
`inter`, `devRotateIoU`, `overlaps_kernel` and `_overlaps`, and of `rbbx_overlaps` in
`utils/overlaps_cuda/rbbox_overlaps.pyx`.

The buffer `int_pts` of `inter` starts with any content. A launch is the list of its threads,
as in `W2Net.Utils.RotateNms`, and a thread stores one entry for each box of its column block.
The products of `int`s that address the arrays are natural numbers, which is exact for matrices
of less than `2 ^ 31` entries.
-/

set_option autoImplicit false

namespace W2Net.OverlapsCuda

open W2Net.RotateNms (Thread threadsPerBlock divUp)

section
variable {K : Type}

/-- The point `int_pts[2 * i]`, `int_pts[2 * i + 1]`. -/
def point (cells : ℕ → K) (i : ℕ) : K × K := (cells (2 * i), cells (2 * i + 1))

/-- The two assignments of a point. -/
def setPoint (cells : ℕ → K) (i : ℕ) (p : K × K) : ℕ → K :=
  Function.update (Function.update cells (2 * i) p.1) (2 * i + 1) p.2

end

/-! ### The order of the points -/

/-- `int_pts` and the keys `vs`. The key `none` is the `nan` of a point in the centre. -/
structure KeyedPts (K : Type) where
  cells : ℕ → K
  vs : ℕ → Option K

section
variable {K : Type} [LinearOrder K]

/-- `a > b` for keys. A comparison with `nan` is false. -/
def keyExceeds : Option K → Option K → Bool
  | some a, some b => decide (b < a)
  | _, _ => false

/-- The `while` loop from `j` down, with the `j` where it stops. -/
def shiftLoop (temp : Option K) : ℕ → KeyedPts K → KeyedPts K × ℕ
  | 0, s => (s, 0)
  | j + 1, s =>
      if keyExceeds (s.vs j) temp then
        shiftLoop temp j
          { cells := setPoint s.cells (j + 1) (point s.cells j)
            vs := Function.update s.vs (j + 1) (s.vs j) }
      else (s, j + 1)

/-- The body of the loop that sorts. -/
def sortStep (s : KeyedPts K) (i : ℕ) : KeyedPts K :=
  if keyExceeds (s.vs (i - 1)) (s.vs i) then
    let temp := s.vs i
    let t := point s.cells i
    let moved := shiftLoop temp i s
    { cells := setPoint moved.1.cells moved.2 t, vs := Function.update moved.1.vs moved.2 temp }
  else s

variable [Field K]

/-- `center`. -/
def center (cells : ℕ → K) (num : ℕ) : K × K :=
  let sum := (List.range num).foldl (fun c i => c + point cells i) (0, 0)
  (sum.1 / num, sum.2 / num)

/-- `vs[i]` of a point. -/
def sortKey (m : PyMath K) (center p : K × K) : Option K :=
  let v := p - center
  let d := m.sqrt (v.1 * v.1 + v.2 * v.2)
  if d = 0 then none
  else if v.2 / d < 0 then some (-2 - v.1 / d)
  else some (v.1 / d)

/-- `reorder_pts`. -/
def reorderPts (m : PyMath K) (intPts : ℕ → K) (num : ℕ) : ℕ → K :=
  if 0 < num then
    let vs := fun i => sortKey m (center intPts num) (point intPts i)
    ((List.range' 1 (num - 1)).foldl sortStep ⟨intPts, vs⟩).cells
  else intPts

/-- `area`: the triangles with the first point. -/
def area (intPts : ℕ → K) (num : ℕ) : K :=
  (List.range (num - 2)).foldl (fun area i =>
    area + |trangleArea (point intPts 0) (point intPts (i + 1)) (point intPts (i + 2))|) 0

/-- `inter`. The buffer has 16 cells: with more than eight points the source writes past it, and
this value is not its result. -/
def inter (m : PyMath K) (intPts : ℕ → K) (region1 region2 : RowXywha K) : K :=
  let s := interPts (convertRegion m region1) (convertRegion m region2) intPts
  area (reorderPts m s.cells s.num) s.num

/-- The five columns differ by less than `1e-5`. -/
def SameRegion (region1 region2 : RowXywha K) : Prop :=
  |region1.cx - region2.cx| < 1 / 100000 ∧ |region1.cy - region2.cy| < 1 / 100000 ∧
    |region1.w - region2.w| < 1 / 100000 ∧ |region1.h - region2.h| < 1 / 100000 ∧
    |region1.a - region2.a| < 1 / 100000

instance (region1 region2 : RowXywha K) : Decidable (SameRegion region1 region2) :=
  inferInstanceAs (Decidable (_ ∧ _))

/-- `devRotateIoU`. -/
def devRotateIoU (m : PyMath K) (intPts : ℕ → K) (region1 region2 : RowXywha K) : K :=
  if SameRegion region1 region2 then 1
  else
    let area1 := region1.w * region1.h
    let area2 := region2.w * region2.h
    let areaInter :=
      if region1.w < 1 / 10 ∨ region1.h < 1 / 10 ∨ region2.w < 1 / 10 ∨ region2.h < 1 / 10 then 0
      else inter m intPts region1 region2
    let result := areaInter / (area1 + area2 - areaInter + 1 / 10 ^ 6)
    if result < 0 then 0 else result

end

/-! ### The matrix -/

section
variable {K : Type} (iou : RowXywha K → RowXywha K → K)

/-- The threads of `overlaps_kernel<<<blocks, threads>>>`. -/
def overlapsLaunch (n k : ℕ) : List Thread :=
  (List.range (divUp n threadsPerBlock)).flatMap fun rowStart =>
    (List.range (divUp k threadsPerBlock)).flatMap fun colStart =>
      (List.range threadsPerBlock).map fun x => ⟨rowStart, colStart, x⟩

/-- `overlaps_kernel`: what a thread stores in `dev_overlaps`, with `devRotateIoU` as `iou`. -/
def overlapsKernel (n k : ℕ) (boxes queryBoxes : ℕ → RowXywha K) (thread : Thread) :
    List (ℕ × K) :=
  let rowSize := min (n - thread.rowStart * threadsPerBlock) threadsPerBlock
  let colSize := min (k - thread.colStart * threadsPerBlock) threadsPerBlock
  let blockBoxes := fun i => boxes (threadsPerBlock * thread.rowStart + i)
  let blockQueryBoxes := fun i => queryBoxes (threadsPerBlock * thread.colStart + i)
  if thread.x < rowSize then
    (List.range colSize).map fun i =>
      (thread.rowStart * threadsPerBlock * k + thread.colStart * threadsPerBlock + thread.x * k + i,
        iou (blockBoxes thread.x) (blockQueryBoxes i))
  else []

/-- `_overlaps`: the first `n * k` floats of the device go to `overlaps`. -/
def overlaps (n k : ℕ) (boxes queryBoxes : ℕ → RowXywha K) (schedule : List Thread)
    (overlapsDev : ℕ → K) (host : ℕ → K) : ℕ → K :=
  let stored := storeAll (schedule.flatMap (overlapsKernel iou n k boxes queryBoxes)) overlapsDev
  fun a => if a < n * k then stored a else host a

/-- `rbbx_overlaps`. The address of the first entry of an empty array raises `IndexError`. -/
def rbbxOverlaps [Zero K] (boxes queryBoxes : List (RowXywha K)) (schedule : List Thread)
    (overlapsDev : ℕ → K) : PyM (List (List K)) :=
  let n := boxes.length
  let k := queryBoxes.length
  if n = 0 ∨ k = 0 then .error .indexError
  else
    let row := fun (boxes : List (RowXywha K)) (i : ℕ) => boxes.getD i ⟨0, 0, 0, 0, 0⟩
    let host := overlaps iou n k (row boxes) (row queryBoxes) schedule overlapsDev fun _ => 0
    .ok ((List.range n).map fun i => (List.range k).map fun j => host (i * k + j))

end

end W2Net.OverlapsCuda
