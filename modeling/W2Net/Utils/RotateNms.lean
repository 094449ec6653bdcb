import W2Net.Lib.BitWords
import W2Net.Utils.Nms

/-!
# `W2Net.Utils.RotateNms`: non-maximum suppression on the device

The model of `rotate_nms_kernel` and `_rotate_nms` in
`utils/overlaps_cuda/rotate_polygon_nms_kernel.cu`, and of `rotate_gpu_nms` in
`utils/overlaps_cuda/rotate_polygon_nms.pyx`. A row of `dets` has the six columns
that the kernel reads. The overlap of two boxes, `devRotateIoU`, is a parameter.

A launch is the list of its threads. Each thread stores one word of `dev_mask`,
or none behind the last row; the threads run in any order, on memory with any
content. The products of `int`s that address `dev_mask` are natural numbers, as
are its sizes, which is exact as long as `n * divUp n 64 < 2 ^ 31` for `n` boxes.
-/

set_option autoImplicit false

namespace W2Net.RotateNms

open W2Net.Nms (Det row scoreOrder)

/-- `threadsPerBlock`. -/
def threadsPerBlock : ℕ := 64

/-- `DIVUP(m, n)`. -/
def divUp (m n : ℕ) : ℕ := m / n + (if 0 < m % n then 1 else 0)

/-! ### The kernel -/

/-- A thread of the launch, by `blockIdx.y`, `blockIdx.x` and `threadIdx.x`. -/
structure Thread where
  rowStart : ℕ
  colStart : ℕ
  x : ℕ

/-- The threads of `rotate_nms_kernel<<<blocks, threads>>>`. -/
def launch (nBoxes : ℕ) : List Thread :=
  (List.range (divUp nBoxes threadsPerBlock)).flatMap fun rowStart =>
    (List.range (divUp nBoxes threadsPerBlock)).flatMap fun colStart =>
      (List.range threadsPerBlock).map fun x => ⟨rowStart, colStart, x⟩

section
variable {K : Type} [LinearOrder K] (devRotateIoU : Det K → Det K → K)

/-- `t` after the loop from `start` to `col_size`. -/
def suppressedBits (thresh : K) (curBox : Det K) (blockBoxes : ℕ → Det K) (start colSize : ℕ) :
    BitVec 64 :=
  (List.range' start (colSize - start)).foldl (fun t i =>
    if thresh < devRotateIoU curBox (blockBoxes i) then t ||| (1#64 <<< i) else t) 0#64

/-- `rotate_nms_kernel`: the address and the word that a thread stores in `dev_mask`. -/
def rotateNmsKernel (nBoxes : ℕ) (thresh : K) (devBoxes : ℕ → Det K) (thread : Thread) :
    Option (ℕ × BitVec 64) :=
  let rowSize := min (nBoxes - thread.rowStart * threadsPerBlock) threadsPerBlock
  let colSize := min (nBoxes - thread.colStart * threadsPerBlock) threadsPerBlock
  let blockBoxes := fun i => devBoxes (threadsPerBlock * thread.colStart + i)
  if thread.x < rowSize then
    let curBoxIdx := threadsPerBlock * thread.rowStart + thread.x
    let start := if thread.rowStart = thread.colStart then thread.x + 1 else 0
    let t := suppressedBits devRotateIoU thresh (devBoxes curBoxIdx) blockBoxes start colSize
    let colBlocks := divUp nBoxes threadsPerBlock
    some (curBoxIdx * colBlocks + thread.colStart, t)
  else none

/-- `dev_mask` after the threads ran in the given order. -/
def devMask (nBoxes : ℕ) (thresh : K) (devBoxes : ℕ → Det K) (schedule : List Thread)
    (memory : ℕ → BitVec 64) : ℕ → BitVec 64 :=
  storeAll (schedule.filterMap (rotateNmsKernel devRotateIoU nBoxes thresh devBoxes)) memory

end

/-! ### The host -/

/-- The variables of the loop over the boxes. `keep` is `keep_out` up to `num_to_keep`. -/
structure RemvLoop where
  remv : ℕ → BitVec 64
  keep : List ℕ

/-- The body of the loop. -/
def remvStep (maskHost : ℕ → BitVec 64) (colBlocks : ℕ) (s : RemvLoop) (i : ℕ) : RemvLoop :=
  let nblock := i / threadsPerBlock
  let inblock := i % threadsPerBlock
  if s.remv nblock &&& (1#64 <<< inblock) = 0#64 then
    { remv := (List.range' nblock (colBlocks - nblock)).foldl (fun remv j =>
        Function.update remv j (remv j ||| maskHost (i * colBlocks + j))) s.remv
      keep := s.keep ++ [i] }
  else s

/-- The loop over the boxes. -/
def remvLoop (maskHost : ℕ → BitVec 64) (boxesNum : ℕ) : RemvLoop :=
  (List.range boxesNum).foldl (remvStep maskHost (divUp boxesNum threadsPerBlock))
    ⟨fun _ => 0#64, []⟩

section
variable {K : Type} [LinearOrder K] (devRotateIoU : Det K → Det K → K)

/-- `_rotate_nms`: the first `num_out` entries of `keep_out`. -/
def rotateNms (boxesHost : ℕ → Det K) (boxesNum : ℕ) (thresh : K) (schedule : List Thread)
    (memory : ℕ → BitVec 64) : List ℕ :=
  (remvLoop (devMask devRotateIoU boxesNum thresh boxesHost schedule memory) boxesNum).keep

/-- `rotate_gpu_nms`. The address `&keep[0]` of an empty array raises `IndexError`. -/
def rotateGpuNms [Field K] (argsort : Argsort K) (dets : List (Det K)) (thresh : K)
    (schedule : List Thread) (memory : ℕ → BitVec 64) : PyM (List ℕ) :=
  if dets.length = 0 then .error .indexError
  else
    let order := scoreOrder argsort dets
    let sortedDets := order.map (row dets)
    let keep := rotateNms devRotateIoU (row sortedDets) dets.length thresh schedule memory
    .ok (keep.map fun i => order.getD i 0)

end

end W2Net.RotateNms
