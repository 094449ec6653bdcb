import W2Net.Lib.RowMajor
import W2Net.Proofs.Utils.Nms
import W2Net.Utils.RotateNms

/-!
# `W2Net.Proofs.Utils.RotateNms`: the words of the device give greedy selection

`rotate_nms_kernel` stores the word `c` of the row `i` at `i * col_blocks + c`, for every
row and every block of 64 columns. `devMask_apply` says what the memory holds after all
threads ran, in any order. For a box `j` behind `i` the bit of `j` in the row of `i` says
whether `i` suppresses `j` (`maskWord_getLsbD`): the block of `j` is the block of `i`, where
the kernel starts behind `i`, or a later one, where it starts at the first column, and the
last block ends at the last box.

The loop over the boxes joins the rows of the kept boxes to `remv`, from the block of the kept
box on. Its invariant `RemvInv` is that the bit of each box that is still to come says whether
a kept box suppresses it. So the loop is the greedy selection (`rotateNms_eq_greedyFilter`).
-/

set_option autoImplicit false

namespace W2Net.Proofs.RotateNms

open W2Net.Nms (Det row scoreOrder)
open W2Net.RotateNms

/-! ### The grid -/

theorem lt_divUp_iff {n c : ℕ} : c < divUp n threadsPerBlock ↔ c * threadsPerBlock < n := by
  unfold divUp threadsPerBlock
  split
  · omega
  · omega

/-- The block of a box is a block of the grid. -/
theorem block_lt_divUp {n j : ℕ} (hj : j < n) : j / threadsPerBlock < divUp n threadsPerBlock := by
  rw [lt_divUp_iff]
  exact Nat.lt_of_le_of_lt (Nat.div_mul_le_self j threadsPerBlock) hj

theorem mem_launch {n : ℕ} {th : Thread} :
    th ∈ launch n ↔ th.rowStart < divUp n threadsPerBlock ∧ th.colStart < divUp n threadsPerBlock ∧
      th.x < threadsPerBlock := by
  simp only [launch, List.mem_flatMap, List.mem_map, List.mem_range]
  constructor
  · rintro ⟨r, hr, c, hc, x, hx, rfl⟩
    exact ⟨hr, hc, hx⟩
  · rintro ⟨hr, hc, hx⟩
    exact ⟨th.rowStart, hr, th.colStart, hc, th.x, hx, rfl⟩

section
variable {K : Type} [LinearOrder K] (devRotateIoU : Det K → Det K → K) (n : ℕ) (thresh : K)
  (boxes : ℕ → Det K)

/-- The box `i` suppresses the box `j`. -/
def suppresses (i j : ℕ) : Bool := decide (thresh < devRotateIoU (boxes i) (boxes j))

/-! ### The words of the mask -/

/-- The word of the row `i` for the block `c`. -/
def maskWord (i c : ℕ) : BitVec 64 :=
  suppressedBits devRotateIoU thresh (boxes i) (fun k => boxes (threadsPerBlock * c + k))
    (if i / threadsPerBlock = c then i % threadsPerBlock + 1 else 0)
    (min (n - c * threadsPerBlock) threadsPerBlock)

/-- A thread stores the word of its row and its block, if the row is a box. -/
theorem rotateNmsKernel_eq_some_iff {th : Thread} {a : ℕ} {v : BitVec 64}
    (hx : th.x < threadsPerBlock) :
    rotateNmsKernel devRotateIoU n thresh boxes th = some (a, v) ↔
      threadsPerBlock * th.rowStart + th.x < n ∧
      a = (threadsPerBlock * th.rowStart + th.x) * divUp n threadsPerBlock + th.colStart ∧
      v = maskWord devRotateIoU n thresh boxes (threadsPerBlock * th.rowStart + th.x)
        th.colStart := by
  have hrow : th.x < min (n - th.rowStart * threadsPerBlock) threadsPerBlock ↔
      threadsPerBlock * th.rowStart + th.x < n := by
    rw [Nat.mul_comm]
    omega
  -- The number of the row gives back the block and the thread.
  have hblock : (threadsPerBlock * th.rowStart + th.x) / threadsPerBlock = th.rowStart := by
    rw [Nat.mul_comm, mul_add_div_of_lt _ hx]
  have hthread : (threadsPerBlock * th.rowStart + th.x) % threadsPerBlock = th.x := by
    rw [Nat.mul_comm, mul_add_mod_of_lt _ hx]
  simp only [rotateNmsKernel, maskWord, hblock, hthread, hrow]
  split
  · rename_i hlt
    rw [Option.some.injEq, Prod.mk.injEq]
    constructor
    · rintro ⟨rfl, rfl⟩
      exact ⟨hlt, rfl, rfl⟩
    · rintro ⟨-, rfl, rfl⟩
      exact ⟨rfl, rfl⟩
  · rename_i hge
    exact iff_of_false (fun h => by cases h) fun h => hge h.1

/-- After all threads ran, whatever their order and whatever the memory held before, the mask has
the words of all boxes. -/
theorem devMask_apply {schedule : List Thread} (hschedule : schedule.Perm (launch n))
    (memory : ℕ → BitVec 64) {i c : ℕ} (hi : i < n) (hc : c < divUp n threadsPerBlock) :
    devMask devRotateIoU n thresh boxes schedule memory (i * divUp n threadsPerBlock + c) =
      maskWord devRotateIoU n thresh boxes i c := by
  have hx : i % threadsPerBlock < threadsPerBlock := Nat.mod_lt _ (by decide)
  have hi' : threadsPerBlock * (i / threadsPerBlock) + i % threadsPerBlock = i :=
    Nat.div_add_mod i threadsPerBlock
  apply storeAll_of_agree
  · -- The thread of the row `i` in the block `c`.
    rw [List.mem_filterMap]
    refine ⟨⟨i / threadsPerBlock, c, i % threadsPerBlock⟩, ?_, ?_⟩
    · rw [hschedule.mem_iff, mem_launch]
      exact ⟨block_lt_divUp hi, hc, hx⟩
    · rw [rotateNmsKernel_eq_some_iff devRotateIoU n thresh boxes hx]
      simp only [hi']
      exact ⟨hi, trivial, trivial⟩
  · intro v hv
    obtain ⟨th, hth, hstore⟩ := List.mem_filterMap.mp hv
    rw [hschedule.mem_iff, mem_launch] at hth
    obtain ⟨-, haddr, rfl⟩ :=
      (rotateNmsKernel_eq_some_iff devRotateIoU n thresh boxes hth.2.2).mp hstore
    obtain ⟨hrow, hcol⟩ := mul_add_inj hc hth.2.1 haddr
    rw [← hrow, ← hcol]

/-- For a box behind `i`, the bit in the row of `i` says whether `i` suppresses it. -/
theorem maskWord_getLsbD {i j : ℕ} (hij : i < j) (hj : j < n) :
    (maskWord devRotateIoU n thresh boxes i (j / threadsPerBlock)).getLsbD (j % threadsPerBlock) =
      suppresses devRotateIoU thresh boxes i j := by
  have hbit : j % threadsPerBlock < 64 := Nat.mod_lt _ (by decide)
  have hj' : threadsPerBlock * (j / threadsPerBlock) + j % threadsPerBlock = j :=
    Nat.div_add_mod j threadsPerBlock
  -- The loop of the thread comes to the column of `j`.
  have hmem : ∀ start, start = (if i / threadsPerBlock = j / threadsPerBlock
        then i % threadsPerBlock + 1 else 0) →
      j % threadsPerBlock ∈ List.range' start
        (min (n - j / threadsPerBlock * threadsPerBlock) threadsPerBlock - start) := by
    intro start hstart
    rw [List.mem_range'_1]
    unfold threadsPerBlock at *
    split at hstart
    · omega
    · omega
  rw [maskWord, suppressedBits, getLsbD_foldl_setBit _ _ _ hbit, BitVec.getLsbD_zero,
    Bool.false_or, hj', suppresses]
  exact decide_eq_decide.mpr (and_iff_right (hmem _ rfl))

/-! ### The loop over the boxes -/

/-- Before the box `k`, `keep` is the selection of the boxes in front of it, and the bit of each
box from `k` on says whether a kept box suppresses it. -/
structure RemvInv (k : ℕ) (s : RemvLoop) : Prop where
  keep : s.keep = greedyFilter (suppresses devRotateIoU thresh boxes) (List.range k)
  bits : ∀ j, k ≤ j → j < n →
    wordBit s.remv j = s.keep.any (suppresses devRotateIoU thresh boxes · j)

variable {n} in
/-- A step of the loop is a step of the selection. -/
theorem RemvInv.step {mask : ℕ → BitVec 64}
    (hmask : ∀ i c, i < n → c < divUp n threadsPerBlock →
      mask (i * divUp n threadsPerBlock + c) = maskWord devRotateIoU n thresh boxes i c)
    {k : ℕ} (hk : k < n) {s : RemvLoop} (h : RemvInv devRotateIoU n thresh boxes k s) :
    RemvInv devRotateIoU n thresh boxes (k + 1)
      (remvStep mask (divUp n threadsPerBlock) s k) := by
  have hin : k % threadsPerBlock < 64 := Nat.mod_lt _ (by decide)
  have htest : s.remv (k / threadsPerBlock) &&& (1#64 <<< (k % threadsPerBlock)) = 0#64 ↔
      s.keep.any (suppresses devRotateIoU thresh boxes · k) = false := by
    rw [and_bit_eq_zero_iff _ hin, ← h.bits k (Nat.le_refl k) hk]
    rfl
  have hgreedy : greedyFilter (suppresses devRotateIoU thresh boxes) (List.range (k + 1)) =
      greedyStep (suppresses devRotateIoU thresh boxes) s.keep k := by
    rw [List.range_succ, greedyFilter_concat, h.keep]
  simp only [remvStep]
  split
  · -- The box is kept, and its row joins `remv`.
    rename_i hzero
    have hfree := htest.mp hzero
    refine ⟨?_, fun j hj hjn => ?_⟩
    · rw [hgreedy, greedyStep, hfree]
      rfl
    · have hcol : j / threadsPerBlock < divUp n threadsPerBlock := block_lt_divUp hjn
      have hrow : wordBit (fun c => mask (k * divUp n threadsPerBlock + c)) j =
          suppresses devRotateIoU thresh boxes k j := by
        show (mask (k * divUp n threadsPerBlock + j / threadsPerBlock)).getLsbD
          (j % threadsPerBlock) = suppresses devRotateIoU thresh boxes k j
        rw [hmask k _ hk hcol, maskWord_getLsbD devRotateIoU n thresh boxes hj hjn]
      have hor := wordBit_foldl_or (fun c => mask (k * divUp n threadsPerBlock + c)) s.remv
        (Nat.div_le_div_right (c := threadsPerBlock) (Nat.le_of_succ_le hj)) hcol
      rw [hor, hrow, h.bits j (Nat.le_of_succ_le hj) hjn, List.any_append]
      simp
  · -- The box is suppressed by a kept one.
    rename_i hset
    have hany : s.keep.any (suppresses devRotateIoU thresh boxes · k) = true := by
      rw [htest, Bool.not_eq_false] at hset
      exact hset
    refine ⟨?_, fun j hj hjn => h.bits j (Nat.le_of_succ_le hj) hjn⟩
    rw [hgreedy, greedyStep, if_pos hany]

variable {n} in
/-- Before each box. Induction on the boxes in front of it. -/
theorem remvInv_range {mask : ℕ → BitVec 64}
    (hmask : ∀ i c, i < n → c < divUp n threadsPerBlock →
      mask (i * divUp n threadsPerBlock + c) = maskWord devRotateIoU n thresh boxes i c)
    {k : ℕ} (hk : k ≤ n) :
    RemvInv devRotateIoU n thresh boxes k
      ((List.range k).foldl (remvStep mask (divUp n threadsPerBlock)) ⟨fun _ => 0#64, []⟩) := by
  induction k with
  | zero => exact ⟨rfl, fun j _ _ => BitVec.getLsbD_zero⟩
  | succ k ih =>
      rw [List.range_succ, List.foldl_append]
      exact (ih (Nat.le_of_succ_le hk)).step devRotateIoU thresh boxes hmask hk

/-- `_rotate_nms` is the greedy selection of the boxes, first to last. -/
theorem rotateNms_eq_greedyFilter {schedule : List Thread} (hschedule : schedule.Perm (launch n))
    (memory : ℕ → BitVec 64) :
    rotateNms devRotateIoU boxes n thresh schedule memory =
      greedyFilter (suppresses devRotateIoU thresh boxes) (List.range n) :=
  (remvInv_range devRotateIoU thresh boxes (fun _ _ hi hc =>
    devMask_apply devRotateIoU n thresh boxes hschedule memory hi hc) (Nat.le_refl n)).keep

end

/-! ### The returned indices -/

section
variable {K : Type} [Field K] [LinearOrder K] (devRotateIoU : Det K → Det K → K)
  (argsort : Argsort K) (dets : List (Det K)) (thresh : K)

/-- The box `i` of `sorted_dets`. -/
def sortedBox (i : ℕ) : Det K := row ((scoreOrder argsort dets).map (row dets)) i

/-- The greedy loop over the sorted boxes: a box is dropped when an earlier kept box overlaps it by
more than the threshold. -/
def greedyKeep : List ℕ :=
  greedyFilter (fun i j => decide (thresh < devRotateIoU (sortedBox argsort dets i)
    (sortedBox argsort dets j))) (List.range dets.length)

/-- The sorted boxes are the detections along the order. -/
theorem sortedBox_eq {i : ℕ} (hi : i < dets.length) :
    sortedBox argsort dets i = row dets ((scoreOrder argsort dets).getD i 0) := by
  have hlen : i < (scoreOrder argsort dets).length := by rwa [Nms.length_scoreOrder]
  rw [sortedBox, Nms.row_eq_getElem (by rwa [List.length_map]), List.getElem_map,
    List.getD_eq_getElem?_getD, List.getElem?_eq_getElem hlen, Option.getD_some]

/-- As indices of the input, the kept boxes are the greedy selection along the order. -/
theorem map_greedyKeep :
    (greedyKeep devRotateIoU argsort dets thresh).map (fun i => (scoreOrder argsort dets).getD i 0) =
      greedyFilter (suppresses devRotateIoU thresh (row dets)) (scoreOrder argsort dets) := by
  have horder : (List.range dets.length).map (fun i => (scoreOrder argsort dets).getD i 0) =
      scoreOrder argsort dets := by
    apply List.ext_getElem
    · rw [List.length_map, List.length_range, Nms.length_scoreOrder]
    · intro i h₁ h₂
      rw [List.getElem_map, List.getElem_range, List.getD_eq_getElem?_getD,
        List.getElem?_eq_getElem h₂, Option.getD_some]
  -- Two sorted boxes overlap as the detections at their places of the order.
  have hsame : greedyKeep devRotateIoU argsort dets thresh =
      greedyFilter (fun i j => suppresses devRotateIoU thresh (row dets)
        ((scoreOrder argsort dets).getD i 0) ((scoreOrder argsort dets).getD j 0))
        (List.range dets.length) := by
    apply greedyFilter_congr
    intro i hi j hj
    rw [sortedBox_eq argsort dets (List.mem_range.mp hi),
      sortedBox_eq argsort dets (List.mem_range.mp hj)]
    rfl
  rw [hsame, map_greedyFilter, horder]

/-- What a selection of detections along the score order returns. -/
structure ScoreSelection (out : List ℕ) : Prop where
  inRange : ∀ a ∈ out, a < dets.length
  nodup : out.Nodup
  scores : out.Pairwise fun a b => (row dets b).score ≤ (row dets a).score

theorem scoreSelection_greedyFilter (r : ℕ → ℕ → Bool) :
    ScoreSelection dets (greedyFilter r (scoreOrder argsort dets)) where
  inRange a ha := (Nms.mem_scoreOrder argsort dets a).mp ((greedyFilter_sublist r _).subset ha)
  nodup := (Nms.nodup_scoreOrder argsort dets).sublist (greedyFilter_sublist r _)
  scores := (Nms.scoreOrder_pairwise argsort dets).sublist (greedyFilter_sublist r _)

/-- For every number of boxes, overlap function and threshold, whatever order the threads ran in:
the words of the device and the loop over `remv` give the greedy loop over the sorted boxes, and
`rotate_gpu_nms` returns its boxes as indices of the input, with scores that do not increase. -/
theorem rotateGpuNms_greedy (hne : dets ≠ []) {schedule : List Thread}
    (hschedule : schedule.Perm (launch dets.length)) (memory : ℕ → BitVec 64) :
    rotateNms devRotateIoU (sortedBox argsort dets) dets.length thresh schedule memory =
      greedyKeep devRotateIoU argsort dets thresh ∧
    (∀ j < dets.length, j ∈ greedyKeep devRotateIoU argsort dets thresh ↔
      ∀ i ∈ greedyKeep devRotateIoU argsort dets thresh, i < j →
        ¬thresh < devRotateIoU (sortedBox argsort dets i) (sortedBox argsort dets j)) ∧
    ∃ out, rotateGpuNms devRotateIoU argsort dets thresh schedule memory = .ok out ∧
      out = (greedyKeep devRotateIoU argsort dets thresh).map
        (fun i => (scoreOrder argsort dets).getD i 0) ∧
      ScoreSelection dets out := by
  have hkeep : rotateNms devRotateIoU (sortedBox argsort dets) dets.length thresh schedule memory =
      greedyKeep devRotateIoU argsort dets thresh :=
    rotateNms_eq_greedyFilter devRotateIoU dets.length thresh (sortedBox argsort dets) hschedule
      memory
  refine ⟨hkeep, fun j hj => ?_, _, ?_, rfl, ?_⟩
  · unfold greedyKeep
    rw [mem_greedyFilter_range hj]
    simp only [decide_eq_false_iff_not]
  · have hlen : dets.length ≠ 0 := fun hzero => hne (List.length_eq_zero_iff.mp hzero)
    -- `&keep[0]` is the address of an entry.
    rw [← hkeep, rotateGpuNms, if_neg hlen]
    rfl
  · rw [map_greedyKeep]
    exact scoreSelection_greedyFilter argsort dets _

end

example : rotateGpuNms (fun _ _ => 1 / 2) .stable Nms.threeBoxes (3 / 10)
    (launch Nms.threeBoxes.length) (fun _ => 5#64) = .ok [0] := by decide +kernel

/-- Three boxes, and an overlap of one half between any two. With this threshold only the box with
the greatest score stays, whatever the memory holds. -/
theorem rotateGpuNms_greedy_threeBoxes :
    ∃ out, rotateGpuNms (fun _ _ => 1 / 2) .stable Nms.threeBoxes (3 / 10)
        (launch Nms.threeBoxes.length).reverse (fun _ => 5#64) = .ok out ∧
      out = (greedyKeep (fun _ _ => 1 / 2) .stable Nms.threeBoxes (3 / 10)).map
        (fun i => (scoreOrder .stable Nms.threeBoxes).getD i 0) ∧
      ScoreSelection Nms.threeBoxes out :=
  (rotateGpuNms_greedy (fun _ _ => 1 / 2) .stable Nms.threeBoxes (3 / 10) (by decide)
    (List.reverse_perm _) (fun _ => 5#64)).2.2

end W2Net.Proofs.RotateNms
