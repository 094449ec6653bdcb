import W2Net.Lib.RowMajor
import W2Net.Proofs.Utils.RotateNms
import W2Net.Utils.OverlapsKernel

/-!
# `W2Net.Proofs.Utils.OverlapsKernel`: the threads store the matrix of overlaps

A thread of `overlaps_kernel` has one box and the query boxes of one column block.
`mem_overlapsKernel` says what it stores: the entry of the box `r` and the query box `c` goes to
`r * K + c`. Every entry has one thread, so the threads may run in any order, on memory with any
content (`rbbxOverlaps_eq`).
-/

set_option autoImplicit false

namespace W2Net.Proofs.OverlapsKernel

open W2Net.OverlapsCuda
open W2Net.RotateNms (Thread threadsPerBlock divUp)
open W2Net.Proofs.RotateNms (block_lt_divUp)

theorem mem_overlapsLaunch {n k : ℕ} {th : Thread} :
    th ∈ overlapsLaunch n k ↔ th.rowStart < divUp n threadsPerBlock ∧
      th.colStart < divUp k threadsPerBlock ∧ th.x < threadsPerBlock := by
  simp only [overlapsLaunch, List.mem_flatMap, List.mem_map, List.mem_range]
  constructor
  · rintro ⟨r, hr, c, hc, x, hx, rfl⟩
    exact ⟨hr, hc, hx⟩
  · rintro ⟨hr, hc, hx⟩
    exact ⟨th.rowStart, hr, th.colStart, hc, th.x, hx, rfl⟩

section
variable {K : Type} (iou : RowXywha K → RowXywha K → K) {n k : ℕ} {boxes queryBoxes : ℕ → RowXywha K}

/-- The stores of a thread. -/
theorem mem_overlapsKernel {th : Thread} {a : ℕ} {v : K} (hx : th.x < threadsPerBlock) :
    (a, v) ∈ overlapsKernel iou n k boxes queryBoxes th ↔
      ∃ r c, r < n ∧ c < k ∧ r / threadsPerBlock = th.rowStart ∧ r % threadsPerBlock = th.x ∧
        c / threadsPerBlock = th.colStart ∧ a = r * k + c ∧ v = iou (boxes r) (queryBoxes c) := by
  have haddress : ∀ i, th.rowStart * threadsPerBlock * k + th.colStart * threadsPerBlock
      + th.x * k + i
        = (threadsPerBlock * th.rowStart + th.x) * k + (threadsPerBlock * th.colStart + i) := by
    intro i
    ring
  simp only [overlapsKernel, haddress]
  constructor
  · intro hmem
    split at hmem
    · rename_i hrow
      obtain ⟨i, hi, heq⟩ := List.mem_map.mp hmem
      rw [List.mem_range] at hi
      obtain ⟨rfl, rfl⟩ := Prod.mk.inj heq
      refine ⟨_, _, ?_, ?_, ?_, ?_, ?_, rfl, rfl⟩
      all_goals unfold threadsPerBlock at *
      all_goals omega
    · exact absurd hmem List.not_mem_nil
  · rintro ⟨r, c, hr, hc, hblock, hthread, hcol, rfl, rfl⟩
    have hr' : threadsPerBlock * th.rowStart + th.x = r := by
      rw [← hblock, ← hthread]
      exact Nat.div_add_mod r threadsPerBlock
    have hc' : threadsPerBlock * th.colStart + c % threadsPerBlock = c := by
      rw [← hcol]
      exact Nat.div_add_mod c threadsPerBlock
    have hcx : c % threadsPerBlock < threadsPerBlock := Nat.mod_lt _ (by decide)
    rw [if_pos (by rw [Nat.mul_comm th.rowStart]; omega), List.mem_map]
    refine ⟨c % threadsPerBlock, ?_, ?_⟩
    · rw [List.mem_range, Nat.mul_comm th.colStart]
      omega
    · rw [hr', hc']

/-- After all threads ran, every entry is stored. -/
theorem overlaps_apply {schedule : List Thread} (hschedule : schedule.Perm (overlapsLaunch n k))
    (overlapsDev host : ℕ → K) {r c : ℕ} (hr : r < n) (hc : c < k) :
    overlaps iou n k boxes queryBoxes schedule overlapsDev host (r * k + c)
      = iou (boxes r) (queryBoxes c) := by
  have hinside : r * k + c < n * k := by
    have hle : (r + 1) * k ≤ n * k := Nat.mul_le_mul_right k hr
    rw [Nat.succ_mul] at hle
    omega
  show (if r * k + c < n * k then _ else _) = _
  rw [if_pos hinside]
  apply storeAll_of_agree
  · -- The thread of the box `r` in the column block of `c`.
    have hx : r % threadsPerBlock < threadsPerBlock := Nat.mod_lt _ (by decide)
    rw [List.mem_flatMap]
    refine ⟨⟨r / threadsPerBlock, c / threadsPerBlock, r % threadsPerBlock⟩, ?_, ?_⟩
    · rw [hschedule.mem_iff, mem_overlapsLaunch]
      exact ⟨block_lt_divUp hr, block_lt_divUp hc, hx⟩
    · rw [mem_overlapsKernel iou hx]
      exact ⟨r, c, hr, hc, rfl, rfl, rfl, rfl, rfl⟩
  · intro v hv
    obtain ⟨th, hth, hstore⟩ := List.mem_flatMap.mp hv
    rw [hschedule.mem_iff, mem_overlapsLaunch] at hth
    obtain ⟨r', c', -, hc', -, -, -, haddr, rfl⟩ := (mem_overlapsKernel iou hth.2.2).mp hstore
    obtain ⟨rfl, rfl⟩ := mul_add_inj hc hc' haddr
    rfl

/-- `rbbx_overlaps` returns the overlaps of all boxes with all query boxes, whatever the order of
the threads and whatever the memory of the device held before. It raises for no box and for no
query box. -/
theorem rbbxOverlaps_eq [Zero K] (boxes queryBoxes : List (RowXywha K)) {schedule : List Thread}
    (hschedule : schedule.Perm (overlapsLaunch boxes.length queryBoxes.length))
    (overlapsDev : ℕ → K) :
    rbbxOverlaps iou boxes queryBoxes schedule overlapsDev =
      if boxes = [] ∨ queryBoxes = [] then .error .indexError
      else .ok (boxes.map fun box => queryBoxes.map fun query => iou box query) := by
  unfold rbbxOverlaps
  simp only [List.length_eq_zero_iff]
  split
  · rfl
  · have hrows : ∀ {β : Type} (l : List (RowXywha K)) (f : RowXywha K → β),
        l.map f = (List.range l.length).map fun i => f (l.getD i ⟨0, 0, 0, 0, 0⟩) := by
      intro β l f
      refine List.ext_getElem (by simp) ?_
      intro i hi _
      rw [List.length_map] at hi
      simp [hi]
    rw [hrows boxes]
    refine congrArg Except.ok (List.map_congr_left ?_)
    intro i hi
    rw [List.mem_range] at hi
    rw [hrows queryBoxes]
    refine List.map_congr_left ?_
    intro j hj
    rw [List.mem_range] at hj
    exact overlaps_apply iou hschedule overlapsDev _ hi hj

end

/-- Two boxes and one query box, with the threads in reverse order. -/
theorem rbbxOverlaps_eq_reversed :
    rbbxOverlaps (devRotateIoU .rat fun _ => 0) [⟨0, 0, 8, 6, 0⟩, ⟨0, 0, 20, 20, 0⟩]
        [⟨0, 0, 8, 6, 0⟩] (overlapsLaunch 2 1).reverse (fun _ => 7) =
      if ([⟨0, 0, 8, 6, 0⟩, ⟨0, 0, 20, 20, 0⟩] : List (RowXywha ℚ)) = [] ∨
        ([⟨0, 0, 8, 6, 0⟩] : List (RowXywha ℚ)) = [] then .error .indexError
      else .ok (([⟨0, 0, 8, 6, 0⟩, ⟨0, 0, 20, 20, 0⟩] : List (RowXywha ℚ)).map fun box =>
        ([⟨0, 0, 8, 6, 0⟩] : List (RowXywha ℚ)).map fun query =>
          devRotateIoU .rat (fun _ => 0) box query) :=
  rbbxOverlaps_eq _ _ _ (List.reverse_perm _) _

end W2Net.Proofs.OverlapsKernel
