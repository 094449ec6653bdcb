import Mathlib.Data.Fin.VecNotation
import Mathlib.Data.List.Pairwise
import W2Net.Lib.GreedyFilter
import W2Net.Utils.Nms

/-!
# `W2Net.Proofs.Utils.Nms`: `cpu_nms` is greedy selection

`cpuNms_eq_greedyFilter` reads the two loops and the array `suppressed` as the
greedy filter of the score order. The invariant is that an index that is still
to come is suppressed exactly when a kept index overlaps it
(`suppressOverlaps_apply`, `nmsLoop_eq_foldl`): a suppressed index runs no inner
loop, so it suppresses nothing.

`cpuNms_greedy` collects what the selection means for the detections, for every
overlap that OpenCV may compute and every order of equal scores. With a
symmetric overlap, a second run keeps every kept row.
-/

set_option autoImplicit false

namespace W2Net.Proofs.Nms

open W2Net.Nms

/-! ### The loops -/

section
variable (ov : ℕ → ℕ → Bool)

/-- The inner loop suppresses exactly the indices of `rest` that overlap `i`. -/
theorem suppressOverlaps_apply (i j : ℕ) (rest : List ℕ) (sup : ℕ → Bool) :
    suppressOverlaps ov i rest sup j = (sup j || (rest.contains j && ov i j)) := by
  unfold suppressOverlaps
  induction rest generalizing sup with
  | nil => simp
  | cons k rest ih =>
      rw [List.foldl_cons, ih]
      by_cases hjk : j = k
      · subst hjk
        -- The step at `j` itself.
        cases hs : sup j with
        | true => simp [hs]
        | false =>
            cases ho : ov i j with
            | true => simp
            | false => simp [hs]
      · have hstep : (if sup k then sup else
            if ov i k then Function.update sup k true else sup) j = sup j := by
          split
          · rfl
          · split
            · exact Function.update_of_ne hjk _ _
            · rfl
        rw [hstep]
        simp [hjk]

/-- The loop continues the greedy selection, as long as the suppressed indices
of `rest` are those that a kept index overlaps. -/
theorem nmsLoop_eq_foldl (rest : List ℕ) :
    ∀ (sup : ℕ → Bool) (keep : List ℕ), (∀ j ∈ rest, sup j = keep.any (ov · j)) →
      nmsLoop ov rest sup keep = rest.foldl (greedyStep ov) keep := by
  induction rest with
  | nil => intro sup keep _; rfl
  | cons i rest ih =>
      intro sup keep hinv
      have hi := hinv i List.mem_cons_self
      rw [nmsLoop, List.foldl_cons, greedyStep, ← hi]
      cases hs : sup i with
      | true =>
          simp only [if_true]
          exact ih sup keep fun j hj => hinv j (List.mem_cons_of_mem i hj)
      | false =>
          simp only [Bool.false_eq_true, if_false]
          refine ih _ _ fun j hj => ?_
          -- The new kept index `i` accounts for what the inner loop suppressed.
          rw [suppressOverlaps_apply, hinv j (List.mem_cons_of_mem i hj), List.any_append]
          simp [hj]

end

/-! ### The score order -/

section
variable {K : Type} [LinearOrder K] (argsort : Argsort K) (dets : List (Det K))

theorem scoreOrder_perm : (scoreOrder argsort dets).Perm (List.range dets.length) := by
  have h := argsort.perm (dets.map Det.score)
  rw [List.length_map] at h
  exact (List.reverse_perm _).trans h

theorem length_scoreOrder : (scoreOrder argsort dets).length = dets.length := by
  rw [(scoreOrder_perm argsort dets).length_eq, List.length_range]

theorem nodup_scoreOrder : (scoreOrder argsort dets).Nodup :=
  (scoreOrder_perm argsort dets).nodup_iff.mpr List.nodup_range

theorem mem_scoreOrder (i : ℕ) : i ∈ scoreOrder argsort dets ↔ i < dets.length := by
  rw [(scoreOrder_perm argsort dets).mem_iff, List.mem_range]

/-- A list with a detection has a first index in its order. -/
theorem exists_head?_scoreOrder (h : dets ≠ []) :
    ∃ i, (scoreOrder argsort dets).head? = some i := by
  have hmem := (mem_scoreOrder argsort dets 0).mpr (List.length_pos_iff.mpr h)
  cases horder : scoreOrder argsort dets with
  | nil => rw [horder] at hmem; cases hmem
  | cons i l => exact ⟨i, rfl⟩

end

theorem row_eq_getElem {K : Type} [Field K] {dets : List (Det K)} {i : ℕ}
    (hi : i < dets.length) : row dets i = dets[i] := by
  rw [row, List.getD_eq_getElem?_getD, List.getElem?_eq_getElem hi, Option.getD_some]

section
variable {K : Type} [Field K] [LinearOrder K]

/-- Along the order the scores do not increase. -/
theorem scoreOrder_pairwise (argsort : Argsort K) (dets : List (Det K)) :
    (scoreOrder argsort dets).Pairwise fun i j =>
      (row dets j).score ≤ (row dets i).score := by
  rw [scoreOrder, List.pairwise_reverse]
  refine (argsort.sorted (dets.map Det.score)).imp_of_mem fun {i j} hi hj hle => ?_
  rw [argsort.mem_order, List.length_map] at hi hj
  refine hle _ _ ?_ ?_
  · rw [List.getElem?_map, List.getElem?_eq_getElem hi, row_eq_getElem hi]
    rfl
  · rw [List.getElem?_map, List.getElem?_eq_getElem hj, row_eq_getElem hj]
    rfl

/-- An index in front of another has at least its score. -/
theorem score_le_of_idxOf_lt (argsort : Argsort K) (dets : List (Det K)) {i j : ℕ}
    (hi : i < dets.length)
    (hlt : (scoreOrder argsort dets).idxOf j < (scoreOrder argsort dets).idxOf i) :
    (row dets i).score ≤ (row dets j).score := by
  obtain ⟨pre, post, hsplit⟩ :=
    List.append_of_mem ((mem_scoreOrder argsort dets i).mpr hi)
  have hnd := nodup_scoreOrder argsort dets
  have hpair := scoreOrder_pairwise argsort dets
  rw [hsplit] at hlt hnd hpair
  rw [List.pairwise_append] at hpair
  exact hpair.2.2 j ((idxOf_lt_iff_mem hnd).mp hlt) i List.mem_cons_self

/-- The first index of the order has the greatest score. -/
theorem score_le_head (argsort : Argsort K) (dets : List (Det K)) {i j : ℕ}
    (hhead : (scoreOrder argsort dets).head? = some i) (hj : j < dets.length) :
    (row dets j).score ≤ (row dets i).score := by
  have hmem := (mem_scoreOrder argsort dets j).mpr hj
  have hpair := scoreOrder_pairwise argsort dets
  cases horder : scoreOrder argsort dets with
  | nil => rw [horder] at hhead; cases hhead
  | cons a l =>
      rw [horder] at hhead hmem hpair
      cases hhead
      cases List.mem_cons.mp hmem with
      | inl heq => rw [heq]
      | inr hl => exact (List.pairwise_cons.mp hpair).1 j hl

/-! ### The selection -/

variable [FloorRing K] (argsort : Argsort K) (cv : Cv2 K) (dets : List (Det K)) (thresh : K)

/-- `cpu_nms` is the greedy selection along the score order. -/
theorem cpuNms_eq_greedyFilter :
    cpuNms argsort cv dets thresh
      = greedyFilter (overlaps cv dets thresh) (scoreOrder argsort dets) :=
  nmsLoop_eq_foldl _ _ _ _ fun _ _ => rfl

theorem lt_length_of_mem_cpuNms {i : ℕ} (hi : i ∈ cpuNms argsort cv dets thresh) :
    i < dets.length := by
  rw [cpuNms_eq_greedyFilter] at hi
  exact (mem_scoreOrder argsort dets i).mp ((greedyFilter_sublist _ _).subset hi)

theorem nodup_cpuNms : (cpuNms argsort cv dets thresh).Nodup := by
  rw [cpuNms_eq_greedyFilter]
  exact (nodup_scoreOrder argsort dets).sublist (greedyFilter_sublist _ _)

/-- A kept row does not overlap a later kept row by the threshold. -/
theorem cpuNms_pairwise_lt :
    (cpuNms argsort cv dets thresh).Pairwise fun j i =>
      ovr cv (row dets j) (row dets i) < thresh := by
  rw [cpuNms_eq_greedyFilter]
  refine (greedyFilter_pairwise _ _).imp fun hno => ?_
  exact not_le.mp (of_decide_eq_false hno)

/-- Two rows have one overlap, whichever comes first. -/
theorem ovr_comm (hsym : cv.Symmetric) (d e : Det K) : ovr cv d e = ovr cv e d := by
  have hinter : inter cv d e = inter cv e d := by
    unfold inter
    rw [hsym.kind d.rect e.rect, hsym.area d.rect e.rect, min_comm d.area]
  rw [ovr, ovr, hinter, add_comm d.area]

/-- With a symmetric overlap, any two kept rows are apart. -/
theorem ovr_lt_of_mem_cpuNms (hsym : cv.Symmetric) {i j : ℕ}
    (hi : i ∈ cpuNms argsort cv dets thresh) (hj : j ∈ cpuNms argsort cv dets thresh)
    (hne : i ≠ j) : ovr cv (row dets i) (row dets j) < thresh := by
  have : Std.Symm fun j i : ℕ => ovr cv (row dets j) (row dets i) < thresh :=
    ⟨fun j i hlt => by rwa [ovr_comm cv hsym]⟩
  exact (cpuNms_pairwise_lt argsort cv dets thresh).forall hi hj hne

/-- The rows that `cpu_nms` keeps. -/
def keptRows : List (Det K) := (cpuNms argsort cv dets thresh).map (row dets)

/-- Two different kept rows are apart, at their positions among the kept
rows. -/
theorem overlaps_keptRows (hsym : cv.Symmetric) {i j : ℕ}
    (hi : i < (keptRows argsort cv dets thresh).length)
    (hj : j < (keptRows argsort cv dets thresh).length) (hne : i ≠ j) :
    overlaps cv (keptRows argsort cv dets thresh) thresh i j = false := by
  have hrow : ∀ k (hk : k < (cpuNms argsort cv dets thresh).length),
      row (keptRows argsort cv dets thresh) k
        = row dets ((cpuNms argsort cv dets thresh)[k]) := by
    intro k hk
    rw [row_eq_getElem (by rw [keptRows, List.length_map]; exact hk)]
    exact List.getElem_map _
  rw [keptRows, List.length_map] at hi hj
  rw [overlaps, decide_eq_false_iff_not, not_le, hrow i hi, hrow j hj]
  refine ovr_lt_of_mem_cpuNms argsort cv dets thresh hsym (List.getElem_mem hi)
    (List.getElem_mem hj) fun heq => hne ?_
  exact (nodup_cpuNms argsort cv dets thresh).getElem_inj_iff.mp heq

/-- A second run over the kept rows keeps all of them. -/
theorem cpuNms_keptRows (hsym : cv.Symmetric) (argsort' : Argsort K) :
    (cpuNms argsort' cv (keptRows argsort cv dets thresh) thresh).Perm
      (List.range (keptRows argsort cv dets thresh).length) := by
  rw [cpuNms_eq_greedyFilter, greedyFilter_eq_self]
  · exact scoreOrder_perm argsort' _
  · refine (nodup_scoreOrder argsort' _).imp_of_mem fun {j i} hj hi hne => ?_
    exact overlaps_keptRows argsort cv dets thresh hsym
      ((mem_scoreOrder argsort' _ j).mp hj) ((mem_scoreOrder argsort' _ i).mp hi) hne

/-- `keep` is the greedy selection of the detections along `order`. -/
structure GreedyNms (order keep : List ℕ) : Prop where
  nodup : keep.Nodup
  inRange : ∀ i ∈ keep, i < dets.length
  scores : keep.Pairwise fun j i => (row dets i).score ≤ (row dets j).score
  /-- A row is kept exactly when no kept row in front of it overlaps it. -/
  kept_iff : ∀ i < dets.length, i ∈ keep ↔
    ∀ j ∈ keep, order.idxOf j < order.idxOf i → ovr cv (row dets j) (row dets i) < thresh
  apart : keep.Pairwise fun j i => ovr cv (row dets j) (row dets i) < thresh
  dropped : ∀ i < dets.length, i ∉ keep → ∃ j ∈ keep,
    thresh ≤ ovr cv (row dets j) (row dets i) ∧ (row dets i).score ≤ (row dets j).score
  top : dets ≠ [] → ∃ i, keep.head? = some i ∧
    ∀ j < dets.length, (row dets j).score ≤ (row dets i).score

/-- `cpu_nms` returns the greedy selection of its score order. When the overlap
is symmetric, any two kept rows are apart, and a run over the kept rows keeps
all of them. -/
theorem cpuNms_greedy :
    GreedyNms cv dets thresh (scoreOrder argsort dets) (cpuNms argsort cv dets thresh) ∧
    (cv.Symmetric →
      (∀ i ∈ cpuNms argsort cv dets thresh, ∀ j ∈ cpuNms argsort cv dets thresh, i ≠ j →
        ovr cv (row dets i) (row dets j) < thresh) ∧
      ∀ argsort' : Argsort K, (cpuNms argsort' cv (keptRows argsort cv dets thresh) thresh).Perm
        (List.range (keptRows argsort cv dets thresh).length)) := by
  have heq := cpuNms_eq_greedyFilter argsort cv dets thresh
  have hnd := nodup_scoreOrder argsort dets
  refine ⟨?_, fun hsym => ⟨fun i hi j hj hne => ?_, cpuNms_keptRows argsort cv dets thresh hsym⟩⟩
  · refine
      { nodup := nodup_cpuNms argsort cv dets thresh
        inRange := fun i => lt_length_of_mem_cpuNms argsort cv dets thresh
        scores := ?_
        kept_iff := fun i hi => ?_
        apart := cpuNms_pairwise_lt argsort cv dets thresh
        dropped := fun i hi hdrop => ?_
        top := fun h => ?_ }
    · rw [heq]
      exact (scoreOrder_pairwise argsort dets).sublist (greedyFilter_sublist _ _)
    · rw [heq, mem_greedyFilter _ hnd ((mem_scoreOrder argsort dets i).mpr hi)]
      simp only [overlaps, decide_eq_false_iff_not, not_le]
    · rw [heq] at hdrop ⊢
      -- The box that drops it stands before it, so its score is not lower.
      obtain ⟨j, hj, hlt, hov⟩ :=
        exists_excludes _ hnd ((mem_scoreOrder argsort dets i).mpr hi) hdrop
      exact ⟨j, hj, of_decide_eq_true hov, score_le_of_idxOf_lt argsort dets hi hlt⟩
    · obtain ⟨i, hhead⟩ := exists_head?_scoreOrder argsort dets h
      refine ⟨i, ?_, fun j hj => score_le_head argsort dets hhead hj⟩
      rw [heq, greedyFilter_head?, hhead]
  · exact ovr_lt_of_mem_cpuNms argsort cv dets thresh hsym hi hj hne

/-- The wrapper returns the greedy selection for an array of six columns. -/
theorem nms_sixColumns :
    nms argsort cv dets thresh = .ok (cpuNms argsort cv dets thresh) := by
  cases dets with
  | nil =>
      have hnil : cpuNms argsort cv [] thresh = [] :=
        List.eq_nil_iff_forall_not_mem.mpr fun i hi =>
          absurd (lt_length_of_mem_cpuNms argsort cv [] thresh hi) (Nat.not_lt_zero i)
      rw [hnil]
      rfl
  | cons d dets =>
      show Except.ok (cpuNms argsort cv (List.map (fun d : Det K => d) (d :: dets)) thresh) = _
      rw [List.map_id']

end

/-! ### A run -/

/-- Three boxes with angle 0. The second covers half of the first, and the third
touches neither. -/
def threeBoxes : List (Det ℚ) :=
  [![0, 0, 4, 4, 0, 9 / 10], ![0, 0, 4, 2, 0, 8 / 10], ![9, 0, 13, 4, 0, 7 / 10]]

example : cpuNms .stable Cv2.aligned threeBoxes (3 / 10) = [0, 2] := by decide +kernel

/-- The kept rows of the three boxes are kept again. -/
theorem cpuNms_greedy_threeBoxes :
    (cpuNms .stable Cv2.aligned (keptRows .stable Cv2.aligned threeBoxes (3 / 10))
      (3 / 10)).Perm
      (List.range (keptRows .stable Cv2.aligned threeBoxes (3 / 10)).length) :=
  ((cpuNms_greedy .stable Cv2.aligned threeBoxes (3 / 10)).2 Cv2.aligned_symmetric).2 .stable

end W2Net.Proofs.Nms
