import Mathlib.Algebra.BigOperators.Group.Finset.Sigma
import Mathlib.Algebra.BigOperators.Ring.Finset
import Mathlib.Data.Fintype.Prod
import W2Net.Eval
import W2Net.Lib.Dice

/-!
# `W2Net.Proofs.Segmentation`: the laws of IoU and Dice

`seg_evaluate` and `_iou_dice` both compute the scores of Jaccard and Dice for
the pixels of two masks. `_iou_dice` smooths them by `eps`, and `seg_evaluate`
replaces a denominator below 1 by 1. A denominator is a number of pixels, so this
changes it only when both masks are empty (`segScores_eq`).

* `Consistent` collects the laws of both scores of a pair of masks.
* `scores_consistent_iff`: they hold of both functions exactly when one of the
  masks has a pixel. Two empty masks are equal, and `seg_evaluate` gives them 0.
* `segEvaluate_bounds`: the means over the images keep the order of the scores.
-/

set_option autoImplicit false

namespace W2Net.Proofs.Segmentation

open W2Net.Eval

variable {H W : ℕ}

/-! ### Counting pixels -/

/-- The pixels of a mask. -/
def pixels (m : Mask H W) : Finset (Fin H × Fin W) := Finset.univ.filter fun p => m p.1 p.2 = true

@[simp] theorem mem_pixels {m : Mask H W} {p : Fin H × Fin W} :
    p ∈ pixels m ↔ m p.1 p.2 = true := by
  simp [pixels]

theorem pixels_inter (a b : Mask H W) : pixels (a.inter b) = pixels a ∩ pixels b := by
  ext p
  simp [Mask.inter]

theorem pixels_union (a b : Mask H W) : pixels (a.union b) = pixels a ∪ pixels b := by
  ext p
  simp [Mask.union]

theorem pixels_injective {a b : Mask H W} (h : pixels a = pixels b) : a = b := by
  funext r c
  have hiff : (r, c) ∈ pixels a ↔ (r, c) ∈ pixels b := by rw [h]
  rw [mem_pixels, mem_pixels] at hiff
  exact Bool.eq_iff_iff.mpr hiff

variable {K : Type} [Field K]

theorem area_eq_card (m : Mask H W) : (m.area : K) = (pixels m).card := by
  rw [Mask.area, ← Finset.sum_product' _ _ (fun r c => if m r c = true then (1 : K) else 0),
    Finset.sum_boole]
  rfl

/-- Every pixel of the two masks is counted in both. -/
theorem area_add_area (a b : Mask H W) :
    (a.area + b.area : K) = (a.inter b).area + (a.union b).area := by
  simp only [area_eq_card, pixels_inter, pixels_union]
  have hcard := Finset.card_inter_add_card_union (pixels a) (pixels b)
  rw [← Nat.cast_add, ← Nat.cast_add, hcard]

/-- A mask without pixels. -/
def Blank (m : Mask H W) : Prop := ∀ r c, m r c = false

theorem blank_of_pixels {m : Mask H W} (h : pixels m = ∅) : Blank m := by
  intro r c
  have hmem : (r, c) ∉ pixels m := by
    rw [h]
    exact Finset.notMem_empty _
  rw [mem_pixels] at hmem
  exact Bool.eq_false_iff.mpr hmem

theorem area_inter_of_blank {a b : Mask H W} (h : Blank a) : ((a.inter b).area : K) = 0 := by
  have hinter : pixels (a.inter b) = ∅ := by
    ext p
    simp [Mask.inter, h p.1 p.2]
  rw [area_eq_card, hinter, Finset.card_empty, Nat.cast_zero]

section Order
variable [LinearOrder K] [IsStrictOrderedRing K]

theorem area_nonneg (m : Mask H W) : (0 : K) ≤ m.area := by
  rw [area_eq_card]
  exact Nat.cast_nonneg _

theorem area_inter_le (a b : Mask H W) : ((a.inter b).area : K) ≤ (a.union b).area := by
  rw [area_eq_card, area_eq_card, Nat.cast_le, pixels_inter, pixels_union]
  exact Finset.card_le_card Finset.inter_subset_union

/-- The two counts agree for equal masks only. -/
theorem area_inter_eq_iff (a b : Mask H W) :
    ((a.inter b).area : K) = (a.union b).area ↔ a = b := by
  rw [area_eq_card, area_eq_card, Nat.cast_inj, pixels_inter, pixels_union]
  constructor
  · intro h
    have heq := Finset.eq_of_subset_of_card_le Finset.inter_subset_union h.ge
    exact pixels_injective (inf_eq_sup.mp heq)
  · rintro rfl
    rw [Finset.inter_self, Finset.union_self]

/-- A pixel of one of the masks is in the union. -/
theorem one_le_area_union {a b : Mask H W} (h : ¬ (Blank a ∧ Blank b)) :
    (1 : K) ≤ (a.union b).area := by
  rw [area_eq_card, Nat.one_le_cast, Nat.one_le_iff_ne_zero, pixels_union]
  intro hzero
  rw [Finset.card_eq_zero, Finset.union_eq_empty] at hzero
  exact h ⟨blank_of_pixels hzero.1, blank_of_pixels hzero.2⟩

theorem area_union_pos {a b : Mask H W} (h : ¬ (Blank a ∧ Blank b)) :
    (0 : K) < (a.union b).area :=
  one_pos.trans_le (one_le_area_union h)

end Order

/-! ### The two functions -/

theorem iouDice_eq (eps : K) (pred target : Mask H W) :
    iouDice eps pred target
      = (jaccard eps (pred.inter target).area (pred.union target).area,
          dice eps (pred.inter target).area (pred.union target).area) := by
  simp only [iouDice]
  rw [area_add_area]
  rfl

section Scores
variable [LinearOrder K]

/-- A blank prediction gets the score 0. -/
theorem segScores_of_blank {pred gt : Mask H W} (h : Blank pred) :
    segScores (K := K) pred gt = (0, 0) := by
  simp [segScores, area_inter_of_blank h]

variable [IsStrictOrderedRing K]

/-- A pixel keeps both denominators at 1 or above. -/
theorem segScores_eq {pred gt : Mask H W} (h : ¬ (Blank pred ∧ Blank gt)) :
    segScores (K := K) pred gt
      = (jaccard 0 (pred.inter gt).area (pred.union gt).area,
          dice 0 (pred.inter gt).area (pred.union gt).area) := by
  have hunion : (1 : K) ≤ (pred.union gt).area := one_le_area_union h
  have hdenom : (1 : K) ≤ (pred.inter gt).area + (pred.union gt).area :=
    le_add_of_nonneg_of_le (area_nonneg _) hunion
  simp only [segScores]
  rw [area_add_area, max_eq_left hunion, max_eq_left hdenom]
  simp only [jaccard, dice, add_zero]

/-- The laws of the scores of a pair of masks. -/
structure Consistent (pred gt : Mask H W) (scores : K × K) : Prop where
  nonneg : 0 ≤ scores.1
  le : scores.1 ≤ scores.2
  le_one : scores.2 ≤ 1
  iou_eq_one_iff : scores.1 = 1 ↔ pred = gt
  dice_eq_one_iff : scores.2 = 1 ↔ pred = gt

/-- The scores of Jaccard and Dice obey the laws. -/
theorem consistent_of_pos {e : K} (he : 0 ≤ e) {pred gt : Mask H W}
    (hpos : 0 < (pred.union gt).area + e) :
    Consistent pred gt (jaccard e (pred.inter gt).area (pred.union gt).area,
      dice e (pred.inter gt).area (pred.union gt).area) where
  nonneg := jaccard_nonneg he (area_nonneg _) hpos
  le := jaccard_le_dice (area_nonneg _) (area_inter_le pred gt) hpos
  le_one := dice_le_one (area_nonneg _) (area_inter_le pred gt) hpos
  iou_eq_one_iff := (jaccard_eq_one_iff hpos).trans (area_inter_eq_iff pred gt)
  dice_eq_one_iff := (dice_eq_one_iff (area_nonneg _) hpos).trans (area_inter_eq_iff pred gt)

theorem iouDice_consistent {eps : K} (heps : 0 < eps) (pred target : Mask H W) :
    Consistent pred target (iouDice eps pred target) := by
  rw [iouDice_eq]
  exact consistent_of_pos heps.le (add_pos_of_nonneg_of_pos (area_nonneg _) heps)

theorem segScores_consistent {pred gt : Mask H W} (h : ¬ (Blank pred ∧ Blank gt)) :
    Consistent pred gt (segScores (K := K) pred gt) := by
  rw [segScores_eq h]
  refine consistent_of_pos (le_refl 0) ?_
  rw [add_zero]
  exact area_union_pos h

/-- The Dice score is a function of the IoU, also for two empty masks. -/
theorem segScores_dice_mul (pred gt : Mask H W) :
    (segScores (K := K) pred gt).2 * (1 + (segScores (K := K) pred gt).1)
      = 2 * (segScores (K := K) pred gt).1 := by
  by_cases h : Blank pred ∧ Blank gt
  · rw [segScores_of_blank h.1]
    simp
  · rw [segScores_eq h]
    exact dice_mul_one_add_jaccard (area_nonneg _) (area_union_pos h)

/-- The scores of both functions are consistent exactly when one of the masks has
a pixel. -/
theorem scores_consistent_iff (pred gt : Mask H W) :
    (Consistent pred gt (segScores (K := K) pred gt) ∧
        (segScores (K := K) pred gt).2 * (1 + (segScores (K := K) pred gt).1)
          = 2 * (segScores (K := K) pred gt).1 ∧
        Consistent pred gt (iouDice (1 : K) pred gt)) ↔
      ¬ (Blank pred ∧ Blank gt) := by
  constructor
  · rintro ⟨h, -, -⟩ ⟨hpred, hgt⟩
    -- Two empty masks are equal, but their score is 0.
    have heq : pred = gt := by
      funext r c
      rw [hpred r c, hgt r c]
    have hone := h.iou_eq_one_iff.mpr heq
    rw [segScores_of_blank hpred] at hone
    exact zero_ne_one hone
  · intro h
    exact ⟨segScores_consistent h, segScores_dice_mul pred gt, iouDice_consistent one_pos pred gt⟩

end Scores

/-- A prediction of two pixels, one of them in the mask. -/
theorem scores_consistent_halfRight :
    Consistent (fun (_ : Fin 1) (_ : Fin 2) => true) (fun _ c => decide (c = 0))
      (segScores (K := ℚ) (fun (_ : Fin 1) (_ : Fin 2) => true) fun _ c => decide (c = 0)) :=
  ((scores_consistent_iff (K := ℚ) (fun (_ : Fin 1) (_ : Fin 2) => true)
    fun _ c => decide (c = 0)).mpr fun h => Bool.noConfusion (h.1 0 0)).1

/-- Nothing to find and nothing found: `_iou_dice` gives 1 and `seg_evaluate` 0. -/
theorem emptyMasks_score_zero :
    ¬ Consistent (fun (_ : Fin 1) (_ : Fin 1) => false) (fun _ _ => false)
        (segScores (K := ℚ) (fun (_ : Fin 1) (_ : Fin 1) => false) fun _ _ => false) ∧
      segScores (K := ℚ) (fun (_ : Fin 1) (_ : Fin 1) => false) (fun _ _ => false) = (0, 0) ∧
      iouDice (1 : ℚ) (fun (_ : Fin 1) (_ : Fin 1) => false) (fun _ _ => false) = (1, 1) := by
  have hzero : segScores (K := ℚ) (fun (_ : Fin 1) (_ : Fin 1) => false) (fun _ _ => false)
      = (0, 0) := by decide +kernel
  refine ⟨?_, hzero, by decide +kernel⟩
  intro h
  have hone := h.iou_eq_one_iff.mpr rfl
  rw [hzero] at hone
  exact zero_ne_one hone

/-! ### The means over the images -/

section SegEvaluate
variable [LinearOrder K] [IsStrictOrderedRing K]

/-- The bounds of the scores hold for empty masks too. -/
theorem segScores_bounds (pred gt : Mask H W) :
    0 ≤ (segScores (K := K) pred gt).1 ∧
      (segScores (K := K) pred gt).1 ≤ (segScores (K := K) pred gt).2 ∧
      (segScores (K := K) pred gt).2 ≤ 1 := by
  by_cases h : Blank pred ∧ Blank gt
  · rw [segScores_of_blank h.1]
    exact ⟨le_refl 0, le_refl 0, zero_le_one⟩
  · have hcons := segScores_consistent (K := K) h
    exact ⟨hcons.nonneg, hcons.le, hcons.le_one⟩

/-- What holds of `iou_sum`, `dice_sum` and `n_valid`. -/
structure SumBounds (sums : K × K × ℕ) : Prop where
  nonneg : 0 ≤ sums.1
  le : sums.1 ≤ sums.2.1
  le_count : sums.2.1 ≤ sums.2.2

/-- One image keeps the bounds. -/
theorem SumBounds.segStep {sums : K × K × ℕ} (h : SumBounds sums) (thr : K)
    (image : Option (SegImage K)) : SumBounds (segStep thr sums image) := by
  cases image with
  | none => exact h
  | some image =>
      simp only [Eval.segStep]
      split
      · exact h
      · -- The scores of one image are bounded by 1, and the image is counted once.
        obtain ⟨hnonneg, hle, hone⟩ : 0 ≤ (image.scores thr).1 ∧
            (image.scores thr).1 ≤ (image.scores thr).2 ∧ (image.scores thr).2 ≤ 1 :=
          segScores_bounds _ _
        exact
          { nonneg := add_nonneg h.nonneg hnonneg
            le := add_le_add h.le hle
            le_count := by
              show _ ≤ ((sums.2.2 + 1 : ℕ) : K)
              rw [Nat.cast_succ]
              exact add_le_add h.le_count hone }

theorem SumBounds.foldl {sums : K × K × ℕ} (h : SumBounds sums) (thr : K)
    (images : List (Option (SegImage K))) : SumBounds (images.foldl (Eval.segStep thr) sums) := by
  induction images generalizing sums with
  | nil => exact h
  | cons image images ih => exact ih (h.segStep thr image)

/-- `0 ≤ mIoU ≤ mDice ≤ 1` for any list of images. -/
theorem segEvaluate_bounds (thr : K) (images : List (Option (SegImage K))) :
    0 ≤ (segEvaluate thr images).1 ∧ (segEvaluate thr images).1 ≤ (segEvaluate thr images).2 ∧
      (segEvaluate thr images).2 ≤ 1 := by
  have hstart : SumBounds ((0, 0, 0) : K × K × ℕ) :=
    { nonneg := le_refl 0
      le := le_refl 0
      le_count := by simp }
  have h := hstart.foldl thr images
  simp only [segEvaluate]
  split
  · exact ⟨le_refl 0, le_refl 0, zero_le_one⟩
  · rename_i hcount
    have hpos : (0 : K) < ((images.foldl (Eval.segStep thr) (0, 0, 0)).2.2 : ℕ) :=
      Nat.cast_pos.mpr (Nat.pos_of_ne_zero hcount)
    exact ⟨div_nonneg h.nonneg hpos.le, div_le_div_of_nonneg_right h.le hpos.le,
      (div_le_one hpos).mpr h.le_count⟩

end SegEvaluate

end W2Net.Proofs.Segmentation
