import Mathlib.Analysis.SpecialFunctions.Pow.Real
import Mathlib.Analysis.SpecialFunctions.Sigmoid
import W2Net.Models.TrainingLoss
import W2Net.Proofs.Models.Lmr5p
import W2Net.Proofs.Models.TargetPartition
import W2Net.Proofs.Train.EpochLoss

/-!
# `W2Net.Proofs.Models.TrainingLoss`: when a batch has nothing to learn from

`train_model` passes a batch over when its total is 0. Over the real numbers the clamp of the
scores keeps every entry of the focal loss positive, and an image with an annotation always has a
positive anchor (`exists_positive`). So the classification loss of such an image is positive
(`clsLoss_pos`). With masks, the sigmoid keeps the segmentation loss positive (`segLoss_pos`).

`trainLosses_total` puts this together: the total of a batch is 0 exactly when it has no masks and
no annotation (`Bare`). `trainEpoch_returns_iff` follows an epoch: it raises exactly when a batch
has annotations without masks, and with masks everywhere `mloss` is the mean over all batches.

`imageLosses_reg_zero_iff` says what the regression of an image is trained to: its loss is 0
exactly when every positive anchor decodes to the rectangle of its annotation.
-/

set_option autoImplicit false

namespace W2Net.Proofs.TrainingLoss

open W2Net.BoxCoder (init radians)
open W2Net.Losses
open W2Net.Proofs.BoxCoder (realTorch positive_init)
open W2Net.Proofs.TargetPartition (AnchorSet InSet existsUnique_inSet writtenTargets_positive
  writtenTargets_negative writtenTargets_ignored)

/-- The functions over the real numbers. -/
noncomputable def realLoss : LossMath ℝ :=
  { realTorch with pow := fun x y => x ^ y, sigmoid := Real.sigmoid }

/-! ### The classification loss -/

theorem clampScore_pos (p : ℝ) : 0 < clampScore p := by
  have hlow : (1 / 10 ^ 4 : ℝ) ≤ max p (1 / 10 ^ 4) := le_max_right _ _
  show 0 < min (max p (1 / 10 ^ 4)) (1 - 1 / 10 ^ 4)
  exact lt_min (by linarith) (by norm_num)

theorem clampScore_le (p : ℝ) : clampScore p ≤ 1 - 1 / 10 ^ 4 := min_le_right _ _

/-- The clamp keeps both logarithms away from 1, and both weights away from 0. -/
theorem focalEntry_pos {alpha gamma : ℝ} (h0 : 0 < alpha) (h1 : alpha < 1) {target : ℤ}
    (htarget : target = 0 ∨ target = 1) (score : ℝ) :
    0 < focalEntry realLoss.toTorchMath realLoss.pow alpha gamma target score := by
  have hpos := clampScore_pos score
  have hle := clampScore_le score
  have hother : 0 < 1 - clampScore score := by linarith
  have hlog : Real.log (clampScore score + 1 / 10 ^ 6) < 0 :=
    Real.log_neg (by linarith) (by linarith)
  have hlogOther : Real.log (1 - clampScore score + 1 / 10 ^ 6) < 0 := by
    have hclamp : (1 / 10 ^ 4 : ℝ) ≤ clampScore score :=
      le_min (le_max_right _ _) (by norm_num)
    exact Real.log_neg (by linarith) (by linarith)
  have hpow := Real.rpow_pos_of_pos hpos gamma
  have hpowOther := Real.rpow_pos_of_pos hother gamma
  rcases htarget with rfl | rfl
  · show 0 < (1 - alpha) * clampScore score ^ gamma
        * -(((0 : ℤ) : ℝ) * Real.log _ + (1 - ((0 : ℤ) : ℝ)) * Real.log _)
    rw [Int.cast_zero, zero_mul, zero_add, sub_zero, one_mul]
    exact mul_pos (mul_pos (by linarith) hpow) (by linarith)
  · show 0 < alpha * (1 - clampScore score) ^ gamma
        * -(((1 : ℤ) : ℝ) * Real.log _ + (1 - ((1 : ℤ) : ℝ)) * Real.log _)
    rw [Int.cast_one, one_mul, sub_self, zero_mul, add_zero]
    exact mul_pos (mul_pos h0 hpowOther) (by linarith)

section
variable {N M C : ℕ} [NeZero N] [NeZero M]

/-- An image with an annotation has a positive anchor: one that reaches the threshold, or the best
one of the annotation. -/
theorem exists_positive (ious : Fin N → Fin M → ℝ) (t : ℝ) : ∃ n, InSet ious t n .positive := by
  by_cases hlow : ∀ m, ious m 0 < t
  · refine ⟨argmaxGt ious 0, ?_⟩
    show Losses.Eligible ious t (argmaxGt ious 0)
    exact Or.inr ⟨0, hlow, isFirstMax_argmax _⟩
  · rw [not_forall] at hlow
    obtain ⟨m, hm⟩ := hlow
    exact ⟨m, Or.inl ⟨0, not_lt.mp hm⟩⟩

/-- The loss of an image with annotations is positive, whatever the scores are. -/
theorem clsLoss_pos [NeZero C] {alpha gamma : ℝ} (h0 : 0 < alpha) (h1 : alpha < 1)
    (ious : Fin N → Fin M → ℝ) (t : ℝ) (cls : Fin M → Fin C) (classification : Fin N → Fin C → ℝ) :
    0 < clsLoss realLoss.toTorchMath realLoss.pow alpha gamma ious t cls classification := by
  have hentry : ∀ n c, 0 ≤ focalEntry realLoss.toTorchMath realLoss.pow alpha gamma
      (writtenTargets ious t cls n c) (classification n c) := by
    intro n c
    obtain ⟨set, hset, -⟩ := existsUnique_inSet ious t n
    cases set with
    | positive =>
        obtain ⟨k, -, hrow⟩ := writtenTargets_positive ious t cls n hset
        rw [hrow c]
        exact (focalEntry_pos h0 h1 (by split <;> simp) _).le
    | negative =>
        rw [writtenTargets_negative ious t cls n hset c]
        exact (focalEntry_pos h0 h1 (Or.inl rfl) _).le
    | ignored =>
        rw [writtenTargets_ignored ious t cls n hset c]
        exact le_rfl
  -- The row of a positive anchor has an entry for its class.
  obtain ⟨n, hn⟩ := exists_positive ious t
  have hrow : 0 < ∑ c, focalEntry realLoss.toTorchMath realLoss.pow alpha gamma
      (writtenTargets ious t cls n c) (classification n c) := by
    obtain ⟨k, -, hrow⟩ := writtenTargets_positive ious t cls n hn
    refine Finset.sum_pos' (fun c _ => hentry n c) ⟨cls k, Finset.mem_univ _, ?_⟩
    rw [hrow, if_pos rfl]
    exact focalEntry_pos h0 h1 (Or.inr rfl) _
  have hsum := Finset.sum_pos' (s := Finset.univ)
    (fun n _ => Finset.sum_nonneg fun c _ => hentry n c) ⟨n, Finset.mem_univ _, hrow⟩
  exact div_pos hsum (lt_of_lt_of_le one_pos (le_max_right _ _))

end

/-! ### The regression loss -/

theorem smoothL1Entry_eq_smooth (beta diff : ℝ) : smoothL1Entry beta diff = smooth beta diff := by
  rw [smoothL1Entry, smooth, pow_two, mul_assoc]

theorem smoothL1_zero_iff {N : ℕ} [NeZero N] (inputs targets : Fin N → Fin 5 → ℝ) :
    entryMean (smoothL1Entry (1 / 9)) inputs targets = 0 ↔ ∀ i, inputs i = targets i := by
  have hbeta : (0 : ℝ) < 1 / 9 := by norm_num
  have hnonneg : ∀ i j, 0 ≤ smoothL1Entry (1 / 9) |inputs i j - targets i j| := by
    intro i j
    rw [smoothL1Entry_eq_smooth]
    exact Lmr5p.smooth_nonneg hbeta (abs_nonneg _)
  have hN : (N : ℝ) * 5 ≠ 0 := mul_ne_zero (Nat.cast_ne_zero.mpr (NeZero.ne N)) (by norm_num)
  rw [entryMean, div_eq_zero_iff, or_iff_left hN,
    Finset.sum_eq_zero_iff_of_nonneg fun i _ => Finset.sum_nonneg fun j _ => hnonneg i j]
  simp only [Finset.mem_univ, true_implies]
  refine forall_congr' fun i => ?_
  rw [Finset.sum_eq_zero_iff_of_nonneg fun j _ => hnonneg i j, funext_iff]
  simp only [Finset.mem_univ, true_implies, smoothL1Entry_eq_smooth,
    Lmr5p.smooth_abs_eq_zero_iff hbeta]

theorem smoothL1_nonneg {N : ℕ} (inputs targets : Fin N → Fin 5 → ℝ) :
    0 ≤ entryMean (smoothL1Entry (1 / 9)) inputs targets := by
  refine div_nonneg (Finset.sum_nonneg fun i _ => Finset.sum_nonneg fun j _ => ?_) (by positivity)
  rw [smoothL1Entry_eq_smooth]
  exact Lmr5p.smooth_nonneg (by norm_num) (abs_nonneg _)

theorem mem_positives {N : ℕ} {positive : Fin N → Bool} {n : Fin N} :
    n ∈ positives positive ↔ positive n = true := by
  simp [positives]

section
variable {N : ℕ} (positive : Fin N → Bool) (regression anchors gtBoxes : Fin N → Fin 5 → ℝ)

theorem positiveRegLoss_nonneg :
    0 ≤ positiveRegLoss realLoss .smooth positive regression anchors gtBoxes := by
  rw [positiveRegLoss]
  split
  · exact le_rfl
  · exact smoothL1_nonneg _ _

/-- The regression loss is 0 exactly when every positive anchor has the code of its box. -/
theorem positiveRegLoss_zero_iff :
    positiveRegLoss realLoss .smooth positive regression anchors gtBoxes = 0 ↔
      ∀ n, positive n = true →
        regression n = BoxCoder.init.encode realTorch (anchors n) (gtBoxes n) := by
  have hrows : (∀ n, positive n = true →
        regression n = BoxCoder.init.encode realTorch (anchors n) (gtBoxes n)) ↔
      ∀ n ∈ positives positive,
        regression n = BoxCoder.init.encode realTorch (anchors n) (gtBoxes n) :=
    forall_congr' fun n => imp_congr_left mem_positives.symm
  rw [hrows, positiveRegLoss]
  by_cases h : (positives positive).length = 0
  · rw [dif_pos h, List.length_eq_zero_iff.mp h]
    simp
  · have : NeZero (positives positive).length := ⟨h⟩
    rw [dif_neg h]
    show entryMean (smoothL1Entry (1 / 9)) _ _ = 0 ↔ _
    rw [smoothL1_zero_iff, List.forall_mem_iff_get]
    rfl

end

/-! ### The segmentation loss -/

section
variable {B H W : ℕ} [NeZero B] [NeZero H] [NeZero W]

/-- The entries of the masks are between 0 and 1. -/
def InUnit (masks : Fin B → Fin H → Fin W → ℝ) : Prop :=
  ∀ b r c, 0 ≤ masks b r c ∧ masks b r c ≤ 1

/-- A sum over all entries of an array with rows and columns. -/
theorem sum_entries_pos {f : Fin H → Fin W → ℝ} (h : ∀ r c, 0 < f r c) : 0 < ∑ r, ∑ c, f r c :=
  Finset.sum_pos (fun r _ => Finset.sum_pos (fun c _ => h r c) Finset.univ_nonempty)
    Finset.univ_nonempty

/-- One of the two weights of an entry is positive, and both logarithms are negative. -/
theorem bceEntry_pos {posWeight target : ℝ} (hweight : 0 < posWeight) (h0 : 0 ≤ target)
    (h1 : target ≤ 1) (logit : ℝ) :
    0 < -(posWeight * target * Real.log (Real.sigmoid logit)
      + (1 - target) * Real.log (1 - Real.sigmoid logit)) := by
  have hpos := Real.sigmoid_pos logit
  have hlt := Real.sigmoid_lt_one logit
  have hlog : Real.log (Real.sigmoid logit) < 0 := Real.log_neg hpos hlt
  have hlogOther : Real.log (1 - Real.sigmoid logit) < 0 :=
    Real.log_neg (by linarith) (by linarith)
  have hother : (1 - target) * Real.log (1 - Real.sigmoid logit) ≤ 0 :=
    mul_nonpos_of_nonneg_of_nonpos (by linarith) hlogOther.le
  rcases h0.eq_or_lt with h0 | h0
  · rw [← h0, mul_zero, zero_mul, zero_add, sub_zero, one_mul]
    linarith
  · have hfirst := mul_neg_of_pos_of_neg (mul_pos hweight h0) hlog
    linarith

theorem bceWithLogits_pos {posWeight : ℝ} (hweight : 0 < posWeight)
    (logits : Fin B → Fin H → Fin W → ℝ) {masks : Fin B → Fin H → Fin W → ℝ}
    (hmasks : InUnit masks) : 0 < bceWithLogits realLoss posWeight logits masks := by
  have hB : (0 : ℝ) < B := Nat.cast_pos.mpr (NeZero.pos B)
  have hH : (0 : ℝ) < H := Nat.cast_pos.mpr (NeZero.pos H)
  have hW : (0 : ℝ) < W := Nat.cast_pos.mpr (NeZero.pos W)
  refine div_pos (Finset.sum_pos (fun b _ => ?_) Finset.univ_nonempty) (by positivity)
  exact sum_entries_pos fun r c => bceEntry_pos hweight (hmasks b r c).1 (hmasks b r c).2 _

/-- The intersection of probabilities between 0 and 1 is less than half their sum. -/
theorem softDice_lt_one (logits : Fin H → Fin W → ℝ) {mask : Fin H → Fin W → ℝ}
    (hmask : ∀ r c, 0 ≤ mask r c ∧ mask r c ≤ 1) : softDice realLoss logits mask < 1 := by
  have hden : 0 ≤ (∑ r, ∑ c, Real.sigmoid (logits r c)) + ∑ r, ∑ c, mask r c :=
    add_nonneg (Finset.sum_nonneg fun r _ => Finset.sum_nonneg fun c _ => (Real.sigmoid_pos _).le)
      (Finset.sum_nonneg fun r _ => Finset.sum_nonneg fun c _ => (hmask r c).1)
  have hgap : 0 < (∑ r, ∑ c, Real.sigmoid (logits r c)) + (∑ r, ∑ c, mask r c)
      - 2 * ∑ r, ∑ c, Real.sigmoid (logits r c) * mask r c := by
    simp only [Finset.mul_sum, ← Finset.sum_add_distrib, ← Finset.sum_sub_distrib]
    refine sum_entries_pos fun r c => ?_
    have hpos := Real.sigmoid_pos (logits r c)
    have hlt := Real.sigmoid_lt_one (logits r c)
    have h1 := mul_nonneg hpos.le (sub_nonneg.mpr (hmask r c).2)
    have h2 := mul_nonneg (hmask r c).1 (sub_pos.mpr hlt).le
    rcases (hmask r c).1.eq_or_lt with h0 | h0
    · rw [← h0] at *
      linarith
    · have h3 := mul_pos h0 (sub_pos.mpr hlt)
      linarith
  have heps : (0 : ℝ) < 1 / 10 ^ 6 := by norm_num
  show (2 * (∑ r, ∑ c, Real.sigmoid (logits r c) * mask r c) + 1 / 10 ^ 6)
    / ((∑ r, ∑ c, Real.sigmoid (logits r c)) + (∑ r, ∑ c, mask r c) + 1 / 10 ^ 6) < 1
  rw [div_lt_one (by linarith)]
  linarith

theorem diceLossFromLogits_pos (logits : Fin B → Fin H → Fin W → ℝ)
    {masks : Fin B → Fin H → Fin W → ℝ} (hmasks : InUnit masks) :
    0 < diceLossFromLogits realLoss logits masks := by
  have hB : (0 : ℝ) < B := Nat.cast_pos.mpr (NeZero.pos B)
  have hsum : ∑ b, softDice realLoss (logits b) (masks b) < ∑ _b : Fin B, (1 : ℝ) :=
    Finset.sum_lt_sum_of_nonempty Finset.univ_nonempty
      fun b _ => softDice_lt_one (logits b) (hmasks b)
  rw [Finset.sum_const, Finset.card_univ, Fintype.card_fin, nsmul_eq_mul, mul_one] at hsum
  rw [diceLossFromLogits, sub_pos, div_lt_one hB]
  exact hsum

/-- The weights of the segmentation loss are positive, as the defaults are. -/
structure Positive (hyps : SegHyps ℝ) : Prop where
  posWeight : 0 < hyps.posWeight
  bceW : 0 < hyps.bceW
  diceW : 0 < hyps.diceW
  lambda : 0 < hyps.lambda

theorem segLoss_pos {hyps : SegHyps ℝ} (h : Positive hyps) (logits : Fin B → Fin H → Fin W → ℝ)
    {masks : Fin B → Fin H → Fin W → ℝ} (hmasks : InUnit masks) :
    0 < segLoss realLoss hyps logits masks := by
  have hbce := mul_pos h.bceW (bceWithLogits_pos h.posWeight logits hmasks)
  have hdice := mul_pos h.diceW (diceLossFromLogits_pos logits hmasks)
  exact mul_pos (add_pos hbce hdice) h.lambda

end

/-! ### An image -/

section
variable {N C : ℕ} [NeZero N] [NeZero C] (cv : Cv2 ℝ) (loss : IntegratedLoss ℝ) (iouThres : ℝ)

/-- The classes of the annotations are columns of the classification; -1 is a padding row. -/
def ClassesFit (image : TrainImage N C ℝ) : Prop :=
  ∀ a ∈ image.annotations, a.cls = -1 ∨ ValidClass C a.cls

theorem imageLosses_of_noAnnotation {image : TrainImage N C ℝ}
    (h : validAnnotations image.annotations = []) :
    imageLosses cv realLoss loss iouThres image = .ok (0, 0) := by
  rw [imageLosses, dif_pos (by rw [h, List.length_nil])]

/-- The losses of an image with annotations, on its targets. -/
theorem imageLosses_of_annotations (h0 : 0 < loss.alpha) (h1 : loss.alpha < 1)
    {image : TrainImage N C ℝ} (hfit : ClassesFit image)
    (h : validAnnotations image.annotations ≠ []) :
    ∃ targets cls, imageTargets cv (fun n => .ofRow (image.anchors n)) image.annotations iouThres
        = some targets ∧
      (∀ n, targets.assigned n ∈ validAnnotations image.annotations) ∧ 0 < cls ∧
      imageLosses cv realLoss loss iouThres image
        = .ok (cls, positiveRegLoss realLoss loss targets.positive image.regression image.anchors
            fun n => boxRow (targets.assigned n).box) := by
  have hlen : (validAnnotations image.annotations).length ≠ 0 :=
    fun hzero => h (List.length_eq_zero_iff.mp hzero)
  have : NeZero (validAnnotations image.annotations).length := ⟨hlen⟩
  have hassigned : ∀ k, (validAnnotations image.annotations).get k
      ∈ validAnnotations image.annotations := List.get_mem _
  rw [imageTargets, dif_neg hlen, imageLosses, dif_neg hlen]
  refine ⟨_, _, rfl, fun n => hassigned _, ?_, if_pos fun n _ => ?_⟩
  · exact clsLoss_pos h0 h1 _ _ _ _
  · -- The assigned annotation is none of the padding rows.
    obtain ⟨hmem, hcls⟩ := List.mem_filter.mp (hassigned _)
    exact (hfit _ hmem).resolve_left (of_decide_eq_true hcls)

theorem alpha_smooth : 0 < (IntegratedLoss.smooth : IntegratedLoss ℝ).alpha ∧
    (IntegratedLoss.smooth : IntegratedLoss ℝ).alpha < 1 := by
  show (0 : ℝ) < 1 / 4 ∧ (1 / 4 : ℝ) < 1
  norm_num

/-- What the losses of an image can be: (0, 0) without an annotation, and else a positive one in
front. -/
theorem exists_imageLosses {image : TrainImage N C ℝ} (hfit : ClassesFit image) :
    ∃ losses : ℝ × ℝ, imageLosses cv realLoss .smooth iouThres image = .ok losses ∧ 0 ≤ losses.2 ∧
      (validAnnotations image.annotations = [] → losses = (0, 0)) ∧
      (validAnnotations image.annotations ≠ [] → 0 < losses.1) := by
  by_cases h : validAnnotations image.annotations = []
  · exact ⟨(0, 0), imageLosses_of_noAnnotation cv .smooth iouThres h, le_rfl, fun _ => rfl,
      fun hne => absurd h hne⟩
  · obtain ⟨targets, cls, -, -, hcls, hlosses⟩ :=
      imageLosses_of_annotations cv .smooth iouThres alpha_smooth.1 alpha_smooth.2 hfit h
    have hreg := positiveRegLoss_nonneg targets.positive image.regression image.anchors
      fun n => boxRow (targets.assigned n).box
    exact ⟨_, hlosses, hreg, fun hnil => absurd hnil h, fun _ => hcls⟩

/-- Let the annotations of an image have a class, sides of at least 1 and an angle with a tangent.
Then the classification loss of the image is positive, and its regression loss is 0 exactly when
each positive anchor decodes to the rectangle of the annotation it is assigned, its angle up to
half turns. -/
theorem imageLosses_reg_zero_iff (image : TrainImage N C ℝ) (hfit : ClassesFit image)
    (hboxes : ∀ a ∈ validAnnotations image.annotations, BoxCoder.Wide (boxRow a.box) ∧
      Real.cos (radians realTorch a.box.a) ≠ 0)
    (hsome : validAnnotations image.annotations ≠ []) :
    ∃ targets cls reg,
      imageTargets cv (fun n => .ofRow (image.anchors n)) image.annotations iouThres = some targets ∧
      imageLosses cv realLoss .smooth iouThres image = .ok (cls, reg) ∧ 0 < cls ∧ 0 ≤ reg ∧
      (reg = 0 ↔ ∀ n, targets.positive n = true →
        Lmr5p.SameNumbers (init.decode realTorch "xywht" (image.anchors n) (image.regression n))
          (boxRow (targets.assigned n).box)) := by
  obtain ⟨targets, cls, htargets, hassigned, hcls, hlosses⟩ :=
    imageLosses_of_annotations cv .smooth iouThres alpha_smooth.1 alpha_smooth.2 hfit hsome
  refine ⟨targets, cls, _, htargets, hlosses, hcls, positiveRegLoss_nonneg _ _ _ _, ?_⟩
  rw [positiveRegLoss_zero_iff]
  refine forall_congr' fun n => imp_congr_right fun _ => ?_
  -- The only offsets that decode to the rectangle are its code, which is what `encode` gives.
  obtain ⟨hwide, hcos⟩ := hboxes _ (hassigned n)
  rw [Lmr5p.encode_of_wide hwide]
  exact (Lmr5p.sameNumbers_decode_iff positive_init (lt_of_lt_of_le one_pos hwide.1)
    (lt_of_lt_of_le one_pos hwide.2) hcos).symm

end

/-- An image with one anchor, and annotations that are given. -/
noncomputable def sampleImage (annotations : List (AnnotRow ℝ)) : TrainImage 1 1 ℝ :=
  ⟨fun _ _ => 1 / 2, fun _ => 0, fun _ => BoxCoder.squareAnchor, annotations⟩

/-- The box of the anchor, with the only class. -/
def squareAnnot : AnnotRow ℝ := ⟨⟨0, 0, 32, 32, 0⟩, 0⟩

theorem classesFit_squareAnnot : ClassesFit (sampleImage [squareAnnot]) := by
  intro a ha
  rw [List.mem_singleton.mp ha]
  exact Or.inr (by decide)

theorem validAnnotations_squareAnnot :
    validAnnotations (sampleImage [squareAnnot]).annotations = [squareAnnot] := rfl

theorem imageLosses_reg_zero_iff_square :
    ∃ targets cls reg,
      imageTargets Cv2.aligned (fun n => .ofRow ((sampleImage [squareAnnot]).anchors n))
        [squareAnnot] (1 / 2) = some targets ∧
      imageLosses Cv2.aligned realLoss .smooth (1 / 2) (sampleImage [squareAnnot])
        = .ok (cls, reg) ∧ 0 < cls ∧ 0 ≤ reg ∧
      (reg = 0 ↔ ∀ n, targets.positive n = true →
        Lmr5p.SameNumbers (init.decode realTorch "xywht" BoxCoder.squareAnchor 0)
          (boxRow (targets.assigned n).box)) := by
  refine imageLosses_reg_zero_iff Cv2.aligned (1 / 2) (sampleImage [squareAnnot])
    classesFit_squareAnnot ?_ (List.cons_ne_nil _ _)
  intro a ha
  rw [validAnnotations_squareAnnot] at ha
  rw [List.mem_singleton.mp ha]
  constructor
  · show (1 : ℝ) ≤ 32 - 0 ∧ (1 : ℝ) ≤ 32 - 0
    norm_num
  · show Real.cos (0 / 180 * Real.pi) ≠ 0
    rw [zero_div, zero_mul, Real.cos_zero]
    exact one_ne_zero

/-! ### A batch -/

section
variable {B N C H W : ℕ} [NeZero N] [NeZero C] (cv : Cv2 ℝ)

/-- The losses of the images, when none of them raises. -/
theorem forward_eq [NeZero B] {iouThres : ℝ} {images : Fin B → TrainImage N C ℝ}
    {losses : Fin B → ℝ × ℝ}
    (h : ∀ b, imageLosses cv realLoss .smooth iouThres (images b) = .ok (losses b)) :
    forward cv realLoss .smooth iouThres images
      = .ok ((∑ b, (losses b).1) / B, (∑ b, (losses b).2) / B) := by
  have hmap : (List.ofFn images).mapM (imageLosses cv realLoss .smooth iouThres)
      = .ok (List.ofFn losses) := by
    rw [List.ofFn_eq_map, List.ofFn_eq_map, List.mapM_map]
    exact mapM_eq_ok fun b _ => h b
  have hnil : (List.ofFn losses).isEmpty = false := by
    rw [List.isEmpty_eq_false_iff]
    exact fun hnil => NeZero.ne B (List.ofFn_eq_nil_iff.mp hnil)
  rw [forward, hmap]
  show (if (List.ofFn losses).isEmpty then _ else _) = _
  rw [hnil, if_neg Bool.false_ne_true, List.map_ofFn, List.map_ofFn, List.sum_ofFn, List.sum_ofFn,
    List.length_ofFn]
  rfl

/-- Nothing in the batch is to be learned: there are no masks and no annotations. -/
def Bare (batch : TrainBatch B N C H W ℝ) : Prop :=
  batch.gtSeg = none ∧ ∀ b, validAnnotations (batch.images b).annotations = []

/-- The annotations have a class or are padded, and the masks are between 0 and 1. -/
structure Fits (batch : TrainBatch B N C H W ℝ) : Prop where
  classes : ∀ b, ClassesFit (batch.images b)
  masks : ∀ masks, batch.gtSeg = some masks → InUnit masks

variable [NeZero B] [NeZero H] [NeZero W] {hyps : SegHyps ℝ} {lambda1 lambda2 : ℝ}

/-- The mean over a batch is 0 exactly when every entry is. -/
theorem batchMean_zero_iff {f : Fin B → ℝ} (hf : ∀ b, 0 ≤ f b) :
    (∑ b, f b) / B = 0 ↔ ∀ b, f b = 0 := by
  have hB : (B : ℝ) ≠ 0 := Nat.cast_ne_zero.mpr (NeZero.ne B)
  rw [div_eq_zero_iff, or_iff_left hB, Finset.sum_eq_zero_iff_of_nonneg fun b _ => hf b]
  simp

/-- The losses of a batch are the means over its images, and a segmentation loss that is positive
when there are masks, and else 0. -/
theorem trainLosses_eq (hhyps : Positive hyps) {batch : TrainBatch B N C H W ℝ}
    (hmasks : ∀ masks, batch.gtSeg = some masks → InUnit masks) {losses : Fin B → ℝ × ℝ}
    (hlosses : ∀ b, imageLosses cv realLoss .smooth (1 / 2) (batch.images b) = .ok (losses b)) :
    ∃ seg, trainLosses cv realLoss hyps batch
        = .ok ⟨(∑ b, (losses b).1) / B, (∑ b, (losses b).2) / B, some seg, none⟩ ∧ 0 ≤ seg ∧
      (seg = 0 ↔ batch.gtSeg = none) := by
  rw [trainLosses, forward_eq cv hlosses]
  cases hgt : batch.gtSeg with
  | none => exact ⟨0, rfl, le_rfl, iff_of_true rfl rfl⟩
  | some masks =>
      have hpos := segLoss_pos hhyps batch.segLogits (hmasks masks hgt)
      exact ⟨_, rfl, hpos.le, iff_of_false hpos.ne' (Option.some_ne_none masks)⟩

/-- With positive loss weights, the losses of a batch in training are not negative, and their
weighted sum is finite. It is 0 exactly when the batch has no masks and no annotation. -/
theorem trainLosses_total (hhyps : Positive hyps) (h1 : 0 ≤ lambda1) (h2 : 0 < lambda2)
    (batch : TrainBatch B N C H W ℝ) (hfits : Fits batch) :
    ∃ losses total, trainLosses cv realLoss hyps batch = .ok losses ∧ (∀ c, 0 ≤ losses.items c) ∧
      losses.total lambda1 lambda2 = .finite total ∧ 0 ≤ total ∧ (total = 0 ↔ Bare batch) := by
  choose losses hlosses hreg hnone hsome using fun b =>
    exists_imageLosses cv (1 / 2) (hfits.classes b)
  have hcls : ∀ b, 0 ≤ (losses b).1 := by
    intro b
    by_cases hb : validAnnotations (batch.images b).annotations = []
    · rw [hnone b hb]
    · exact (hsome b hb).le
  have hclsZero : ∀ b, (losses b).1 = 0 ↔ validAnnotations (batch.images b).annotations = [] := by
    intro b
    constructor
    · intro hzero
      by_contra hb
      exact (hsome b hb).ne' hzero
    · intro hb
      rw [hnone b hb]
  have hmeanCls : 0 ≤ (∑ b, (losses b).1) / (B : ℝ) :=
    div_nonneg (Finset.sum_nonneg fun b _ => hcls b) (Nat.cast_nonneg B)
  have hmeanReg : 0 ≤ (∑ b, (losses b).2) / (B : ℝ) :=
    div_nonneg (Finset.sum_nonneg fun b _ => hreg b) (Nat.cast_nonneg B)
  obtain ⟨seg, hrun, hseg, hsegZero⟩ := trainLosses_eq cv hhyps hfits.masks hlosses
  have hscaled := mul_nonneg hmeanReg h1
  have hsegScaled := mul_nonneg hseg h2.le
  refine ⟨_, (∑ b, (losses b).1) / B + (∑ b, (losses b).2) / B * lambda1 + seg * lambda2, hrun, ?_,
    rfl, by linarith, ?_⟩
  · intro c
    fin_cases c
    · exact hmeanCls
    · exact hmeanReg
    · exact hseg
  · constructor
    · intro htotal
      have hzeroCls : (∑ b, (losses b).1) / (B : ℝ) = 0 := by linarith
      have hzeroSeg : seg * lambda2 = 0 := by linarith
      refine ⟨hsegZero.mp ((mul_eq_zero_iff_right h2.ne').mp hzeroSeg), fun b => ?_⟩
      exact (hclsZero b).mp ((batchMean_zero_iff hcls).mp hzeroCls b)
    · intro hbare
      have hzeroCls := (batchMean_zero_iff hcls).mpr fun b => (hclsZero b).mpr (hbare.2 b)
      have hzeroReg := (batchMean_zero_iff hreg).mpr fun b => by rw [hnone b (hbare.2 b)]
      rw [hzeroCls, hzeroReg, hsegZero.mpr hbare.1, zero_mul, zero_mul, add_zero, add_zero]

end

/-- The default weights. -/
noncomputable def defaultHyps : SegHyps ℝ := ⟨8, 1 / 2, 1 / 2, 1⟩

theorem positive_defaultHyps : Positive defaultHyps := by
  constructor <;> norm_num [defaultHyps]

/-- A batch with one image and no masks. -/
noncomputable def sampleBatch (annotations : List (AnnotRow ℝ)) : TrainBatch 1 1 1 1 1 ℝ :=
  ⟨fun _ => sampleImage annotations, fun _ _ _ => 0, none⟩

theorem fits_sampleBatch {annotations : List (AnnotRow ℝ)}
    (h : ClassesFit (sampleImage annotations)) : Fits (sampleBatch annotations) where
  classes := fun _ => h
  masks := fun _ hmasks => absurd hmasks (Option.some_ne_none _).symm

theorem not_bare_squareAnnot : ¬Bare (sampleBatch [squareAnnot]) :=
  fun hbare => List.cons_ne_nil _ _ (hbare.2 0)

theorem trainLosses_total_square :
    ∃ losses total, trainLosses Cv2.aligned realLoss defaultHyps (sampleBatch [squareAnnot])
        = .ok losses ∧ losses.total 1 1 = .finite total ∧ 0 < total := by
  have h := trainLosses_total Cv2.aligned positive_defaultHyps zero_le_one one_pos
    (sampleBatch [squareAnnot]) (fits_sampleBatch classesFit_squareAnnot)
  obtain ⟨losses, total, hrun, -, htotal, hnonneg, hzero⟩ := h
  have hne : total ≠ 0 := fun h => not_bare_squareAnnot (hzero.mp h)
  exact ⟨losses, total, hrun, htotal, lt_of_le_of_ne hnonneg hne.symm⟩

/-! ### An epoch -/

section
variable {B N C H W : ℕ}

instance (batch : TrainBatch B N C H W ℝ) : Decidable (Bare batch) :=
  inferInstanceAs (Decidable (_ ∧ _))

/-- The batch has annotations, but no masks. -/
def LacksMasks (batch : TrainBatch B N C H W ℝ) : Prop := batch.gtSeg = none ∧ ¬Bare batch

instance (batch : TrainBatch B N C H W ℝ) : Decidable (LacksMasks batch) :=
  inferInstanceAs (Decidable (_ ∧ _))

end

section
variable {B C : ℕ} [NeZero B] [NeZero C] (cv : Cv2 ℝ) {hyps : SegHyps ℝ} {lambda1 lambda2 : ℝ}

/-- One batch of the loop: a bare one is passed over, another one needs masks. -/
theorem trainBatches_cons (hhyps : Positive hyps) (h1 : 0 ≤ lambda1) (h2 : 0 < lambda2)
    {b : SizedBatch B C ℝ} (hfits : Fits b.batch) :
    ∃ losses, trainLosses cv realLoss hyps b.batch = .ok losses ∧
      EpochLoss.outcome lambda1 lambda2 losses = (if Bare b.batch then .skip else .step) ∧
      ∀ i mloss rest, trainBatches cv realLoss hyps lambda1 lambda2 i mloss (b :: rest)
        = if LacksMasks b.batch then .error .runtimeError
          else trainBatches cv realLoss hyps lambda1 lambda2 (i + 1)
            (EpochLoss.update lambda1 lambda2 i mloss losses) rest := by
  obtain ⟨losses, total, hrun, -, htotal, -, hzero⟩ := trainLosses_total cv hhyps h1 h2 b.batch hfits
  have hout : EpochLoss.outcome lambda1 lambda2 losses
      = (if Bare b.batch then .skip else .step) := by
    rw [EpochLoss.outcome, htotal]
    exact if_congr hzero rfl rfl
  refine ⟨losses, hrun, hout, fun i mloss rest => ?_⟩
  rw [trainBatches, hrun, EpochLoss.update, hout]
  simp only [ok_bind, htotal]
  by_cases hbare : Bare b.batch
  · rw [if_neg fun h : LacksMasks b.batch => h.2 hbare, if_pos hbare]
    exact if_pos (hzero.mpr hbare)
  · rw [if_neg hbare, if_pos rfl]
    show (if total = 0 then _ else _) = _
    rw [if_neg (hzero.not.mpr hbare)]
    exact if_congr (Option.isNone_iff_eq_none.trans (and_iff_left hbare).symm) rfl rfl

/-- What the loop returns is the `mloss` of the losses of the batches. -/
theorem trainBatches_eq (hhyps : Positive hyps) (h1 : 0 ≤ lambda1) (h2 : 0 < lambda2)
    (batches : List (SizedBatch B C ℝ)) (hfits : ∀ b ∈ batches, Fits b.batch) :
    ∃ losses, batches.mapM (fun b => trainLosses cv realLoss hyps b.batch) = .ok losses ∧
      losses.map (EpochLoss.outcome lambda1 lambda2)
        = batches.map (fun b => if Bare b.batch then .skip else .step) ∧
      ∀ i mloss, trainBatches cv realLoss hyps lambda1 lambda2 i mloss batches
        = if ∃ b ∈ batches, LacksMasks b.batch then .error .runtimeError
          else .ok (Train.batchLoop lambda1 lambda2 i mloss losses) := by
  induction batches with
  | nil => exact ⟨[], rfl, rfl, fun i mloss => (if_neg (by simp)).symm⟩
  | cons b batches ih =>
      obtain ⟨hb, hrest⟩ := List.forall_mem_cons.mp hfits
      obtain ⟨losses, hrun, houtcomes, hloop⟩ := ih hrest
      obtain ⟨first, hfirst, hout, hcons⟩ := trainBatches_cons cv hhyps h1 h2 hb
      refine ⟨first :: losses, ?_, ?_, fun i mloss => ?_⟩
      · rw [List.mapM_cons, hfirst, hrun]
        rfl
      · rw [List.map_cons, List.map_cons, hout, houtcomes]
      · have hgo : EpochLoss.outcome lambda1 lambda2 first ≠ .stop := by
          rw [hout]
          split <;> exact EpochLoss.Outcome.noConfusion
        have hmem : (∃ a ∈ b :: batches, LacksMasks a.batch) ↔
            LacksMasks b.batch ∨ ∃ a ∈ batches, LacksMasks a.batch := by simp
        rw [hcons, hloop, EpochLoss.batchLoop_cons, if_neg hgo]
        by_cases hraise : LacksMasks b.batch
        · rw [if_pos hraise, if_pos (hmem.mpr (Or.inl hraise))]
        · rw [if_neg hraise]
          exact if_congr (hmem.trans (or_iff_right hraise)).symm rfl rfl

/-- When a step is taken on each batch, the steps are the batches. -/
theorem stepItems_of_steps {losses : List (Train.Losses ℝ)}
    (h : ∀ l ∈ losses, EpochLoss.outcome lambda1 lambda2 l = .step) :
    EpochLoss.stepItems lambda1 lambda2 losses = losses.map Train.Losses.items := by
  have hgo : ∀ l ∈ losses, decide (EpochLoss.outcome lambda1 lambda2 l ≠ .stop) = true := by
    intro l hl
    rw [h l hl]
    rfl
  rw [EpochLoss.stepItems, List.takeWhile_eq_self_iff.mpr hgo,
    List.filter_eq_self.mpr fun l hl => decide_eq_true (h l hl)]

/-- With positive loss weights, an epoch comes to its end exactly when no batch has annotations
without masks. When every batch has masks, none is passed over, and the `mloss` of the epoch is the
mean of the losses over the batches. -/
theorem trainEpoch_returns_iff (hhyps : Positive hyps) (h1 : 0 ≤ lambda1) (h2 : 0 < lambda2)
    (batches : List (SizedBatch B C ℝ)) (hfits : ∀ b ∈ batches, Fits b.batch) :
    ((∃ mloss, trainEpoch cv realLoss hyps lambda1 lambda2 batches = .ok mloss) ↔
        ∀ b ∈ batches, ¬LacksMasks b.batch) ∧
      ((∀ b ∈ batches, b.batch.gtSeg ≠ none) →
        ∃ losses, batches.mapM (fun b => trainLosses cv realLoss hyps b.batch) = .ok losses ∧
          trainEpoch cv realLoss hyps lambda1 lambda2 batches
            = .ok fun c => mean (losses.map fun l => l.items c)) := by
  obtain ⟨losses, hrun, houtcomes, hloop⟩ := trainBatches_eq cv hhyps h1 h2 batches hfits
  constructor
  · rw [trainEpoch, hloop]
    by_cases hraise : ∃ b ∈ batches, LacksMasks b.batch
    · rw [if_pos hraise]
      refine iff_of_false ?_ ?_
      · intro ⟨_, hok⟩
        cases hok
      · intro hnone
        obtain ⟨b, hb, hlacks⟩ := hraise
        exact hnone b hb hlacks
    · rw [if_neg hraise]
      refine iff_of_true ⟨_, rfl⟩ ?_
      intro b hb hlacks
      exact hraise ⟨b, hb, hlacks⟩
  · intro hmasks
    refine ⟨losses, hrun, ?_⟩
    have hraise : ¬∃ b ∈ batches, LacksMasks b.batch := fun ⟨b, hb, hlacks⟩ => hmasks b hb hlacks.1
    -- With masks no batch is bare.
    have hsteps : ∀ l ∈ losses, EpochLoss.outcome lambda1 lambda2 l = .step := by
      intro l hl
      have hmem := List.mem_map_of_mem (f := EpochLoss.outcome lambda1 lambda2) hl
      rw [houtcomes, List.mem_map] at hmem
      obtain ⟨b, hb, hout⟩ := hmem
      rw [← hout, if_neg fun hbare => hmasks b hb hbare.1]
    have hskip : .skip ∉ losses.map (EpochLoss.outcome lambda1 lambda2) := by
      intro hmem
      obtain ⟨l, hl, hout⟩ := List.mem_map.mp hmem
      rw [hsteps l hl] at hout
      exact EpochLoss.Outcome.noConfusion hout
    have hmean : ∀ c, Train.epochLoss lambda1 lambda2 losses c
        = mean (losses.map fun l => l.items c) := by
      intro c
      rw [EpochLoss.epochLoss_eq_mean (EpochLoss.stepsFirst_of_skip_notMem hskip),
        stepItems_of_steps hsteps, List.map_map]
      rfl
    rw [trainEpoch, hloop, if_neg hraise]
    exact congrArg Except.ok (funext hmean)

end

/-- A batch with one image, whose only pixel is wake. -/
noncomputable def maskedBatch : SizedBatch 1 1 ℝ :=
  ⟨1, 1, 1, { sampleBatch [squareAnnot] with gtSeg := some fun _ _ _ => 1 }⟩

theorem fits_maskedBatch : Fits maskedBatch.batch where
  classes := fun _ => classesFit_squareAnnot
  masks := by
    intro masks hmasks
    cases hmasks
    exact fun _ _ _ => ⟨zero_le_one, le_rfl⟩

/-- With masks in both batches, or only in the first. -/
theorem trainEpoch_returns_iff_two :
    (∃ mloss, trainEpoch Cv2.aligned realLoss defaultHyps 1 1 [maskedBatch, maskedBatch] = .ok mloss) ∧
      ¬∃ mloss, trainEpoch Cv2.aligned realLoss defaultHyps 1 1
        [maskedBatch, ⟨1, 1, 1, sampleBatch [squareAnnot]⟩] = .ok mloss := by
  have hmasked : ∀ b ∈ [maskedBatch, maskedBatch], Fits b.batch := by
    intro b hb
    rcases List.mem_pair.mp hb with rfl | rfl
    · exact fits_maskedBatch
    · exact fits_maskedBatch
  have hlacking : ∀ b ∈ [maskedBatch, ⟨1, 1, 1, sampleBatch [squareAnnot]⟩], Fits b.batch := by
    intro b hb
    rcases List.mem_pair.mp hb with rfl | rfl
    · exact fits_maskedBatch
    · exact fits_sampleBatch classesFit_squareAnnot
  constructor
  · refine (trainEpoch_returns_iff Cv2.aligned positive_defaultHyps zero_le_one one_pos _
      hmasked).1.mpr ?_
    intro b hb hlacks
    rcases List.mem_pair.mp hb with rfl | rfl
    · exact absurd hlacks.1 (Option.some_ne_none _)
    · exact absurd hlacks.1 (Option.some_ne_none _)
  · intro hok
    have hnone := (trainEpoch_returns_iff Cv2.aligned positive_defaultHyps zero_le_one one_pos _
      hlacking).1.mp hok
    exact hnone _ (List.mem_pair.mpr (Or.inr rfl)) ⟨rfl, not_bare_squareAnnot⟩

end W2Net.Proofs.TrainingLoss
