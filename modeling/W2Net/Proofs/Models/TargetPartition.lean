import W2Net.Proofs.Models.Losses

/-!
# `W2Net.Proofs.Models.TargetPartition`: positive, negative and ignored anchors

The target matrix is written by four assignments, the later ones over the earlier ones. A forced
anchor can have been written as background before. `writtenTargets_eq` reads the result off:
the last assignment to a row decides, and it is `clsTargets`.

`InSet` names the three sets of anchors without the code. `targets_partition` says that every
anchor is in exactly one of them, what its row is, and that the loss is the one of the anchors
that are not ignored. An IoU matrix without rows does not get here: `ious.max(0)` raises.
-/

set_option autoImplicit false

namespace W2Net.Proofs.TargetPartition

open W2Net.Losses
open W2Net.Proofs.Losses (Eligible positiveIndices_iff iouMax_lt_iff)

variable {K : Type} [Field K] [LinearOrder K] {N M C : ℕ} [NeZero N] [NeZero M]

/-! ### What the assignments write -/

/-- The four assignments write `clsTargets`. -/
theorem writtenTargets_eq (ious : Fin N → Fin M → K) (t : K) (cls : Fin M → Fin C) :
    writtenTargets ious t cls = clsTargets ious t (t - 1 / 10) cls := by
  funext n c
  rw [writtenTargets, fillEntries, fillRows, fillRows, clsTargets]
  by_cases hpos : positiveIndices ious t n = true
  · -- A positive row is written twice at the end.
    by_cases hcls : cls (iouArgmax ious n) = c
    · rw [if_pos ⟨hpos, hcls⟩, if_pos hpos, if_pos hcls]
    · rw [if_neg fun h => hcls h.2, if_pos hpos, if_pos hpos, if_neg hcls]
  · rw [if_neg fun h => hpos h.1, if_neg hpos, if_neg hpos]
    -- Of the other rows, the first assignment has written those below the threshold.
    by_cases hlow : iouMax ious n < t - 1 / 10
    · rw [if_pos (decide_eq_true hlow), if_pos hlow]
    · rw [if_neg (by rwa [decide_eq_true_iff]), if_neg hlow]

/-! ### The three sets -/

/-- The sets of anchors. -/
inductive AnchorSet where
  | positive
  | negative
  | ignored
  deriving DecidableEq

/-- An anchor is positive when its row reaches the threshold or it is the first best anchor of an
annotation that reaches the threshold nowhere. Of the others, it is negative when its whole row
is more than 0.1 below the threshold, and else ignored. -/
def InSet (ious : Fin N → Fin M → K) (t : K) (n : Fin N) : AnchorSet → Prop
  | .positive => Eligible ious t n
  | .negative => ¬Eligible ious t n ∧ ∀ k, ious n k < t - 1 / 10
  | .ignored => ¬Eligible ious t n ∧ ∃ k, t - 1 / 10 ≤ ious n k

omit [NeZero N] [NeZero M] in
theorem existsUnique_inSet (ious : Fin N → Fin M → K) (t : K) (n : Fin N) :
    ∃! set, InSet ious t n set := by
  by_cases hel : Eligible ious t n
  · refine ⟨.positive, hel, fun set hset => ?_⟩
    cases set with
    | positive => rfl
    | negative => exact absurd hel hset.1
    | ignored => exact absurd hel hset.1
  · by_cases hlow : ∀ k, ious n k < t - 1 / 10
    · refine ⟨.negative, ⟨hel, hlow⟩, fun set hset => ?_⟩
      cases set with
      | positive => exact absurd hset hel
      | negative => rfl
      | ignored =>
          obtain ⟨-, k, hk⟩ := hset
          exact absurd (hlow k) hk.not_gt
    · -- Between the two thresholds an anchor is in neither of the other sets.
      have hhigh : ∃ k, t - 1 / 10 ≤ ious n k := by
        obtain ⟨k, hk⟩ := not_forall.mp hlow
        exact ⟨k, not_lt.mp hk⟩
      refine ⟨.ignored, ⟨hel, hhigh⟩, fun set hset => ?_⟩
      cases set with
      | positive => exact absurd hset hel
      | negative => exact absurd hset.2 hlow
      | ignored => rfl

instance (ious : Fin N → Fin M → K) (t : K) (n : Fin N) : Decidable (Eligible ious t n) :=
  decidable_of_iff _ (positiveIndices_iff ious t n)

instance (ious : Fin N → Fin M → K) (t : K) (n : Fin N) (set : AnchorSet) :
    Decidable (InSet ious t n set) :=
  match set with
  | .positive => inferInstanceAs (Decidable (Eligible ious t n))
  | .negative => inferInstanceAs (Decidable (_ ∧ _))
  | .ignored => inferInstanceAs (Decidable (_ ∧ _))

section
variable (ious : Fin N → Fin M → K) (t : K) (cls : Fin M → Fin C) (n : Fin N)

/-- The row of a positive anchor is one-hot at the class of its first best annotation. -/
theorem writtenTargets_positive (h : InSet ious t n .positive) :
    ∃ k, IsFirstMax (ious n) k ∧ ∀ c, writtenTargets ious t cls n c = if c = cls k then 1 else 0 := by
  refine ⟨iouArgmax ious n, isFirstMax_argmax _, fun c => ?_⟩
  rw [writtenTargets_eq, clsTargets, if_pos ((positiveIndices_iff ious t n).mpr h)]
  simp only [eq_comm]

theorem writtenTargets_negative (h : InSet ious t n .negative) (c : Fin C) :
    writtenTargets ious t cls n c = 0 := by
  have hpos : ¬positiveIndices ious t n = true := fun hp => h.1 ((positiveIndices_iff ious t n).mp hp)
  rw [writtenTargets_eq, clsTargets, if_neg hpos, if_pos ((iouMax_lt_iff ious _ n).mpr h.2)]

theorem writtenTargets_ignored (h : InSet ious t n .ignored) (c : Fin C) :
    writtenTargets ious t cls n c = -1 := by
  have hpos : ¬positiveIndices ious t n = true := fun hp => h.1 ((positiveIndices_iff ious t n).mp hp)
  have hlow : ¬iouMax ious n < t - 1 / 10 := by
    obtain ⟨k, hk⟩ := h.2
    exact fun hlt => absurd ((iouMax_lt_iff ious _ n).mp hlt k) hk.not_gt
  rw [writtenTargets_eq, clsTargets, if_neg hpos, if_neg hlow]

end

/-! ### The loss -/

section
variable (tm : TorchMath K) (pow : K → K → K) (alpha gamma : K) (ious : Fin N → Fin M → K) (t : K)
  (cls : Fin M → Fin C) (classification : Fin N → Fin C → K)

/-- What the row of an anchor adds to the loss. -/
def rowLoss (n : Fin N) : K :=
  ∑ c, focalEntry tm pow alpha gamma (writtenTargets ious t cls n c) (classification n c)

theorem rowLoss_ignored {n : Fin N} (h : InSet ious t n .ignored) :
    rowLoss tm pow alpha gamma ious t cls classification n = 0 := by
  refine Finset.sum_eq_zero fun c _ => ?_
  rw [writtenTargets_ignored ious t cls n h c, focalEntry]
  exact if_neg fun hne => hne rfl

theorem numPositiveAnchors_eq :
    numPositiveAnchors ious t = (Finset.univ.filter fun n => InSet ious t n .positive).card := by
  rw [numPositiveAnchors, Finset.card_filter]
  refine Finset.sum_congr rfl fun n _ => ?_
  exact if_congr (positiveIndices_iff ious t n) rfl rfl

/-- The loss is the one of the anchors that are not ignored, divided by the number of positive
ones. -/
theorem clsLoss_eq :
    clsLoss tm pow alpha gamma ious t cls classification
      = (∑ n ∈ Finset.univ.filter fun n => ¬InSet ious t n .ignored,
            rowLoss tm pow alpha gamma ious t cls classification n)
          / max 1 ((Finset.univ.filter fun n => InSet ious t n .positive).card : K) := by
  -- The ignored rows add 0 to the sum.
  have hsum : ∑ n, rowLoss tm pow alpha gamma ious t cls classification n
      = ∑ n ∈ Finset.univ.filter fun n => ¬InSet ious t n .ignored,
          rowLoss tm pow alpha gamma ious t cls classification n := by
    symm
    refine Finset.sum_filter_of_ne ?_
    intro n _ hne hign
    exact hne (rowLoss_ignored tm pow alpha gamma ious t cls classification hign)
  rw [← hsum, ← numPositiveAnchors_eq, max_comm]
  rfl

/-- For every IoU matrix and threshold: every anchor is in exactly one of the three sets. The row of
a positive one is one-hot at the class of its first best annotation, the row of a negative one
is 0, and an ignored one has a row of -1 and no part in the loss. -/
theorem targets_partition :
    (∀ n, (∃! set, InSet ious t n set) ∧
      (InSet ious t n .positive → ∃ k, IsFirstMax (ious n) k ∧
        ∀ c, writtenTargets ious t cls n c = if c = cls k then 1 else 0) ∧
      (InSet ious t n .negative → ∀ c, writtenTargets ious t cls n c = 0) ∧
      (InSet ious t n .ignored → (∀ c, writtenTargets ious t cls n c = -1) ∧
        rowLoss tm pow alpha gamma ious t cls classification n = 0)) ∧
      clsLoss tm pow alpha gamma ious t cls classification
        = (∑ n ∈ Finset.univ.filter fun n => ¬InSet ious t n .ignored,
              rowLoss tm pow alpha gamma ious t cls classification n)
            / max 1 ((Finset.univ.filter fun n => InSet ious t n .positive).card : K) := by
  refine ⟨fun n => ⟨existsUnique_inSet ious t n, ?_, ?_, ?_⟩,
    clsLoss_eq tm pow alpha gamma ious t cls classification⟩
  · exact writtenTargets_positive ious t cls n
  · exact writtenTargets_negative ious t cls n
  · exact fun h => ⟨writtenTargets_ignored ious t cls n h,
      rowLoss_ignored tm pow alpha gamma ious t cls classification h⟩

end

/-! ### Four anchors -/

/-- Two annotations. The first anchor reaches the threshold, the second one is the best of the
second annotation, the third one is ignored and the last one is background. -/
def fourAnchors : Fin 4 → Fin 2 → ℚ :=
  ![![3 / 4, 0], ![0, 1 / 5], ![9 / 20, 0], ![1 / 10, 1 / 10]]

theorem targets_partition_fourAnchors :
    ((∃ k, IsFirstMax (fourAnchors 1) k ∧
        ∀ c, writtenTargets fourAnchors (1 / 2) id 1 c = if c = id k then 1 else 0) ∧
      (∀ c : Fin 2, writtenTargets fourAnchors (1 / 2) id 3 c = 0) ∧
      rowLoss TorchMath.rat (fun x _ => x) (1 / 4) 2 fourAnchors (1 / 2) (id : Fin 2 → Fin 2)
        (fun _ _ => 1 / 2) 2 = 0) := by
  have h := targets_partition TorchMath.rat (fun x _ => x) (1 / 4) 2 fourAnchors (1 / 2)
    (id : Fin 2 → Fin 2) fun _ _ => 1 / 2
  refine ⟨(h.1 1).2.1 ?_, (h.1 3).2.2.1 ?_, ((h.1 2).2.2.2 ?_).2⟩
  all_goals
    decide +kernel

end W2Net.Proofs.TargetPartition
