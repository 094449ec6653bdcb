import W2Net.Proofs.Models.Losses

/-!
# `W2Net.Proofs.Models.Prefilter`: when the pre-filter changes no target

`rbox_overlaps` leaves an entry at 0 when the overlap of the enclosing squares
is below 0.1. The entries left at 0 still take part in the two maxima that
decide the targets.

`prefilter_targets_iff` is the exact condition for the targets to be those of the full matrix
(`TargetsSpared`): the filter spares the entry of each positive anchor with its annotation, and
the anchors that annotations force with the entries that are left are those that are forced
anyway or reach the threshold. The filtered matrix is the full one with zeros (`masked`), and
the best anchors of its columns are the best ones among the pairs that pass (`KeptBest`).

`prefilter_smallBox` is a small annotation inside a large anchor. The filter drops their
overlap, so the annotation forces the first anchor of the list instead.
-/

set_option autoImplicit false

namespace W2Net.Proofs.Losses

open W2Net.Losses

/-! ### A matrix with zeros -/

section
variable {R : Type} [LinearOrder R] [Zero R] {N M : ℕ}
variable (kept : Fin N → Fin M → Prop) [∀ n k, Decidable (kept n k)] (full : Fin N → Fin M → R)

/-- The entries of the pairs that are kept, and 0 for the others. -/
def masked (n : Fin N) (k : Fin M) : R := if kept n k then full n k else 0

/-- The pair has no overlap left. -/
def Gone (n : Fin N) (k : Fin M) : Prop := kept n k → full n k = 0

/-- The annotation reaches the threshold at no anchor that is kept. -/
def KeptLow (t : R) (k : Fin M) : Prop := 0 < t ∧ ∀ m, kept m k → full m k < t

/-- The first best anchor of the annotation among those that are kept. An annotation that has no
overlap left takes the first anchor of the list. -/
def KeptBest [NeZero N] (n : Fin N) (k : Fin M) : Prop :=
  (kept n k ∧ 0 < full n k ∧ ∀ m, kept m k → full m k ≤ full n k ∧ (m < n → full m k < full n k)) ∨
    (n = 0 ∧ ∀ m, Gone kept full m k)

/-- What has to be spared, in terms of the full matrix and the pairs that are kept. -/
structure TargetsSpared [NeZero N] [NeZero M] (t : R) : Prop where
  /-- The entry of an anchor that can be trained on and its annotation is kept or 0 anyway. Where
  it is not, the annotation is the first one and the anchor has no overlap left, and it stays
  positive as the first one, for an annotation that has no overlap left either. -/
  assigned : ∀ n, Eligible full t n → ∀ k, IsFirstMax (full n) k →
    (kept n k ∨ full n k = 0) ∨
      (k = 0 ∧ (∀ k', Gone kept full n k') ∧ (t ≤ 0 ∨ n = 0 ∧ ∃ k', ∀ m, Gone kept full m k'))
  /-- What an annotation forces with the entries that are kept can be trained on. -/
  forced : ∀ k, KeptLow kept full t k → ∀ n, KeptBest kept full n k → Eligible full t n
  /-- An anchor that is below the threshold and can be trained on is still forced. -/
  reached : ∀ n, Eligible full t n → (∀ k, full n k < t) →
    ∃ k, KeptLow kept full t k ∧ KeptBest kept full n k

variable {kept full}

omit [LinearOrder R] in
theorem masked_eq_zero_iff {n : Fin N} {k : Fin M} : masked kept full n k = 0 ↔ Gone kept full n k := by
  unfold masked Gone
  split <;> simp [*]

omit [LinearOrder R] in
theorem masked_of_spared {n : Fin N} {k : Fin M} (h : kept n k ∨ full n k = 0) :
    masked kept full n k = full n k := by
  unfold masked
  split
  · rfl
  · rename_i hkept
    exact (h.resolve_left hkept).symm

section
variable (hfull : ∀ n k, 0 ≤ full n k)
include hfull

theorem masked_nonneg (n : Fin N) (k : Fin M) : 0 ≤ masked kept full n k := by
  unfold masked
  split
  · exact hfull n k
  · exact le_rfl

theorem masked_le (n : Fin N) (k : Fin M) : masked kept full n k ≤ full n k := by
  unfold masked
  split
  · exact le_rfl
  · exact hfull n k

theorem masked_lt_iff [NeZero N] {t : R} {k : Fin M} :
    (∀ m, masked kept full m k < t) ↔ KeptLow kept full t k := by
  constructor
  · intro h
    refine ⟨(masked_nonneg hfull 0 k).trans_lt (h 0), fun m hm => ?_⟩
    have hvalue : masked kept full m k = full m k := masked_of_spared (Or.inl hm)
    exact hvalue ▸ h m
  · rintro ⟨hpos, hlow⟩ m
    unfold masked
    split
    · exact hlow m ‹_›
    · exact hpos

theorem isFirstMax_masked_iff [NeZero N] {n : Fin N} {k : Fin M} :
    IsFirstMax (fun m => masked kept full m k) n ↔ KeptBest kept full n k := by
  constructor
  · intro h
    by_cases hzero : masked kept full n k = 0
    · -- Nothing is left, and the first anchor is the first maximum.
      obtain ⟨hfirst, hall⟩ := h.eq_zero (fun m => masked_nonneg hfull m k) hzero
      exact Or.inr ⟨hfirst, fun m => masked_eq_zero_iff.mp (hall m)⟩
    · have hkept : kept n k := by
        by_contra hkept
        exact hzero (if_neg hkept)
      have hvalue : masked kept full n k = full n k := masked_of_spared (Or.inl hkept)
      refine Or.inl ⟨hkept, ?_, fun m hm => ?_⟩
      · rw [hvalue] at hzero
        exact (hfull n k).lt_of_ne' hzero
      · have hvalue' : masked kept full m k = full m k := masked_of_spared (Or.inl hm)
        rw [← hvalue, ← hvalue']
        exact ⟨h.le m, h.lt m⟩
  · rintro (⟨hkept, hpos, hbest⟩ | ⟨rfl, hgone⟩)
    · have hvalue : masked kept full n k = full n k := masked_of_spared (Or.inl hkept)
      constructor
      · intro m
        show masked kept full m k ≤ masked kept full n k
        rw [hvalue]
        by_cases hm : kept m k
        · rw [masked_of_spared (Or.inl hm)]
          exact (hbest m hm).1
        · rw [masked, if_neg hm]
          exact hpos.le
      · intro m hmn
        show masked kept full m k < masked kept full n k
        rw [hvalue]
        by_cases hm : kept m k
        · rw [masked_of_spared (Or.inl hm)]
          exact (hbest m hm).2 hmn
        · rw [masked, if_neg hm]
          exact hpos
    · have hzero : ∀ m, masked kept full m k = 0 := fun m => masked_eq_zero_iff.mpr (hgone m)
      exact isFirstMax_zero fun m => (hzero m).trans (hzero 0).symm

variable [NeZero N] [NeZero M]

omit [NeZero M] in
theorem eligible_masked_iff {t : R} {n : Fin N} :
    Eligible (masked kept full) t n ↔
      (∃ k, t ≤ masked kept full n k) ∨ ∃ k, KeptLow kept full t k ∧ KeptBest kept full n k := by
  unfold Eligible
  simp only [masked_lt_iff hfull, isFirstMax_masked_iff hfull]

/-- An anchor that keeps its annotation has the entry spared, or loses its whole row. -/
theorem spared_of_row {t : R} {n : Fin N} {k : Fin M} (hn : Eligible (masked kept full) t n)
    (hk : IsFirstMax (masked kept full n) k) :
    (kept n k ∨ full n k = 0) ∨
      (k = 0 ∧ (∀ k', Gone kept full n k') ∧ (t ≤ 0 ∨ n = 0 ∧ ∃ k', ∀ m, Gone kept full m k')) := by
  by_cases hkept : kept n k
  · exact Or.inl (Or.inl hkept)
  · -- The entry becomes 0 and is the first maximum of its row.
    have hzero : masked kept full n k = 0 := if_neg hkept
    obtain ⟨hfirst, hall⟩ := hk.eq_zero (masked_nonneg hfull n) hzero
    have hgone : ∀ k', Gone kept full n k' := fun k' => masked_eq_zero_iff.mp (hall k')
    refine Or.inr ⟨hfirst, hgone, ?_⟩
    rcases (eligible_masked_iff hfull).mp hn with ⟨k', hk'⟩ | ⟨k', -, hbest⟩
    · exact Or.inl (hk'.trans (hall k').le)
    · rcases hbest with ⟨hkept', hpos, -⟩ | hnone
      · exact absurd (hgone k' hkept') hpos.ne'
      · exact Or.inr ⟨hnone.1, k', hnone.2⟩

/-- The first best annotation of an anchor that can be trained on stays. -/
theorem TargetsSpared.row {t : R} (h : TargetsSpared kept full t) {n : Fin N} {k : Fin M}
    (hn : Eligible full t n) (hk : IsFirstMax (full n) k) : IsFirstMax (masked kept full n) k := by
  rcases h.assigned n hn k hk with hspared | ⟨rfl, hgone, -⟩
  · exact hk.of_le (masked_le hfull n) (masked_of_spared hspared)
  · have hzero : ∀ k', masked kept full n k' = 0 := fun k' => masked_eq_zero_iff.mpr (hgone k')
    exact isFirstMax_zero fun k' => (hzero k').trans (hzero 0).symm

/-- The same anchors can be trained on. -/
theorem TargetsSpared.eligible_iff {t : R} (h : TargetsSpared kept full t) (n : Fin N) :
    Eligible (masked kept full) t n ↔ Eligible full t n := by
  rw [eligible_masked_iff hfull]
  constructor
  · rintro (⟨k, hk⟩ | ⟨k, hk, hbest⟩)
    · exact Or.inl ⟨k, hk.trans (masked_le hfull n k)⟩
    · exact h.forced k hk n hbest
  · intro hn
    by_cases hlow : ∀ k, full n k < t
    · exact Or.inr (h.reached n hn hlow)
    · push Not at hlow
      have hmax := isFirstMax_argmax (full n)
      have hreach : t ≤ full n (argmax (full n)) := (hmax.le_iff t).mpr hlow
      rcases h.assigned n hn _ hmax with hspared | ⟨-, -, hlost⟩
      · exact Or.inl ⟨_, hreach.trans (masked_of_spared hspared).ge⟩
      · by_cases ht : t ≤ 0
        · exact Or.inl ⟨argmax (full n), ht.trans (masked_nonneg hfull n _)⟩
        · -- The first anchor is forced by an annotation without an overlap.
          obtain ⟨rfl, k, hk⟩ := hlost.resolve_left ht
          exact Or.inr ⟨k, ⟨not_le.mp ht, fun m hm => (hk m hm).trans_lt (not_le.mp ht)⟩,
            Or.inr ⟨rfl, hk⟩⟩

/-- The zeros change neither the anchors that can be trained on nor their annotations exactly
when the deciding entries are spared. -/
theorem targets_masked_iff (t : R) :
    ((∀ n, Eligible (masked kept full) t n ↔ Eligible full t n) ∧
      ∀ n, Eligible full t n → ∀ k, IsFirstMax (full n) k → IsFirstMax (masked kept full n) k) ↔
    TargetsSpared kept full t := by
  constructor
  · rintro ⟨heligible, hrow⟩
    refine ⟨fun n hn k hk => ?_, fun k hk n hn => ?_, fun n hn hlow => ?_⟩
    · exact spared_of_row hfull ((heligible n).mpr hn) (hrow n hn k hk)
    · exact (heligible n).mp ((eligible_masked_iff hfull).mpr (Or.inr ⟨k, hk, hn⟩))
    · -- The anchor does not reach the threshold with the entries that are kept either.
      rcases (eligible_masked_iff hfull).mp ((heligible n).mpr hn) with ⟨k, hk⟩ | hforced
      · exact absurd (hk.trans (masked_le hfull n k)) (not_le.mpr (hlow k))
      · exact hforced
  · intro h
    exact ⟨h.eligible_iff hfull, fun n hn k hk => h.row hfull hn hk⟩

end

end

/-! ### The filtered matrix -/

section
variable {K : Type} [Field K] [LinearOrder K] [IsStrictOrderedRing K] [FloorRing K] (cv : Cv2 K)

/-- Both sides of a box are longer than 2, as `mask_valid_boxes` requires. -/
def LongSides (b : RBox K) : Prop := 2 < b.rect.w ∧ 2 < b.rect.h

/-- The overlap of an anchor and a valid box is not negative. Rounding adds at
most one half to the area, and the area of the box is more than that. -/
theorem overlapEntry_nonneg (hcv : cv.AreaBounded) {box query : RBox K} (hbox : box.Positive)
    (hquery : LongSides query) : 0 ≤ RboxOverlaps.overlapEntry cv box query := by
  obtain ⟨hw, hh⟩ := hbox
  obtain ⟨hqw, hqh⟩ := hquery
  have harea : 0 < box.area := mul_pos hw hh
  have hqarea : 4 < query.area := by
    show 4 < query.rect.w * query.rect.h
    nlinarith
  unfold RboxOverlaps.overlapEntry
  simp only [add_sub_cancel_right]
  split_ifs
  · -- A partial intersection.
    have hbound := hcv box.rect query.rect hw hh (by linarith) (by linarith)
    have hle : cv.area box.rect query.rect ≤ box.area := hbound.trans (min_le_left _ _)
    have hround := pyRound_le (cv.area box.rect query.rect)
    have hnonneg : (0 : K) ≤ pyRound (cv.area box.rect query.rect) :=
      Int.cast_nonneg (pyRound_nonneg (abs_nonneg _))
    exact div_nonneg hnonneg (by linarith)
  · -- One box inside the other.
    have hle : min box.area query.area ≤ box.area := min_le_left _ _
    exact div_nonneg (le_min harea.le (by linarith)) (by linarith)
  · exact le_refl 0

variable {N M : ℕ} (anchors : Fin N → RBox K) (boxes : Fin M → RBox K)

/-- The matrix without the pre-filter. -/
def fullIous : Fin N → Fin M → K := RboxOverlaps.rboxOverlaps cv anchors boxes none (1 / 10)

/-- The indicator lets the pair pass. -/
def Passes (n : Fin N) (k : Fin M) : Prop := 1 / 10 ≤ indicator anchors boxes n k

instance (n : Fin N) (k : Fin M) : Decidable (Passes anchors boxes n k) :=
  inferInstanceAs (Decidable (_ ≤ _))

omit [IsStrictOrderedRing K] in
theorem ious_eq_masked :
    ious cv anchors boxes = masked (Passes anchors boxes) (fullIous cv anchors boxes) := by
  funext n k
  show (if indicator anchors boxes n k < 1 / 10 then 0 else fullIous cv anchors boxes n k)
    = if 1 / 10 ≤ indicator anchors boxes n k then fullIous cv anchors boxes n k else 0
  by_cases h : indicator anchors boxes n k < 1 / 10
  · rw [if_pos h, if_neg (not_le.mpr h)]
  · rw [if_neg h, if_pos (not_lt.mp h)]

variable [NeZero N] [NeZero M]

/-- The pre-filter changes neither the positive anchors nor the annotations they are assigned
exactly when it spares the entries that decide them. -/
theorem prefilter_targets_iff (hcv : cv.AreaBounded) (hanchors : ∀ n, (anchors n).Positive)
    (hboxes : ∀ k, LongSides (boxes k)) (t : K) :
    ((∀ n, positiveIndices (ious cv anchors boxes) t n
        = positiveIndices (fullIous cv anchors boxes) t n) ∧
      ∀ n, positiveIndices (fullIous cv anchors boxes) t n = true →
        iouArgmax (ious cv anchors boxes) n = iouArgmax (fullIous cv anchors boxes) n) ↔
    TargetsSpared (Passes anchors boxes) (fullIous cv anchors boxes) t := by
  have hnonneg : ∀ n k, 0 ≤ fullIous cv anchors boxes n k :=
    fun n k => overlapEntry_nonneg cv hcv (hanchors n) (hboxes k)
  rw [← targets_masked_iff hnonneg, ← ious_eq_masked]
  have hpositive : ∀ n, positiveIndices (ious cv anchors boxes) t n
      = positiveIndices (fullIous cv anchors boxes) t n ↔
        (Eligible (ious cv anchors boxes) t n ↔ Eligible (fullIous cv anchors boxes) t n) := by
    intro n
    rw [Bool.eq_iff_iff, positiveIndices_iff, positiveIndices_iff]
  simp only [hpositive, positiveIndices_iff, iouArgmax_eq_iff]
  refine and_congr_right fun _ => forall_congr' fun n => imp_congr_right fun _ => ?_
  constructor
  · intro hfirst k hk
    rwa [(iouArgmax_eq_iff _ n k).mpr hk] at hfirst
  · intro hrow
    exact hrow _ (isFirstMax_argmax _)

end

/-! ### A small annotation -/

/-- Two anchors. The second has sides 16, the first lies far away. -/
def farAnchors : Fin 2 → RBox ℚ := ![⟨100, 100, 116, 116, 0⟩, ⟨0, 0, 16, 16, 0⟩]

/-- An annotation with sides 3 inside the second anchor. -/
def smallBox : Fin 1 → RBox ℚ := ![⟨5, 5, 8, 8, 0⟩]

/-- The overlap of the small annotation is 9/256, and so is the indicator. The
filter drops it. Then the annotation forces the first anchor, which it does not
touch. -/
theorem prefilter_smallBox :
    (∀ k, 2 < (smallBox k).rect.w ∧ 2 < (smallBox k).rect.h) ∧
      ¬ ((∀ n, positiveIndices (ious Cv2.aligned farAnchors smallBox) (1 / 2) n
          = positiveIndices (fullIous Cv2.aligned farAnchors smallBox) (1 / 2) n) ∧
        ∀ n, positiveIndices (fullIous Cv2.aligned farAnchors smallBox) (1 / 2) n = true →
          iouArgmax (ious Cv2.aligned farAnchors smallBox) n
            = iouArgmax (fullIous Cv2.aligned farAnchors smallBox) n) := by
  decide +kernel

/-- An annotation with sides 8 inside the second anchor. -/
def mediumBox : Fin 1 → RBox ℚ := ![⟨4, 4, 12, 12, 0⟩]

/-- The overlap of the larger annotation is 64/256, which the filter spares. -/
theorem prefilter_mediumBox :
    TargetsSpared (Passes farAnchors mediumBox) (fullIous Cv2.aligned farAnchors mediumBox) (1 / 2) :=
  (prefilter_targets_iff Cv2.aligned farAnchors mediumBox Cv2.aligned_areaBounded
    (by unfold RBox.Positive; decide +kernel) (by unfold LongSides; decide +kernel) (1 / 2)).mp
    (by decide +kernel)

end W2Net.Proofs.Losses
