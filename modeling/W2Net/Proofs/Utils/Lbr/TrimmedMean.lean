import Mathlib.Algebra.Order.BigOperators.Group.List
import W2Net.Proofs.Utils.Lbr.Midline

/-!
# `W2Net.Proofs.Utils.Lbr.TrimmedMean`: one outlier does not move the mean gap away

The mean gap of `calc_wave_gaps_along_short_midline` leaves out one smallest and
one largest gap. A gap that stays has a gap on each side of it in the order of
size (`mem_trimmedGaps`). One of the two neighbours on each side may be an outlier,
the gap itself may be, but not both, so that the gap lies in the range of the
other ones. With it the mean does (`npMean_trimmedGaps_set`).
-/

set_option autoImplicit false

namespace W2Net.Proofs.Lbr

open W2Net.Lbr

variable {K : Type} [Field K] [LinearOrder K]

/-- What stays are the gaps between the first and the last one by size. -/
theorem mem_trimmedGaps {gaps : List K} (h : 3 ≤ gaps.length) {t : K}
    (ht : t ∈ trimmedGaps gaps) :
    ∃ k, 1 ≤ k ∧ k + 1 < gaps.length ∧ t = orderStat gaps k := by
  rw [trimmedGaps_of_three_le h] at ht
  obtain ⟨j, hj, rfl⟩ := List.getElem_of_mem ht
  rw [List.length_dropLast, List.length_drop, length_npSort] at hj
  have hlt : j + 1 < (npSort gaps).length := by
    rw [length_npSort]
    omega
  refine ⟨j + 1, by omega, by omega, ?_⟩
  rw [orderStat_eq_getElem hlt, List.getElem_dropLast, List.getElem_drop]
  simp only [Nat.add_comm]

variable [IsStrictOrderedRing K]

/-- The mean of values in a range is in the range. -/
theorem npMean_mem_range {xs : List K} (hne : xs ≠ []) {lo hi : K}
    (h : ∀ x ∈ xs, lo ≤ x ∧ x ≤ hi) : lo ≤ npMean xs ∧ npMean xs ≤ hi := by
  have hpos : (0 : K) < xs.length := Nat.cast_pos.mpr (List.length_pos_of_ne_nil hne)
  have hlow := List.card_nsmul_le_sum xs lo fun x hx => (h x hx).1
  have hhigh := List.sum_le_card_nsmul xs hi fun x hx => (h x hx).2
  rw [nsmul_eq_mul] at hlow hhigh
  constructor
  · rw [npMean, le_div_iff₀ hpos, mul_comm]
    exact hlow
  · rw [npMean, div_le_iff₀ hpos, mul_comm]
    exact hhigh

/-- Whatever one entry becomes, the mean stays in the range of the other entries. -/
theorem npMean_trimmedGaps_set {gaps : List K} (h : 3 ≤ gaps.length) {i : ℕ}
    (hi : i < gaps.length) (x : K) {lo up : K} (hrange : ∀ y ∈ gaps.eraseIdx i, lo ≤ y ∧ y ≤ up) :
    lo ≤ npMean (trimmedGaps (gaps.set i x)) ∧ npMean (trimmedGaps (gaps.set i x)) ≤ up := by
  have hlen : (gaps.eraseIdx i).length + 1 = gaps.length := by
    rw [List.length_eraseIdx_of_lt hi]
    omega
  have hthree : 3 ≤ (x :: gaps.eraseIdx i).length := by rwa [List.length_cons, hlen]
  -- The mean does not depend on the order, so the new value may stand in front.
  rw [← npMean_trimmedGaps_perm (set_perm_cons_eraseIdx gaps hi x).symm]
  apply npMean_mem_range
  · rw [trimmedGaps_of_three_le hthree]
    apply List.ne_nil_of_length_pos
    rw [List.length_dropLast, List.length_drop, length_npSort]
    omega
  · intro t ht
    obtain ⟨k, hk, hk', rfl⟩ := mem_trimmedGaps hthree ht
    exact orderStat_cons_mem_range hrange hk (by rw [List.length_cons] at hk'; omega)

variable [FloorRing K] {C : Type} (m : PyMath K) (pp : PyProj K C) (ds : Raster K C)

/-- With three gaps or more, the function returns the trimmed mean. It does not
depend on the order of the gaps, and with any one of them replaced by any value it
stays between the smallest and the largest of the others. -/
theorem waveGaps_trimmedMean :
    (∀ (mask : BinMask) (quad : Quad K) (result : WaveGaps K),
        result = calcWaveGapsAlongShortMidline m pp ds mask quad → 3 ≤ result.gapDistsM.length →
        result.gapMeanM = some (npMean (trimmedGaps result.gapDistsM))) ∧
      ∀ gaps : List K, 3 ≤ gaps.length →
        (∀ gaps', gaps'.Perm gaps →
          npMean (trimmedGaps gaps') = npMean (trimmedGaps gaps)) ∧
        ∀ i < gaps.length, ∀ x, ∃ lo ∈ gaps.eraseIdx i, ∃ hi ∈ gaps.eraseIdx i,
          (∀ y ∈ gaps.eraseIdx i, lo ≤ y ∧ y ≤ hi) ∧
            lo ≤ npMean (trimmedGaps (gaps.set i x)) ∧
            npMean (trimmedGaps (gaps.set i x)) ≤ hi := by
  constructor
  · rintro mask quad result rfl hthree
    simp only [calcWaveGapsAlongShortMidline] at hthree ⊢
    split
    · rename_i hnone
      -- Without a gap there is no list of three.
      rw [if_pos hnone] at hthree
      exact absurd hthree (by simp)
    · rfl
  · intro gaps hthree
    refine ⟨fun gaps' hperm => npMean_trimmedGaps_perm hperm, fun i hi x => ?_⟩
    have hne : gaps.eraseIdx i ≠ [] := by
      apply List.ne_nil_of_length_pos
      rw [List.length_eraseIdx_of_lt hi]
      omega
    obtain ⟨lo, hlo, up, hup, hrange⟩ := exists_range hne
    exact ⟨lo, hlo, up, hup, hrange, npMean_trimmedGaps_set hthree hi x hrange⟩

/-- Of three gaps one stays. When an outlier takes the place of the middle one, the
largest of the others does. -/
theorem waveGaps_trimmedMean_three :
    npMean (trimmedGaps [(3 : ℚ), 1, 2]) = npMean (trimmedGaps [1, 2, 3]) ∧
      ∃ lo ∈ [(1 : ℚ), 3], ∃ hi ∈ [(1 : ℚ), 3], (∀ y ∈ [(1 : ℚ), 3], lo ≤ y ∧ y ≤ hi) ∧
        lo ≤ npMean (trimmedGaps [1, 100, 3]) ∧ npMean (trimmedGaps [1, 100, 3]) ≤ hi := by
  have h := (waveGaps_trimmedMean PyMath.rat planePyProj metreRaster).2 [1, 2, 3] (by decide)
  exact ⟨h.1 [3, 1, 2] (by decide), h.2 1 (by decide) 100⟩

end W2Net.Proofs.Lbr
