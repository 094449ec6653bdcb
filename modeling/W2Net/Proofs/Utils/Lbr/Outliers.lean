import W2Net.Utils.Lbr.Outliers

/-!
# `W2Net.Proofs.Utils.Lbr.Outliers`: when the filter removes the outliers

`remove_outliers_mad` returns the list unchanged when the median deviation is 0.
The comment there says that all values are the same. They are not when one value
makes up more than half of the list (`medianAbsDev_eq_zero_iff`), and then every
outlier stays. `removesOutliers_iff` says that this is the only case.
-/

set_option autoImplicit false

namespace W2Net.Proofs.Lbr

open W2Net.Lbr

variable {K : Type} [Field K] [LinearOrder K]

/-- One value makes up more than half of the list. -/
def HasMajority (values : List K) : Prop := ∃ c, values.length < 2 * values.count c

/-- All values are equal. -/
def AllEqual (values : List K) : Prop := ∀ v ∈ values, ∀ w ∈ values, v = w

/-- What the filter is for: at least half of the values stay, in their order, and
none that lies `thresh` scaled median deviations or more from the median. -/
structure RemovesOutliers (values : List K) (thresh : K) (result : List K) : Prop where
  sublist : result.Sublist values
  half : values.length ≤ 2 * result.length
  near : ∀ v ∈ result, |v - npMedian values| ≠ 0 →
    |v - npMedian values| < thresh * (14826 / 10 ^ 4) * medianAbsDev values

theorem removeOutliersMad_of_zero {values : List K} {thresh : K}
    (h : medianAbsDev values = 0) : removeOutliersMad values thresh = values := by
  unfold removeOutliersMad
  split
  · rfl
  · exact if_pos h

theorem removeOutliersMad_of_ne_zero {values : List K} {thresh : K} (hlen : 3 ≤ values.length)
    (h : medianAbsDev values ≠ 0) :
    removeOutliersMad values thresh = values.filter fun v =>
      decide (|v - npMedian values| / (medianAbsDev values * (14826 / 10 ^ 4)) < thresh) := by
  rw [removeOutliersMad, if_neg (by omega)]
  exact if_neg h

theorem absDev_ne_nil {values : List K} (h : values ≠ []) : absDev values ≠ [] := by
  simpa [absDev] using h

variable [IsStrictOrderedRing K]

theorem absDev_nonneg {values : List K} {d : K} (hd : d ∈ absDev values) : 0 ≤ d := by
  obtain ⟨v, -, rfl⟩ := List.mem_map.mp hd
  exact abs_nonneg _

/-- The distances up to 0 belong to the values at the median. -/
theorem countP_absDev_le_zero (values : List K) :
    (absDev values).countP (fun d => decide (d ≤ 0)) = values.count (npMedian values) := by
  rw [absDev, List.countP_map, List.count]
  refine List.countP_congr fun v _ => ?_
  simp [sub_eq_zero]

theorem medianAbsDev_nonneg {values : List K} (hne : values ≠ []) : 0 ≤ medianAbsDev values := by
  obtain ⟨lo, hlo, hi, hhi, hrange⟩ := exists_range (absDev_ne_nil hne)
  exact (absDev_nonneg hlo).trans (npMedian_mem_range (absDev_ne_nil hne) hrange).1

/-- The median deviation is 0 exactly when one value makes up more than half of
the list, whatever the other values are. -/
theorem medianAbsDev_eq_zero_iff {values : List K} (hne : values ≠ []) :
    medianAbsDev values = 0 ↔ HasMajority values := by
  have hlength : (absDev values).length = values.length := List.length_map _
  constructor
  · intro hzero
    refine ⟨npMedian values, ?_⟩
    have hmost := length_lt_two_mul_countP_of_npMedian_le (absDev_ne_nil hne)
      (fun d hd => absDev_nonneg hd) hzero.le
    rwa [hlength, countP_absDev_le_zero] at hmost
  · rintro ⟨c, hc⟩
    have hmed : npMedian values = c := npMedian_eq_of_majority hc
    apply npMedian_eq_of_majority
    -- The values at the median have the distance 0.
    have hcount : values.count c ≤ (absDev values).count 0 := by
      rw [absDev, List.count, List.count, List.countP_map]
      refine List.countP_mono_left fun v _ hv => ?_
      simpa [hmed, sub_eq_zero] using hv
    omega

/-- Without a majority, half of the values are not farther from the median than
the median deviation, and they stay. -/
theorem half_removeOutliersMad {values : List K} {thresh : K} (hlen : 3 ≤ values.length)
    (hthresh : 1 ≤ thresh) (hmad : medianAbsDev values ≠ 0) :
    values.length ≤ 2 * (removeOutliersMad values thresh).length := by
  have hne : values ≠ [] := List.ne_nil_of_length_pos (by omega)
  have hpos : 0 < medianAbsDev values := (medianAbsDev_nonneg hne).lt_of_ne' hmad
  have hhalf := length_le_two_mul_countP_le_npMedian (absDev_ne_nil hne)
  have hlength : (absDev values).length = values.length := List.length_map _
  have hstay : (absDev values).countP (fun d => decide (d ≤ medianAbsDev values))
      ≤ (removeOutliersMad values thresh).length := by
    rw [removeOutliersMad_of_ne_zero hlen hmad, ← List.countP_eq_length_filter, absDev,
      List.countP_map]
    refine List.countP_mono_left fun v _ hv => ?_
    have hnear : |v - npMedian values| ≤ medianAbsDev values := of_decide_eq_true hv
    apply decide_eq_true
    -- The factor 1.4826 is above 1, so the median deviation itself passes the test.
    rw [div_lt_iff₀ (by positivity)]
    calc |v - npMedian values| ≤ medianAbsDev values := hnear
      _ < medianAbsDev values * (14826 / 10 ^ 4) := by linarith
      _ ≤ thresh * (medianAbsDev values * (14826 / 10 ^ 4)) :=
        le_mul_of_one_le_left (by positivity) hthresh
  rw [hlength] at hhalf
  exact hhalf.trans (Nat.mul_le_mul_left 2 hstay)

/-- With a median deviation other than 0 the filter does what it is for. -/
theorem removesOutliers_of_ne_zero {values : List K} {thresh : K} (hlen : 3 ≤ values.length)
    (hthresh : 1 ≤ thresh) (hmad : medianAbsDev values ≠ 0) :
    RemovesOutliers values thresh (removeOutliersMad values thresh) where
  sublist := by
    rw [removeOutliersMad_of_ne_zero hlen hmad]
    exact List.filter_sublist
  half := half_removeOutliersMad hlen hthresh hmad
  near := by
    have hne : values ≠ [] := List.ne_nil_of_length_pos (by omega)
    have hpos : 0 < medianAbsDev values := (medianAbsDev_nonneg hne).lt_of_ne' hmad
    intro v hv _
    rw [removeOutliersMad_of_ne_zero hlen hmad, List.mem_filter, decide_eq_true_iff,
      div_lt_iff₀ (by positivity)] at hv
    calc |v - npMedian values|
        < thresh * (medianAbsDev values * (14826 / 10 ^ 4)) := hv.2
      _ = thresh * (14826 / 10 ^ 4) * medianAbsDev values := by ring

/-- A list with a majority comes back as it is, which is right only without an outlier. -/
theorem removesOutliers_self_iff {values : List K} {thresh : K} (hmajor : HasMajority values) :
    RemovesOutliers values thresh values ↔ AllEqual values := by
  obtain ⟨c, hc⟩ := hmajor
  have hmed : npMedian values = c := npMedian_eq_of_majority hc
  have hcmem : c ∈ values := List.count_pos_iff.mp (by omega)
  have hmad := (medianAbsDev_eq_zero_iff (List.ne_nil_of_mem hcmem)).mpr ⟨c, hc⟩
  constructor
  · intro hremoves
    have hall : ∀ v ∈ values, v = c := by
      intro v hv
      by_contra hvc
      have hdev : |v - npMedian values| ≠ 0 := by
        rwa [hmed, abs_ne_zero, sub_ne_zero]
      have hlt := hremoves.near v hv hdev
      -- With a median deviation of 0, no other value is near the median.
      rw [hmad, mul_zero] at hlt
      exact absurd hlt (not_lt.mpr (abs_nonneg _))
    intro v hv w hw
    rw [hall v hv, hall w hw]
  · intro hequal
    refine ⟨List.Sublist.refl _, by omega, fun v hv hdev => ?_⟩
    rw [hmed, hequal v hv c hcmem, sub_self, abs_zero] at hdev
    exact absurd rfl hdev

/-- The filter removes the outliers exactly when no value makes up more than half
of the list, or all values are equal. -/
theorem removesOutliers_iff {values : List K} {thresh : K} (hlen : 3 ≤ values.length)
    (hthresh : 1 ≤ thresh) :
    RemovesOutliers values thresh (removeOutliersMad values thresh) ↔
      (∀ c, 2 * values.count c ≤ values.length) ∨ AllEqual values := by
  have hne : values ≠ [] := List.ne_nil_of_length_pos (by omega)
  by_cases hmajor : HasMajority values
  · -- The median deviation is 0, and the list comes back as it is.
    rw [removeOutliersMad_of_zero ((medianAbsDev_eq_zero_iff hne).mpr hmajor),
      removesOutliers_self_iff hmajor]
    obtain ⟨c, hc⟩ := hmajor
    exact (or_iff_right fun hnone => absurd (hnone c) (by omega)).symm
  · have hmad : medianAbsDev values ≠ 0 := fun h => hmajor ((medianAbsDev_eq_zero_iff hne).mp h)
    have hnone : ∀ c, 2 * values.count c ≤ values.length := by
      intro c
      by_contra hc
      exact hmajor ⟨c, by omega⟩
    exact iff_of_true (removesOutliers_of_ne_zero hlen hthresh hmad) (Or.inl hnone)

/-- Two equal values out of three: the third one stays, however far away. -/
theorem farValue_stays :
    removeOutliersMad [1, 1, 100] (3 : ℚ) = [1, 1, 100] ∧ npMedian [1, 1, (100 : ℚ)] = 1 ∧
      medianAbsDev [1, 1, (100 : ℚ)] = 0 ∧
      ¬ RemovesOutliers [1, 1, 100] (3 : ℚ) (removeOutliersMad [1, 1, 100] 3) := by
  have hresult : removeOutliersMad [1, 1, 100] (3 : ℚ) = [1, 1, 100] := by decide +kernel
  have hmed : npMedian [1, 1, (100 : ℚ)] = 1 := by decide +kernel
  have hmad : medianAbsDev [1, 1, (100 : ℚ)] = 0 := by decide +kernel
  refine ⟨hresult, hmed, hmad, fun hremoves => ?_⟩
  have hnear := hremoves.near 100 (by rw [hresult]; decide)
  rw [hmed, hmad] at hnear
  norm_num at hnear

/-- The equivalence for four values with a far one, which the filter removes. -/
theorem removesOutliers_iff_fourValues :
    RemovesOutliers [1, 2, 3, 100] (3 : ℚ) (removeOutliersMad [1, 2, 3, 100] 3) ↔
      (∀ c, 2 * [1, 2, 3, (100 : ℚ)].count c ≤ 4) ∨ AllEqual [1, 2, 3, (100 : ℚ)] :=
  removesOutliers_iff (by decide) (by norm_num)

end W2Net.Proofs.Lbr
