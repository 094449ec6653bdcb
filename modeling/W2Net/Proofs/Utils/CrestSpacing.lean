import W2Net.Proofs.Utils.ScaledLabels
import W2Net.Utils.CrestSpacing

/-!
# `W2Net.Proofs.Utils.CrestSpacing`: the wavelength exists and is invariant

With two components or more, `estimate_wavelength_from_mask` returns a wavelength.
The filter keeps the middle one of the spacings, since it lies between the two
quartiles (`iqrFilter_ne_nil`). The wavelength depends on the spacings only up to
their order (`lambdaPx_perm`), and the spacings are the same for the opposite
heading, for moved components and for any order of the components
(`adjacentSpacings_neg`, `adjacentSpacings_translate`, `adjacentSpacings_perm`).
-/

set_option autoImplicit false

namespace W2Net.Proofs.CrestSpacing

open W2Net.CrestSpacing
open W2Net.Proofs.ScaledLabels (realMath)

variable {K : Type} [Field K] [LinearOrder K] [FloorRing K]

/-! ### The filter -/

theorem iqrFilter_sublist (spacings : List K) : (iqrFilter spacings).Sublist spacings := by
  unfold iqrFilter
  split
  · exact List.filter_sublist
  · exact List.Sublist.refl _

/-- The filter looks at the spacings up to their order. -/
theorem iqrFilter_perm {xs ys : List K} (h : xs.Perm ys) : (iqrFilter xs).Perm (iqrFilter ys) := by
  simp only [iqrFilter, h.length_eq, npPercentile_eq_of_perm h]
  split
  · exact h.filter _
  · exact h

/-- The wavelength depends on the spacings up to their order. -/
theorem lambdaPx_perm {cs cs' : List (K × K)} {v v' : K × K} (hlen : cs'.length = cs.length)
    (h : (adjacentSpacings cs' v').Perm (adjacentSpacings cs v)) :
    (spacingInfo cs' v').lambdaPx = (spacingInfo cs v).lambdaPx := by
  have hperm := iqrFilter_perm h
  simp only [spacingInfo, hlen, hperm.length_eq, npMedian_eq_of_perm hperm]
  split
  · rfl
  · split <;> rfl

variable [IsStrictOrderedRing K]

omit [FloorRing K] in
/-- The spacings are not negative. -/
theorem adjacentSpacings_nonneg {centroids : List (K × K)} {v : K × K} {d : K}
    (hd : d ∈ adjacentSpacings centroids v) : 0 ≤ d :=
  npDiff_nonneg (pairwise_npSort _) hd

/-- The filter keeps the middle spacing: a quarter of the places is in front of it
and a quarter is behind it. -/
theorem iqrFilter_ne_nil {spacings : List K} (hne : spacings ≠ [])
    (hpos : ∀ d ∈ spacings, 0 ≤ d) : iqrFilter spacings ≠ [] := by
  unfold iqrFilter
  split
  · rename_i hlen
    obtain ⟨k, hk⟩ : ∃ k, k = (spacings.length - 1) / 2 := ⟨_, rfl⟩
    have hlt : k < spacings.length := by omega
    -- The place `k` is between the places of the two quartiles.
    have hquarter : ((spacings.length - 1 : ℕ) : K) ≤ 4 * k := by
      exact_mod_cast (show spacings.length - 1 ≤ 4 * k by omega)
    have hquarter' : (4 : K) * k ≤ 3 * ((spacings.length - 1 : ℕ) : K) := by
      exact_mod_cast (show 4 * k ≤ 3 * (spacings.length - 1) by omega)
    have hq1 : npPercentile spacings 25 ≤ orderStat spacings k :=
      npPercentile_le_orderStat (by norm_num) hlt (by linarith)
    have hq3 : orderStat spacings k ≤ npPercentile spacings 75 :=
      orderStat_le_npPercentile (by norm_num) hlt (by linarith)
    have hmem := orderStat_mem hlt
    -- So its spacing is within the fences, which are wider than the quartiles.
    refine List.ne_nil_of_mem (List.mem_filter.mpr ⟨hmem, ?_⟩)
    rw [decide_eq_true_iff, max_le_iff]
    exact ⟨⟨hpos _ hmem, by linarith⟩, by linarith⟩
  · exact hne

omit [IsStrictOrderedRing K] [FloorRing K] in
theorem adjacentSpacings_ne_nil {centroids : List (K × K)} {v : K × K}
    (h : 2 ≤ centroids.length) : adjacentSpacings centroids v ≠ [] := by
  apply List.ne_nil_of_length_pos
  rw [adjacentSpacings, length_npDiff, length_npSort, List.length_map]
  omega

/-- The wavelength of two components or more, a median of some of the spacings. -/
theorem exists_lambdaPx {centroids : List (K × K)} {v : K × K} (h : 2 ≤ centroids.length) :
    ∃ lam, (spacingInfo centroids v).lambdaPx = some lam ∧
      ∃ lo ∈ adjacentSpacings centroids v, ∃ hi ∈ adjacentSpacings centroids v,
        (∀ d ∈ adjacentSpacings centroids v, lo ≤ d ∧ d ≤ hi) ∧ lo ≤ lam ∧ lam ≤ hi := by
  have hne := adjacentSpacings_ne_nil (v := v) h
  have hkept := iqrFilter_ne_nil hne fun d hd => adjacentSpacings_nonneg hd
  obtain ⟨lo, hlo, hi, hhi, hrange⟩ := exists_range hne
  refine ⟨npMedian (iqrFilter (adjacentSpacings centroids v)), ?_, lo, hlo, hi, hhi, hrange, ?_⟩
  · rw [spacingInfo, if_neg (by omega)]
    exact congrArg SpacingInfo.lambdaPx (if_neg (by simpa using hkept))
  · exact npMedian_mem_range hkept fun d hd => hrange d ((iqrFilter_sublist _).subset hd)

/-! ### The spacings -/

omit [IsStrictOrderedRing K] [FloorRing K] in
theorem adjacentSpacings_perm {cs cs' : List (K × K)} (h : cs'.Perm cs) (v : K × K) :
    adjacentSpacings cs' v = adjacentSpacings cs v := by
  rw [adjacentSpacings, adjacentSpacings, npSort_eq_of_perm (h.map _)]

omit [FloorRing K] in
/-- The projections of moved components are moved. -/
theorem adjacentSpacings_translate (cs : List (K × K)) (t v : K × K) :
    adjacentSpacings (cs.map (· + t)) v = adjacentSpacings cs v := by
  have hproj : (cs.map (· + t)).map (fun c => c.1 * v.1 + c.2 * v.2)
      = (cs.map fun c => c.1 * v.1 + c.2 * v.2).map (· + (t.1 * v.1 + t.2 * v.2)) := by
    rw [List.map_map, List.map_map]
    refine List.map_congr_left fun c _ => ?_
    simp only [Function.comp_apply, Prod.fst_add, Prod.snd_add]
    ring
  have hmono : Monotone (· + (t.1 * v.1 + t.2 * v.2)) := by
    intro a b hab
    show a + _ ≤ b + _
    linarith
  rw [adjacentSpacings, adjacentSpacings, hproj, npSort_map_monotone hmono, npDiff_map_add]

omit [FloorRing K] in
/-- Along the opposite direction the spacings come from the other end. -/
theorem adjacentSpacings_neg (cs : List (K × K)) (v : K × K) :
    adjacentSpacings cs (-v) = (adjacentSpacings cs v).reverse := by
  have hproj : cs.map (fun c => c.1 * (-v).1 + c.2 * (-v).2)
      = (cs.map fun c => c.1 * v.1 + c.2 * v.2).map (- ·) := by
    rw [List.map_map]
    refine List.map_congr_left fun c _ => ?_
    simp only [Function.comp_apply, Prod.fst_neg, Prod.snd_neg]
    ring
  have hanti : Antitone (fun x : K => -x) := fun a b hab => neg_le_neg hab
  rw [adjacentSpacings, adjacentSpacings, hproj, npSort_map_antitone hanti, npDiff_reverse_neg]

/-- For every list of two accepted centroids or more and every heading, there is a
wavelength. It lies between the smallest and the largest spacing, and it is the same
for the opposite heading, for moved components and for any order of them. -/
theorem estimateWavelength_total_invariant (m : PyMath K)
    (hcos : ∀ t, m.cos (t + m.pi) = -m.cos t) (hsin : ∀ t, m.sin (t + m.pi) = -m.sin t)
    (cv : Cv2Regions K) (binMask : Img ℕ) (minArea : ℤ) (headingRad : K)
    (centroids : List (K × K))
    (hkept : keptCentroids (cv.connectedComponentsWithStats binMask) minArea = centroids)
    (htwo : 2 ≤ centroids.length) :
    (∃ lam, (estimateWavelengthFromMask m cv binMask headingRad minArea).lambdaPx = some lam ∧
        let spacings := adjacentSpacings centroids (m.cos headingRad, m.sin headingRad)
        ∃ lo ∈ spacings, ∃ hi ∈ spacings, (∀ d ∈ spacings, lo ≤ d ∧ d ≤ hi) ∧
          lo ≤ lam ∧ lam ≤ hi) ∧
      (estimateWavelengthFromMask m cv binMask (headingRad + m.pi) minArea).lambdaPx
        = (estimateWavelengthFromMask m cv binMask headingRad minArea).lambdaPx ∧
      ∀ (cv' : Cv2Regions K) (binMask' : Img ℕ) (minArea' : ℤ) (t : K × K),
        (keptCentroids (cv'.connectedComponentsWithStats binMask') minArea').Perm
          (centroids.map (· + t)) →
        (estimateWavelengthFromMask m cv' binMask' headingRad minArea').lambdaPx
          = (estimateWavelengthFromMask m cv binMask headingRad minArea).lambdaPx := by
  -- The opposite heading projects on the opposite axis.
  have hneg : (m.cos (headingRad + m.pi), m.sin (headingRad + m.pi))
      = -(m.cos headingRad, m.sin headingRad) := by
    rw [hcos, hsin]
    rfl
  refine ⟨?_, ?_, ?_⟩
  · rw [estimateWavelengthFromMask, hkept]
    exact exists_lambdaPx htwo
  · rw [estimateWavelengthFromMask, estimateWavelengthFromMask, hkept, hneg]
    apply lambdaPx_perm rfl
    rw [adjacentSpacings_neg]
    exact List.reverse_perm _
  · intro cv' binMask' minArea' t hperm
    rw [estimateWavelengthFromMask, estimateWavelengthFromMask, hkept]
    apply lambdaPx_perm
    · rw [hperm.length_eq, List.length_map]
    · rw [adjacentSpacings_perm hperm, adjacentSpacings_translate]

/-- Three stripes of 5 rows and 6 columns, three columns apart. -/
def stripedMask : Img ℕ := ⟨5, 24, fun _ x => if x < 6 ∨ (9 ≤ x ∧ x < 15) ∨ 18 ≤ x then 1 else 0⟩

/-- The components of `stripedMask`: 30 pixels each, like the background. -/
noncomputable def threeCrests : Cv2Regions ℝ where
  connectedComponentsWithStats _ :=
    ⟨4, ⟨5, 24, fun _ x => if x < 6 then 1 else if 9 ≤ x ∧ x < 15 then 2 else if 18 ≤ x then 3
      else 0⟩, fun _ => 30,
      fun lab => if lab = 1 then (5 / 2, 2) else if lab = 3 then (41 / 2, 2) else (23 / 2, 2)⟩
  fillPoly H W _ := ⟨H, W, fun _ _ => 1⟩

/-- Any heading gives the three crests a wavelength, and the opposite heading the
same one. -/
theorem estimateWavelength_threeCrests :
    (∃ lam, (estimateWavelengthFromMask realMath threeCrests stripedMask 1 20).lambdaPx
        = some lam) ∧
      (estimateWavelengthFromMask realMath threeCrests stripedMask (1 + realMath.pi) 20).lambdaPx
        = (estimateWavelengthFromMask realMath threeCrests stripedMask 1 20).lambdaPx := by
  have hlen : 2 ≤ (keptCentroids (threeCrests.connectedComponentsWithStats stripedMask)
      20).length := by
    rw [keptCentroids, List.length_map]
    decide
  obtain ⟨⟨lam, hlam, -⟩, hopp, -⟩ := estimateWavelength_total_invariant realMath Real.cos_add_pi
    Real.sin_add_pi threeCrests stripedMask 20 1 _ rfl hlen
  exact ⟨⟨lam, hlam⟩, hopp⟩

end W2Net.Proofs.CrestSpacing
