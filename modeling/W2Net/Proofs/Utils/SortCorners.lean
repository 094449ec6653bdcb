import Mathlib.Data.List.FinRange
import Mathlib.Analysis.SpecialFunctions.Trigonometric.Inverse
import W2Net.Datasets.Wake2gt
import W2Net.Lib.Direction
import W2Net.Proofs.Utils.Lbr.LongAxis
import W2Net.Utils.SortCorners

/-!
# `W2Net.Proofs.Utils.SortCorners`: one order of the corners for every listing

`sort_corners` sorts the corners of a quad by the angles around their centroid, from the greatest
to the smallest, and then chooses the first one. The angle comes from `arccos` and the sign of the
`y` coordinate. `theta_lt_of_sweepBefore` says that it puts the directions in the order of the
sweep of `Lib.Direction`, so corners in different directions have different angles, and the sorted
list is the only one with these corners in this order (`sortedCorners_eq_of_perm`).

The choice of the first corner looks at the sorted list alone (`sortCorners_eq`). So the result
does not depend on the listing of the corners, and sorting the result again gives the same list.
-/

set_option autoImplicit false

namespace W2Net.Proofs.SortCorners

open W2Net.Proofs.Lbr (ExactSqrt realMath_exactSqrt)
open W2Net.Proofs.ScaledLabels (realMath)
open W2Net.Wake2gt (CornerOps theta firstIdx firstOf sortCorners)

variable {K : Type} [Field K] [LinearOrder K]

/-! ### The angle of a direction -/

/-- What the code relies on of `numpy`: an exact root, and an inverse cosine that is `pi` at -1 and
falls from there to 1. -/
structure CornerLaws (ops : CornerOps K) : Prop where
  sqrt : ExactSqrt ops.math
  pi_pos : 0 < ops.math.pi
  arccos_neg_one : ops.arccos (-1) = ops.math.pi
  arccos_lt : ∀ c c', -1 ≤ c → c < c' → c' ≤ 1 → ops.arccos c' < ops.arccos c

section
variable (ops : CornerOps K)

/-- The distance from the centre. -/
def radius (p : K × K) : K := ops.math.sqrt (p.1 ^ 2 + p.2 ^ 2)

/-- An angle in degrees. -/
def degrees (t : K) : K := t / ops.math.pi * 180

/-- The direction as a point of the unit circle. -/
def unitDir (p : K × K) : K × K := (p.1 / radius ops p, p.2 / radius ops p)

/-- The direction opposite to a corner. -/
theorem unitDir_neg_fst (p : K × K) : (unitDir ops (-p)).1 = -(unitDir ops p).1 := by
  have hradius : radius ops (-p) = radius ops p := by
    show ops.math.sqrt ((-p.1) ^ 2 + (-p.2) ^ 2) = radius ops p
    rw [neg_sq, neg_sq]
    rfl
  show -p.1 / radius ops (-p) = -(p.1 / radius ops p)
  rw [hradius, neg_div]

variable {ops} [IsStrictOrderedRing K] (laws : CornerLaws ops) {p q : K × K}

include laws

theorem radius_sq (p : K × K) : radius ops p ^ 2 = p.1 ^ 2 + p.2 ^ 2 :=
  laws.sqrt.sq _ (add_nonneg (sq_nonneg _) (sq_nonneg _))

theorem radius_pos (hp : p ≠ 0) : 0 < radius ops p := by
  have hne : radius ops p ≠ 0 := by
    intro hzero
    have hsq := radius_sq laws p
    rw [hzero, zero_pow two_ne_zero] at hsq
    have hx : p.1 = 0 := by
      apply pow_eq_zero_iff two_ne_zero |>.mp
      linarith [sq_nonneg p.1, sq_nonneg p.2]
    have hy : p.2 = 0 := by
      apply pow_eq_zero_iff two_ne_zero |>.mp
      linarith [sq_nonneg p.1, sq_nonneg p.2]
    exact hp (Prod.ext hx hy)
  exact lt_of_le_of_ne (laws.sqrt.nonneg _) hne.symm

theorem unitDir_circle (hp : p ≠ 0) : (unitDir ops p).1 ^ 2 + (unitDir ops p).2 ^ 2 = 1 := by
  have hr := (radius_pos laws hp).ne'
  show (p.1 / radius ops p) ^ 2 + (p.2 / radius ops p) ^ 2 = 1
  rw [div_pow, div_pow, ← add_div, ← radius_sq laws p, div_self (pow_ne_zero 2 hr)]

theorem cross_unitDir_neg (hp : p ≠ 0) (hq : q ≠ 0) (h : cross p q < 0) :
    cross (unitDir ops p) (unitDir ops q) < 0 := by
  have heq : cross (unitDir ops p) (unitDir ops q) =
      cross p q / (radius ops p * radius ops q) := by
    have hr := (radius_pos laws hp).ne'
    have hr' := (radius_pos laws hq).ne'
    unfold cross unitDir
    field_simp
  rw [heq]
  exact div_neg_of_neg_of_pos h (mul_pos (radius_pos laws hp) (radius_pos laws hq))

theorem unitDir_fst_bounds (hp : p ≠ 0) : -1 ≤ (unitDir ops p).1 ∧ (unitDir ops p).1 ≤ 1 := by
  have hsq : (unitDir ops p).1 ^ 2 ≤ 1 ^ 2 := by
    rw [one_pow, ← unitDir_circle laws hp]
    exact le_add_of_nonneg_right (sq_nonneg _)
  exact abs_le.mp (abs_le_of_sq_le_sq hsq zero_le_one)

/-- The clipping of the cosine does nothing. -/
theorem theta_eq (hp : p ≠ 0) : theta ops p =
    if 0 < p.2 then 360 - degrees ops (ops.arccos (unitDir ops p).1)
    else degrees ops (ops.arccos (unitDir ops p).1) := by
  have hb := unitDir_fst_bounds laws hp
  have hclip : min (max (unitDir ops p).1 (-1)) 1 = (unitDir ops p).1 := by
    rw [max_eq_left hb.1, min_eq_left hb.2]
  show (if 0 < p.2 then 360 - degrees ops (ops.arccos (min (max (unitDir ops p).1 (-1)) 1))
    else degrees ops (ops.arccos (min (max (unitDir ops p).1 (-1)) 1))) = _
  rw [hclip]

theorem degrees_lt {s t : K} (h : s < t) : degrees ops s < degrees ops t := by
  unfold degrees
  exact mul_lt_mul_of_pos_right (div_lt_div_of_pos_right h laws.pi_pos) (by norm_num)

omit [IsStrictOrderedRing K] in
theorem degrees_pi : degrees ops ops.math.pi = 180 := by
  rw [degrees, div_self laws.pi_pos.ne', one_mul]

theorem degrees_arccos_le {c : K} (hc : -1 ≤ c) (hc' : c ≤ 1) :
    degrees ops (ops.arccos c) ≤ 180 := by
  rw [← degrees_pi laws, ← laws.arccos_neg_one]
  rcases hc.eq_or_lt with rfl | hlt
  · exact le_refl _
  · exact (degrees_lt laws (laws.arccos_lt _ _ (le_refl _) hlt hc')).le

theorem theta_of_firstHalf (hp : p ≠ 0) (h : FirstHalf p) :
    theta ops p = degrees ops (ops.arccos (unitDir ops p).1) := by
  rw [theta_eq laws hp, if_neg]
  rcases h with hneg | ⟨hzero, -⟩
  · exact hneg.not_gt
  · exact hzero.not_gt

theorem theta_of_secondHalf (hp : p ≠ 0) (h : SecondHalf p) :
    theta ops p = 360 - degrees ops (ops.arccos (unitDir ops p).1) := by
  rw [theta_eq laws hp]
  rcases h with hpos | ⟨hzero, hneg⟩
  · rw [if_pos hpos]
  · -- On the negative `x` axis both cases give 180.
    have hcircle := unitDir_circle laws hp
    have hy : (unitDir ops p).2 = 0 := by
      show p.2 / radius ops p = 0
      rw [hzero, zero_div]
    have hx : (unitDir ops p).1 < 0 := div_neg_of_neg_of_pos hneg (radius_pos laws hp)
    have hone : (unitDir ops p).1 = -1 := by
      rw [hy, zero_pow two_ne_zero, add_zero, ← one_pow 2] at hcircle
      rcases sq_eq_sq_iff_eq_or_eq_neg.mp hcircle with hpos | hneg'
      · exact absurd hpos (hx.trans one_pos).ne
      · exact hneg'
    rw [if_neg hzero.not_gt, hone, laws.arccos_neg_one, degrees_pi laws]
    norm_num

/-- In the first half turn the angle grows with the sweep. -/
theorem unitDir_fst_lt (hp : p ≠ 0) (hq : q ≠ 0) (hp' : FirstHalf p) (hq' : FirstHalf q)
    (h : cross p q < 0) : (unitDir ops q).1 < (unitDir ops p).1 := by
  have hlow : ∀ {r : K × K}, r ≠ 0 → FirstHalf r → (unitDir ops r).2 ≤ 0 := by
    intro r hr hr'
    have hle : r.2 ≤ 0 := by
      rcases hr' with hneg | ⟨hzero, -⟩
      · exact hneg.le
      · exact hzero.le
    exact div_nonpos_of_nonpos_of_nonneg hle (radius_pos laws hr).le
  exact fst_lt_of_cross_neg (hlow hp hp') (hlow hq hq') (unitDir_circle laws hp)
    (unitDir_circle laws hq) (cross_unitDir_neg laws hp hq h)

/-- The angle is smaller than 180 degrees in the first half turn. -/
theorem theta_lt_of_firstHalf (hp : p ≠ 0) (h : FirstHalf p) : theta ops p < 180 := by
  have hb := unitDir_fst_bounds laws hp
  have hne : (unitDir ops p).1 ≠ -1 := by
    intro hone
    -- Only the negative `x` axis has this cosine.
    have hcircle := unitDir_circle laws hp
    rw [hone, neg_one_sq, add_eq_left, pow_eq_zero_iff two_ne_zero] at hcircle
    have hy : p.2 = 0 := (div_eq_zero_iff.mp hcircle).resolve_right (radius_pos laws hp).ne'
    have hx : 0 < p.1 := by
      rcases h with hneg | ⟨-, hx⟩
      · exact absurd hy hneg.ne
      · exact hx
    have hcos : 0 < (unitDir ops p).1 := div_pos hx (radius_pos laws hp)
    linarith
  rw [theta_of_firstHalf laws hp h, ← degrees_pi laws, ← laws.arccos_neg_one]
  exact degrees_lt laws (laws.arccos_lt _ _ (le_refl _) (lt_of_le_of_ne hb.1 hne.symm) hb.2)

/-- The angles are in the order of the sweep. -/
theorem theta_lt_of_sweepBefore (hp : p ≠ 0) (hq : q ≠ 0) (h : SweepBefore p q) :
    theta ops p < theta ops q := by
  have hbp := unitDir_fst_bounds laws hp
  have hbq := unitDir_fst_bounds laws hq
  rcases h with ⟨hp', hq'⟩ | ⟨⟨hp', hq'⟩ | ⟨hp', hq'⟩, hcross⟩
  · -- The second half turn starts at 180 degrees.
    have hle := degrees_arccos_le laws hbq.1 hbq.2
    have hlt := theta_lt_of_firstHalf laws hp hp'
    rw [theta_of_secondHalf laws hq hq']
    linarith
  · rw [theta_of_firstHalf laws hp hp', theta_of_firstHalf laws hq hq']
    exact degrees_lt laws
      (laws.arccos_lt _ _ hbq.1 (unitDir_fst_lt laws hp hq hp' hq' hcross) hbp.2)
  · -- The opposite directions lie in the first half turn.
    rw [← cross_neg_neg] at hcross
    have hfst := unitDir_fst_lt laws (neg_ne_zero.mpr hp) (neg_ne_zero.mpr hq) hp'.neg hq'.neg hcross
    rw [unitDir_neg_fst, unitDir_neg_fst, neg_lt_neg_iff] at hfst
    have hdeg := degrees_lt laws (laws.arccos_lt _ _ hbp.1 hfst hbq.2)
    rw [theta_of_secondHalf laws hp hp', theta_of_secondHalf laws hq hq']
    linarith

/-- Of two corners in different directions, the sweep comes first to the one with the smaller
angle. -/
theorem theta_lt_iff (hp : p ≠ 0) (hq : q ≠ 0) (h : ¬SameDirection p q) :
    theta ops p < theta ops q ↔ SweepBefore p q := by
  constructor
  · intro hlt
    rcases sweep_trichotomy hp hq h with hpq | hqp
    · exact hpq
    · exact absurd (theta_lt_of_sweepBefore laws hq hp hqp) hlt.not_gt
  · exact theta_lt_of_sweepBefore laws hp hq

theorem theta_ne (hp : p ≠ 0) (hq : q ≠ 0) (h : ¬SameDirection p q) :
    theta ops p ≠ theta ops q := by
  rcases sweep_trichotomy hp hq h with hpq | hqp
  · exact (theta_lt_of_sweepBefore laws hp hq hpq).ne
  · exact (theta_lt_of_sweepBefore laws hq hp hqp).ne'

end

/-! ### The sorted corners -/

/-- The corners of a row. -/
def corners (q : QuadRow K) : List (K × K) := [(q 0, q 1), (q 2, q 3), (q 4, q 5), (q 6, q 7)]

/-- `centers`. -/
def centroid (q : QuadRow K) : K × K :=
  ((q 0 + q 2 + q 4 + q 6) / 4, (q 1 + q 3 + q 5 + q 7) / 4)

/-- No corner is at the centroid, and any two lie in different directions from it. -/
structure Spread (q : QuadRow K) : Prop where
  off : ∀ p ∈ corners q, p - centroid q ≠ 0
  apart : (corners q).Pairwise fun a b => ¬SameDirection (a - centroid q) (b - centroid q)

omit [LinearOrder K] in
/-- The centroid does not depend on the listing. -/
theorem centroid_eq_of_perm {q q' : QuadRow K} (h : (corners q').Perm (corners q)) :
    centroid q' = centroid q := by
  have hcentroid : ∀ q : QuadRow K,
      centroid q = ((corners q).sum.1 / 4, (corners q).sum.2 / 4) := by
    intro q
    simp [centroid, corners, add_assoc]
  rw [hcentroid, hcentroid, h.sum_eq]

section
variable (ops : CornerOps K)

/-- `corners[thetas.argsort()[::-1], :]`. -/
def sortedCorners (q : QuadRow K) : List (K × K) :=
  ((ops.argsort.order ((corners q).map fun p => theta ops (p - centroid q))).map fun i =>
    (corners q).getD i 0).reverse

theorem sortedCorners_perm (q : QuadRow K) : (sortedCorners ops q).Perm (corners q) :=
  (List.reverse_perm _).trans (ops.argsort.map_getD_perm (corners q) _ 0)

theorem length_sortedCorners (q : QuadRow K) : (sortedCorners ops q).length = 4 :=
  (sortedCorners_perm ops q).length_eq

/-- The corners of a row with the sorted corners from the place `first` on. -/
def rowFrom (sorted : List (K × K)) (first : ℕ) : QuadRow K := fun j =>
  let corner := sorted.getD ((first + j / 2) % 4) 0
  if (j : ℕ) % 2 = 0 then corner.1 else corner.2

/-- The sorted corners, as the code has them: seen from the centroid, and moved back to it. -/
theorem gather_eq (q : QuadRow K) :
    (ops.argsort.order (((corners q).map fun p => p - centroid q).map (theta ops))).reverse.map
      (fun i => (((corners q).map fun p => p - centroid q).map fun p => p + centroid q).getD i 0) =
      sortedCorners ops q := by
  have hback : ((corners q).map fun p => p - centroid q).map (fun p => p + centroid q) =
      corners q := by
    rw [List.map_map]
    simp [Function.comp_def]
  have hthetas : ((corners q).map fun p => p - centroid q).map (theta ops) =
      (corners q).map fun p => theta ops (p - centroid q) := List.map_map
  rw [hback, hthetas, sortedCorners, List.map_reverse]

/-- The result depends on the sorted corners alone. -/
theorem sortCorners_eq (q : QuadRow K) : sortCorners ops q =
    rowFrom (sortedCorners ops q) (firstIdx fun i => (sortedCorners ops q).getD i 0) := by
  rw [← gather_eq]
  rfl

omit [LinearOrder K] in
/-- The corners of the result are a cyclic rotation of the sorted corners. -/
theorem corners_rowFrom {sorted : List (K × K)} (hlen : sorted.length = 4) (first : ℕ) :
    corners (rowFrom sorted first) = sorted.rotate first := by
  have hrow : corners (rowFrom sorted first) =
      (List.range 4).map fun k => sorted.getD ((first + k) % 4) 0 := rfl
  rw [hrow]
  apply List.ext_getElem
  · rw [List.length_map, List.length_range, List.length_rotate, hlen]
  · intro i h₁ h₂
    have hlt : (first + i) % 4 < sorted.length := by
      rw [hlen]
      exact Nat.mod_lt _ (by decide)
    rw [List.getElem_map, List.getElem_range, List.getElem_rotate, List.getD_eq_getElem _ _ hlt]
    simp only [hlen, Nat.add_comm]

theorem corners_sortCorners (q : QuadRow K) : corners (sortCorners ops q) =
    (sortedCorners ops q).rotate (firstIdx fun i => (sortedCorners ops q).getD i 0) := by
  rw [sortCorners_eq, corners_rowFrom (length_sortedCorners ops q)]

theorem corners_sortCorners_perm (q : QuadRow K) :
    (corners (sortCorners ops q)).Perm (corners q) := by
  rw [corners_sortCorners]
  exact (List.rotate_perm _ _).trans (sortedCorners_perm ops q)

end

/-! ### Other listings -/

section
variable {ops : CornerOps K} [IsStrictOrderedRing K] (laws : CornerLaws ops) {q q' : QuadRow K}

/-- Another listing of the corners has the same property. -/
theorem Spread.of_perm (hq : Spread q) (h : (corners q').Perm (corners q)) : Spread q' where
  off p hp := by
    rw [centroid_eq_of_perm h]
    exact hq.off p (h.mem_iff.mp hp)
  apart := by
    rw [centroid_eq_of_perm h]
    exact h.symm.pairwise hq.apart fun h hsame => h hsame.symm

omit [IsStrictOrderedRing K] in
theorem Spread.sorted_off (hq : Spread q) : ∀ p ∈ sortedCorners ops q, p - centroid q ≠ 0 :=
  fun p hp => hq.off p ((sortedCorners_perm ops q).mem_iff.mp hp)

theorem Spread.sorted_apart (hq : Spread q) : (sortedCorners ops q).Pairwise fun a b =>
    ¬SameDirection (a - centroid q) (b - centroid q) :=
  (sortedCorners_perm ops q).symm.pairwise hq.apart fun h hsame => h hsame.symm

include laws in
/-- The angles of the sorted corners fall. -/
theorem sortedCorners_pairwise (hq : Spread q) : (sortedCorners ops q).Pairwise fun a b =>
    theta ops (b - centroid q) < theta ops (a - centroid q) := by
  have hle : (sortedCorners ops q).Pairwise fun a b =>
      theta ops (b - centroid q) ≤ theta ops (a - centroid q) := by
    rw [sortedCorners, List.pairwise_reverse]
    exact ops.argsort.map_getD_pairwise (corners q) (fun p => theta ops (p - centroid q)) 0
  refine (hle.and hq.sorted_apart).imp_of_mem fun {a b} ha hb h => ?_
  exact lt_of_le_of_ne h.1 (theta_ne laws (hq.sorted_off a ha) (hq.sorted_off b hb) h.2).symm

include laws in
/-- The sorted corners come against the sweep. -/
theorem sortedCorners_sweep (hq : Spread q) : (sortedCorners ops q).Pairwise fun a b =>
    SweepBefore (b - centroid q) (a - centroid q) := by
  refine ((sortedCorners_pairwise laws hq).and hq.sorted_apart).imp_of_mem fun {a b} ha hb h => ?_
  exact (theta_lt_iff laws (hq.sorted_off b hb) (hq.sorted_off a ha)
    fun hsame => h.2 hsame.symm).mp h.1

include laws in
/-- There is one list of the corners in this order. -/
theorem sortedCorners_eq_of_perm (hq : Spread q) (h : (corners q').Perm (corners q)) :
    sortedCorners ops q' = sortedCorners ops q := by
  have hsorted' := sortedCorners_pairwise laws (hq.of_perm h)
  rw [centroid_eq_of_perm h] at hsorted'
  have hperm : (sortedCorners ops q').Perm (sortedCorners ops q) :=
    (sortedCorners_perm ops q').trans (h.trans (sortedCorners_perm ops q).symm)
  exact hperm.eq_of_pairwise (fun a b _ _ hab hba => absurd hab hba.not_gt) hsorted'
    (sortedCorners_pairwise laws hq)

include laws in
theorem sortCorners_eq_of_perm (hq : Spread q) (h : (corners q').Perm (corners q)) :
    sortCorners ops q' = sortCorners ops q := by
  rw [sortCorners_eq, sortCorners_eq, sortedCorners_eq_of_perm laws hq h]

end

/-- The corner `i` of a row. -/
def corner (q : QuadRow K) : Fin 4 → K × K :=
  ![(q 0, q 1), (q 2, q 3), (q 4, q 5), (q 6, q 7)]

/-- The row with its corners listed in another order. -/
def relist (σ : Equiv.Perm (Fin 4)) (q : QuadRow K) : QuadRow K := fun j =>
  let p := corner q (σ ⟨j / 2, by omega⟩)
  if (j : ℕ) % 2 = 0 then p.1 else p.2

omit [Field K] [LinearOrder K] in
theorem corners_relist (σ : Equiv.Perm (Fin 4)) (q : QuadRow K) :
    (corners (relist σ q)).Perm (corners q) := by
  have hlist : corners q = List.ofFn (corner q) := rfl
  have hrelist : corners (relist σ q) = List.ofFn (corner q ∘ σ) := rfl
  rw [hlist, hrelist]
  exact Equiv.Perm.ofFn_comp_perm σ (corner q)

/-! ### The copy for the detections -/

/-- The two copies sort a row alike. -/
theorem sortQuad_eq (ops : CornerOps K) (q : QuadRow K) :
    W2Net.SortCorners.sortQuad ops.math ops.arccos ops.argsort q = sortCorners ops q := by
  have hrow : W2Net.SortCorners.sortedRow ops.math ops.arccos ops.argsort q = fun k =>
      if k % 2 = 0 then ((sortedCorners ops q).getD (k / 2) 0).1
      else ((sortedCorners ops q).getD (k / 2) 0).2 := by
    rw [← gather_eq]
    rfl
  have hfirst : W2Net.SortCorners.firstIdx
      (W2Net.SortCorners.sortedRow ops.math ops.arccos ops.argsort q) =
      firstIdx fun i => (sortedCorners ops q).getD i 0 := by
    rw [hrow]
    rfl
  rw [sortCorners_eq]
  funext j
  simp only [W2Net.SortCorners.sortQuad, hfirst]
  rw [hrow, rowFrom]
  dsimp only
  generalize (firstIdx fun i => (sortedCorners ops q).getD i 0) = first
  -- The column of a flat index, and its corner.
  have hcol : ((first + (j : ℕ) / 2) % 4 * 2 + (j : ℕ) % 2) % 2 = (j : ℕ) % 2 := by omega
  have hcorner : ((first + (j : ℕ) / 2) % 4 * 2 + (j : ℕ) % 2) / 2 = (first + (j : ℕ) / 2) % 4 := by
    omega
  rw [hcol, hcorner]

/-! ### The canonical order -/

section
variable {ops : CornerOps K} [IsStrictOrderedRing K]

/-- For every quad with its corners in different directions from their centroid: the result has
the corners in angular order, from one of them on. It is the same for every listing of the
corners, sorting it again does not change it, and the copy for the detections gives the same. -/
theorem sortCorners_canonical (laws : CornerLaws ops) {q : QuadRow K} (hq : Spread q) :
    (∃ (sorted : List (K × K)) (first : ℕ), sorted.Perm (corners q) ∧
      (sorted.Pairwise fun a b => SweepBefore (b - centroid q) (a - centroid q)) ∧
      corners (sortCorners ops q) = sorted.rotate first) ∧
    (∀ σ : Equiv.Perm (Fin 4), sortCorners ops (relist σ q) = sortCorners ops q) ∧
    sortCorners ops (sortCorners ops q) = sortCorners ops q ∧
    ∀ quads : List (QuadRow K),
      W2Net.SortCorners.sortCorners ops.math ops.arccos ops.argsort quads =
        quads.map (sortCorners ops) := by
  refine ⟨⟨sortedCorners ops q, _, sortedCorners_perm ops q, sortedCorners_sweep laws hq,
    corners_sortCorners ops q⟩, fun σ => ?_, ?_, fun quads => ?_⟩
  · exact sortCorners_eq_of_perm laws hq (corners_relist σ q)
  · exact sortCorners_eq_of_perm laws hq (corners_sortCorners_perm ops q)
  · exact List.map_congr_left fun quad _ => sortQuad_eq ops quad

end

/-! ### The real numbers -/

/-- The functions of `numpy` over the real numbers, with the stable order. -/
noncomputable def realCorners : CornerOps ℝ where
  math := realMath
  arccos := Real.arccos
  argsort := .stable
  boxes := ⟨fun _ _ => 0, fun _ => ⟨0, 0, 0, 0, 0⟩⟩

theorem realCorners_laws : CornerLaws realCorners where
  sqrt := realMath_exactSqrt
  pi_pos := Real.pi_pos
  arccos_neg_one := Real.arccos_neg_one
  arccos_lt _ _ := Real.arccos_lt_arccos

/-- A square on its corner, which has a vertical diagonal. -/
def diamond : QuadRow ℝ := ![1, 0, 0, 1, -1, 0, 0, -1]

theorem diamond_spread : Spread diamond := by
  have hcorners : corners diamond = [(1, 0), (0, 1), (-1, 0), (0, -1)] := by
    simp [corners, diamond]
  have hcentroid : centroid diamond = 0 := by
    simp [centroid, diamond]
  constructor
  · rw [hcorners, hcentroid]
    simp
  · rw [hcorners, hcentroid]
    -- Only the first and the third corner need a look: -1 is no positive multiple of 1.
    simp [SameDirection]
    intro t ht heq
    linarith

/-- Every listing of the diamond, and the result itself, is sorted to the same row. -/
theorem sortCorners_canonical_diamond :
    (∀ σ : Equiv.Perm (Fin 4), sortCorners realCorners (relist σ diamond) =
      sortCorners realCorners diamond) ∧
    sortCorners realCorners (sortCorners realCorners diamond) = sortCorners realCorners diamond :=
  ⟨(sortCorners_canonical realCorners_laws diamond_spread).2.1,
    (sortCorners_canonical realCorners_laws diamond_spread).2.2.1⟩

end W2Net.Proofs.SortCorners
