import Mathlib.Algebra.BigOperators.Field
import Mathlib.Algebra.BigOperators.Fin
import Mathlib.Algebra.Order.BigOperators.Ring.Finset
import Mathlib.Analysis.SpecialFunctions.Trigonometric.Basic

/-!
# `W2Net.Lib.Dct`: the discrete cosine transform

`dct n f t` is the sample `t` of the cosine with the frequency `f`, in the orthonormal form of the
transform. The sum of a cosine over its samples telescopes (`sum_cosine_eq_zero`), and a product of
two cosines is a sum of two others. So the frequencies below `n` are orthonormal (`sum_dct_mul`),
and with them the products of two frequencies on a grid (`sum_dct2_mul`).

For any orthonormal family of samples, `sum_coeff` reads the coefficients of a combination back,
and `sum_sq_coeff_le` bounds the energy of the coefficients.
-/

set_option autoImplicit false

namespace W2Net

/-! ### Cosines -/

/-- The sample `t` of `n` of the cosine with the frequency `f`. -/
noncomputable def cosine (n f t : ℕ) : ℝ := Real.cos (Real.pi * f * (t + 1 / 2) / n)

theorem cosine_zero (n t : ℕ) : cosine n 0 t = 1 := by
  rw [cosine, Nat.cast_zero, mul_zero, zero_mul, zero_div, Real.cos_zero]

/-- Half an angle between 0 and a full turn has a sine. -/
theorem two_sin_half_mul_cosine (n f t : ℕ) :
    2 * Real.sin (Real.pi * f / n / 2) * cosine n f t
      = Real.sin (Real.pi * f / n * (t + 1 : ℕ)) - Real.sin (Real.pi * f / n * t) := by
  have hup : Real.pi * f / n * (t + 1 : ℕ)
      = Real.pi * f * (t + 1 / 2) / n + Real.pi * f / n / 2 := by
    push_cast
    ring
  have hdown : Real.pi * f / n * t = Real.pi * f * (t + 1 / 2) / n - Real.pi * f / n / 2 := by
    ring
  rw [hup, hdown, Real.sin_add, Real.sin_sub, cosine]
  ring

/-- Over all samples the cosine of a frequency adds up to 0. -/
theorem sum_cosine_eq_zero {n f : ℕ} (hf : 0 < f) (hfn : f < 2 * n) :
    ∑ t ∈ Finset.range n, cosine n f t = 0 := by
  have hn : (0 : ℝ) < n := by
    rw [Nat.cast_pos]
    omega
  have hfR : (0 : ℝ) < f := Nat.cast_pos.mpr hf
  have hlt : (f : ℝ) < 2 * n := by exact_mod_cast hfn
  have hsin : 0 < Real.sin (Real.pi * f / n / 2) := by
    refine Real.sin_pos_of_pos_of_lt_pi (by positivity) ?_
    rw [div_div, div_lt_iff₀ (by positivity)]
    have hpi := mul_lt_mul_of_pos_left hlt Real.pi_pos
    linarith
  -- The sum telescopes to the sines at 0 and at a multiple of a half turn.
  have htelescope : 2 * Real.sin (Real.pi * f / n / 2) * ∑ t ∈ Finset.range n, cosine n f t = 0 := by
    have hend : Real.pi * f / n * n = f * Real.pi := by
      field_simp
    rw [Finset.mul_sum, Finset.sum_congr rfl fun t _ => two_sin_half_mul_cosine n f t,
      Finset.sum_range_sub fun t => Real.sin (Real.pi * f / n * (t : ℕ)), hend,
      Real.sin_nat_mul_pi, Nat.cast_zero, mul_zero, Real.sin_zero, sub_zero]
  rcases mul_eq_zero.mp htelescope with h | h
  · linarith
  · exact h

/-- The product of two cosines is a sum of two cosines. -/
theorem cosine_mul_cosine {f g : ℕ} (h : g ≤ f) (n t : ℕ) :
    cosine n f t * cosine n g t = (cosine n (f - g) t + cosine n (f + g) t) / 2 := by
  have hsub : Real.pi * (f - g : ℕ) * (t + 1 / 2) / n
      = Real.pi * f * (t + 1 / 2) / n - Real.pi * g * (t + 1 / 2) / n := by
    rw [Nat.cast_sub h]
    ring
  have hadd : Real.pi * (f + g : ℕ) * (t + 1 / 2) / n
      = Real.pi * f * (t + 1 / 2) / n + Real.pi * g * (t + 1 / 2) / n := by
    push_cast
    ring
  rw [cosine, cosine, cosine, cosine, hsub, hadd, Real.cos_sub, Real.cos_add]
  ring

theorem sum_cosine_mul_of_lt {n f g : ℕ} (hgf : g < f) (hf : f < n) :
    ∑ t ∈ Finset.range n, cosine n f t * cosine n g t = 0 := by
  rw [Finset.sum_congr rfl fun t _ => cosine_mul_cosine hgf.le n t, ← Finset.sum_div,
    Finset.sum_add_distrib, sum_cosine_eq_zero (by omega) (by omega),
    sum_cosine_eq_zero (by omega) (by omega), add_zero, zero_div]

/-- Different frequencies are orthogonal. -/
theorem sum_cosine_mul_of_ne {n f g : ℕ} (hfg : f ≠ g) (hf : f < n) (hg : g < n) :
    ∑ t ∈ Finset.range n, cosine n f t * cosine n g t = 0 := by
  rcases Nat.lt_or_gt_of_ne hfg with h | h
  · rw [← sum_cosine_mul_of_lt h hg]
    exact Finset.sum_congr rfl fun t _ => mul_comm _ _
  · exact sum_cosine_mul_of_lt h hf

theorem sum_cosine_sq {n f : ℕ} (hf : 0 < f) (hfn : f < n) :
    ∑ t ∈ Finset.range n, cosine n f t * cosine n f t = n / 2 := by
  rw [Finset.sum_congr rfl fun t _ => cosine_mul_cosine le_rfl n t, ← Finset.sum_div,
    Finset.sum_add_distrib, sum_cosine_eq_zero (f := f + f) (by omega) (by omega), Nat.sub_self,
    Finset.sum_congr rfl fun t _ => cosine_zero n t, Finset.sum_const, Finset.card_range,
    nsmul_eq_mul, mul_one, add_zero]

/-! ### The orthonormal transform -/

/-- The sample `t` of `n` of the basis vector with the frequency `f`. -/
noncomputable def dct (n f t : ℕ) : ℝ :=
  if f = 0 then cosine n f t / Real.sqrt n else cosine n f t / Real.sqrt n * Real.sqrt 2

/-- The frequencies below the number of samples are orthonormal. -/
theorem sum_dct_mul {n f g : ℕ} (hf : f < n) (hg : g < n) :
    ∑ t ∈ Finset.range n, dct n f t * dct n g t = if f = g then 1 else 0 := by
  have hn : (0 : ℝ) < n := by
    rw [Nat.cast_pos]
    omega
  have hroot : Real.sqrt n * Real.sqrt n = n := Real.mul_self_sqrt hn.le
  have htwo : Real.sqrt 2 * Real.sqrt 2 = 2 := Real.mul_self_sqrt (by norm_num)
  -- Each basis vector is a multiple of its cosine.
  have hscale : ∀ k, ∃ s : ℝ, (∀ t, dct n k t = s * cosine n k t) ∧
      s * s = (if k = 0 then 1 else 2) / n := by
    intro k
    by_cases hk : k = 0
    · refine ⟨1 / Real.sqrt n, fun t => ?_, ?_⟩
      · rw [dct, if_pos hk]
        ring
      · rw [if_pos hk, div_mul_div_comm, hroot, one_mul]
    · refine ⟨Real.sqrt 2 / Real.sqrt n, fun t => ?_, ?_⟩
      · rw [dct, if_neg hk]
        ring
      · rw [if_neg hk, div_mul_div_comm, hroot, htwo]
  obtain ⟨s, hs, hss⟩ := hscale f
  obtain ⟨r, hr, -⟩ := hscale g
  by_cases hfg : f = g
  · subst hfg
    have hsum : ∑ t ∈ Finset.range n, dct n f t * dct n f t
        = s * s * ∑ t ∈ Finset.range n, cosine n f t * cosine n f t := by
      rw [Finset.mul_sum]
      refine Finset.sum_congr rfl fun t _ => ?_
      rw [hs t]
      ring
    rw [hsum, hss, if_pos rfl]
    by_cases hzero : f = 0
    · subst hzero
      rw [if_pos rfl, Finset.sum_congr rfl fun t _ => by rw [cosine_zero, mul_one], Finset.sum_const,
        Finset.card_range, nsmul_eq_mul, mul_one, one_div, inv_mul_cancel₀ hn.ne']
    · rw [if_neg hzero, sum_cosine_sq (by omega) hf]
      field_simp
  · have hsum : ∑ t ∈ Finset.range n, dct n f t * dct n g t
        = s * r * ∑ t ∈ Finset.range n, cosine n f t * cosine n g t := by
      rw [Finset.mul_sum]
      refine Finset.sum_congr rfl fun t _ => ?_
      rw [hs t, hr t]
      ring
    rw [hsum, sum_cosine_mul_of_ne hfg hf hg, mul_zero, if_neg hfg]

/-- The sum of a basis vector: only the one of the frequency 0 has one. -/
theorem sum_dct {n f : ℕ} (hf : f < n) :
    ∑ t ∈ Finset.range n, dct n f t = if f = 0 then Real.sqrt n else 0 := by
  have hn : (0 : ℝ) < n := by
    rw [Nat.cast_pos]
    omega
  have hroot : 0 < Real.sqrt n := Real.sqrt_pos.mpr hn
  -- The vector of the frequency 0 is constant.
  have hzero : ∀ t, dct n 0 t = 1 / Real.sqrt n := by
    intro t
    rw [dct, if_pos rfl, cosine_zero]
  have hsum : ∑ t ∈ Finset.range n, dct n f t
      = Real.sqrt n * ∑ t ∈ Finset.range n, dct n f t * dct n 0 t := by
    rw [Finset.mul_sum]
    refine Finset.sum_congr rfl fun t _ => ?_
    rw [hzero, mul_one_div, mul_div_cancel₀ _ hroot.ne']
  rw [hsum, sum_dct_mul hf (by omega)]
  split
  · exact mul_one _
  · exact mul_zero _

/-- The sample of a grid, with a frequency on each axis. -/
noncomputable def dct2 (h w u v x y : ℕ) : ℝ := dct h u x * dct w v y

/-- A sum of products over a grid. -/
theorem sum_grid_mul (h w : ℕ) (f g : ℕ → ℝ) :
    ∑ x ∈ Finset.range h, ∑ y ∈ Finset.range w, f x * g y
      = (∑ x ∈ Finset.range h, f x) * ∑ y ∈ Finset.range w, g y := by
  rw [Finset.sum_mul_sum]

/-- Pairs of frequencies are orthonormal on the grid. -/
theorem sum_dct2_mul {h w u v u' v' : ℕ} (hu : u < h) (hv : v < w) (hu' : u' < h) (hv' : v' < w) :
    ∑ x ∈ Finset.range h, ∑ y ∈ Finset.range w, dct2 h w u v x y * dct2 h w u' v' x y
      = if (u, v) = (u', v') then 1 else 0 := by
  have hprod : ∀ x y, dct2 h w u v x y * dct2 h w u' v' x y
      = dct h u x * dct h u' x * (dct w v y * dct w v' y) := by
    intro x y
    rw [dct2, dct2]
    ring
  simp only [hprod]
  rw [sum_grid_mul h w, sum_dct_mul hu hu', sum_dct_mul hv hv']
  by_cases huu : u = u'
  · rw [if_pos huu, one_mul]
    exact if_congr (Prod.mk_right_inj.symm.trans (by rw [huu])) rfl rfl
  · rw [if_neg huu, zero_mul, if_neg fun h => huu (congrArg Prod.fst h)]

/-- The sum of a basis vector of the grid. -/
theorem sum_dct2 {h w u v : ℕ} (hu : u < h) (hv : v < w) :
    ∑ x ∈ Finset.range h, ∑ y ∈ Finset.range w, dct2 h w u v x y
      = if u = 0 ∧ v = 0 then Real.sqrt h * Real.sqrt w else 0 := by
  have hprod : ∑ x ∈ Finset.range h, ∑ y ∈ Finset.range w, dct2 h w u v x y
      = (∑ x ∈ Finset.range h, dct h u x) * ∑ y ∈ Finset.range w, dct w v y :=
    sum_grid_mul h w _ _
  rw [hprod, sum_dct hu, sum_dct hv, ite_zero_mul_ite_zero]

/-! ### Orthonormal families -/

section
variable {ι κ : Type} [Fintype ι] [DecidableEq ι] {e : ι → κ → ℝ} {s : Finset κ}

/-- The family is orthonormal on the samples of `s`. -/
def OrthonormalOn (s : Finset κ) (e : ι → κ → ℝ) : Prop :=
  ∀ i j, ∑ k ∈ s, e i k * e j k = if i = j then 1 else 0

omit [DecidableEq ι] in
/-- The product with a combination, by the coefficients. -/
theorem sum_combination_mul (a : ι → ℝ) (y : κ → ℝ) :
    ∑ k ∈ s, (∑ i, a i * e i k) * y k = ∑ i, a i * ∑ k ∈ s, y k * e i k := by
  simp only [Finset.sum_mul, Finset.mul_sum]
  rw [Finset.sum_comm]
  exact Finset.sum_congr rfl fun i _ => Finset.sum_congr rfl fun k _ => by ring

/-- The coefficients of a combination are read back. -/
theorem sum_coeff (he : OrthonormalOn s e) (a : ι → ℝ) (i : ι) :
    ∑ k ∈ s, (∑ j, a j * e j k) * e i k = a i := by
  rw [sum_combination_mul, Finset.sum_congr rfl fun j _ => by rw [he i j]]
  simp

/-- The coefficients have the energy of the samples at most. -/
theorem sum_sq_coeff_le (he : OrthonormalOn s e) (x : κ → ℝ) :
    ∑ i, (∑ k ∈ s, x k * e i k) ^ 2 ≤ ∑ k ∈ s, x k ^ 2 := by
  let coeff : ι → ℝ := fun i => ∑ k ∈ s, x k * e i k
  let projection : κ → ℝ := fun k => ∑ i, coeff i * e i k
  have hcross : ∑ k ∈ s, projection k * x k = ∑ i, coeff i ^ 2 := by
    rw [sum_combination_mul]
    exact Finset.sum_congr rfl fun i _ => (pow_two (coeff i)).symm
  have hself : ∑ k ∈ s, projection k * projection k = ∑ i, coeff i ^ 2 := by
    rw [sum_combination_mul]
    refine Finset.sum_congr rfl fun i _ => ?_
    rw [sum_coeff he coeff i, pow_two]
  -- The distance of `x` from its projection is not negative.
  have hdist : 0 ≤ ∑ k ∈ s, (x k - projection k) ^ 2 := Finset.sum_nonneg fun k _ => sq_nonneg _
  have hsplit : ∑ k ∈ s, (x k - projection k) ^ 2
      = ∑ k ∈ s, x k ^ 2 - 2 * (∑ k ∈ s, projection k * x k)
        + ∑ k ∈ s, projection k * projection k := by
    rw [Finset.mul_sum, ← Finset.sum_sub_distrib, ← Finset.sum_add_distrib]
    exact Finset.sum_congr rfl fun k _ => by ring
  rw [hsplit, hcross, hself] at hdist
  show ∑ i, coeff i ^ 2 ≤ _
  linarith

end

end W2Net
