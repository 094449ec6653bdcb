import Mathlib.Data.Matrix.Mul
import Mathlib.LinearAlgebra.Matrix.NonsingularInverse
import Mathlib.Tactic.Ring

/-!
# `W2Net.Lib.FilterBank`: orthonormal filters on blocks

A filter bank multiplies every block of a grid on both sides with the matrix of its filters. When
the filters are orthonormal, a block can be read back from the responses (`conj_cancel`), and the
responses have the energy of the block (`sum_sq_conj`).

`sum_blocks`, `sum_grid_blocks`: blocks of two samples, from one sample before the first on, hold
every sample once, for an even and for an odd number of samples.
-/

set_option autoImplicit false

namespace W2Net

/-! ### One block -/

section
variable {K ι : Type} [CommRing K] [Fintype ι]

open Matrix in
/-- The energy of a block is a trace. -/
theorem sum_sq_eq_trace (X : Matrix ι ι K) : ∑ r, ∑ s, X r s ^ 2 = (X * Xᵀ).trace := by
  refine Finset.sum_congr rfl fun r _ => ?_
  rw [Matrix.diag_apply, Matrix.mul_apply]
  refine Finset.sum_congr rfl fun s _ => ?_
  rw [sq, Matrix.transpose_apply]

variable [DecidableEq ι] {Q : Matrix ι ι K}

open Matrix in
/-- The block from the responses of its filters. -/
theorem conj_cancel (hQ : Q * Qᵀ = 1) (X : Matrix ι ι K) : Qᵀ * (Q * X * Qᵀ) * Q = X := by
  have hQ' : Qᵀ * Q = 1 := mul_eq_one_comm.mp hQ
  calc Qᵀ * (Q * X * Qᵀ) * Q = Qᵀ * Q * X * (Qᵀ * Q) := by simp only [Matrix.mul_assoc]
    _ = X := by rw [hQ', Matrix.one_mul, Matrix.mul_one]

open Matrix in
/-- The responses have the energy of the block. -/
theorem sum_sq_conj (hQ : Q * Qᵀ = 1) (X : Matrix ι ι K) :
    ∑ r, ∑ s, (Q * X * Qᵀ) r s ^ 2 = ∑ u, ∑ v, X u v ^ 2 := by
  have hQ' : Qᵀ * Q = 1 := mul_eq_one_comm.mp hQ
  have hprod : Q * X * Qᵀ * (Q * X * Qᵀ)ᵀ = Q * (X * Xᵀ) * Qᵀ := by
    rw [Matrix.transpose_mul, Matrix.transpose_mul, Matrix.transpose_transpose]
    calc Q * X * Qᵀ * (Q * (Xᵀ * Qᵀ)) = Q * X * (Qᵀ * Q) * (Xᵀ * Qᵀ) := by
          simp only [Matrix.mul_assoc]
      _ = Q * (X * Xᵀ) * Qᵀ := by simp only [hQ', Matrix.mul_one, Matrix.mul_assoc]
  rw [sum_sq_eq_trace, sum_sq_eq_trace, hprod, Matrix.trace_mul_comm, ← Matrix.mul_assoc, hQ',
    Matrix.one_mul]

end

/-! ### All blocks -/

section
variable {K : Type} [AddCommMonoid K]

theorem sum_pairs (g : ℕ → K) (m : ℕ) :
    ∑ i ∈ Finset.range m, ∑ u ∈ Finset.range 2, g (i * 2 + u) = ∑ p ∈ Finset.range (m * 2), g p := by
  induction m with
  | zero => rfl
  | succ m ih =>
      have hpair : ∑ u ∈ Finset.range 2, g (m * 2 + u) = g (m * 2) + g (m * 2 + 1) :=
        Finset.sum_range_succ_comm _ 1 |>.trans (by rw [Finset.sum_range_one, add_comm]; rfl)
      rw [Finset.sum_range_succ, ih, hpair, Nat.succ_mul, ← add_assoc,
        ← Finset.sum_range_succ, ← Finset.sum_range_succ]

/-- The blocks hold the samples 1 to `n` once, when there is nothing around them. -/
theorem sum_blocks {g : ℕ → K} {n : ℕ} (hbefore : g 0 = 0) (hafter : ∀ p, n < p → g p = 0) :
    ∑ i ∈ Finset.range (n / 2 + 1), ∑ u ∈ Finset.range 2, g (i * 2 + u)
      = ∑ t ∈ Finset.range n, g (t + 1) := by
  rw [sum_pairs]
  have hsub : Finset.range (n + 1) ⊆ Finset.range ((n / 2 + 1) * 2) :=
    Finset.range_subset_range.mpr (by omega)
  rw [← Finset.sum_subset hsub fun p _ hp => hafter p (by rw [Finset.mem_range] at hp; omega),
    Finset.sum_range_succ', hbefore, add_zero]

/-- The same on a grid. -/
theorem sum_grid_blocks {g : ℕ → ℕ → K} {h w : ℕ} (hrow : ∀ q, g 0 q = 0)
    (hrow' : ∀ p q, h < p → g p q = 0) (hcol : ∀ p, g p 0 = 0) (hcol' : ∀ p q, w < q → g p q = 0) :
    ∑ i ∈ Finset.range (h / 2 + 1), ∑ j ∈ Finset.range (w / 2 + 1),
        ∑ u ∈ Finset.range 2, ∑ v ∈ Finset.range 2, g (i * 2 + u) (j * 2 + v)
      = ∑ t ∈ Finset.range h, ∑ s ∈ Finset.range w, g (t + 1) (s + 1) := by
  have hline : ∀ p, ∑ j ∈ Finset.range (w / 2 + 1), ∑ v ∈ Finset.range 2, g p (j * 2 + v)
      = ∑ s ∈ Finset.range w, g p (s + 1) :=
    fun p => sum_blocks (hcol p) (hcol' p)
  have hblocks : ∑ i ∈ Finset.range (h / 2 + 1), ∑ u ∈ Finset.range 2,
        ∑ s ∈ Finset.range w, g (i * 2 + u) (s + 1)
      = ∑ t ∈ Finset.range h, ∑ s ∈ Finset.range w, g (t + 1) (s + 1) :=
    sum_blocks (Finset.sum_eq_zero fun s _ => hrow (s + 1))
      fun p hp => Finset.sum_eq_zero fun s _ => hrow' p (s + 1) hp
  rw [← hblocks]
  refine Finset.sum_congr rfl fun i _ => ?_
  rw [Finset.sum_comm]
  exact Finset.sum_congr rfl fun u _ => hline (i * 2 + u)

end

end W2Net
