import Mathlib.Algebra.BigOperators.Group.Finset.Basic
import Mathlib.Analysis.SpecialFunctions.Exp
import W2Net.Lib.Numerals

/-!
# `W2Net.Lib.Attention`: attention from one row to a matrix of rows

A query row is compared with every row of a matrix by their projections. The `softmax` of the
scores weights the rows of the matrix (`attend`). The result depends on the query and on the
rows only through their first columns (`attend_congr`).
-/

set_option autoImplicit false

namespace W2Net.Attention

open Finset (range)

/-- The weights of a linear layer: `weight o k` from column `k` to column `o`. -/
structure Affine where
  weight : ℕ → ℕ → ℝ
  bias : ℕ → ℝ

/-- A linear layer on a row with `n` columns. -/
noncomputable def Affine.apply (f : Affine) (n : ℕ) (x : ℕ → ℝ) (o : ℕ) : ℝ :=
  ∑ k ∈ range n, f.weight o k * x k + f.bias o

/-- The softmax of `n` scores. -/
noncomputable def softmax (n : ℕ) (x : ℕ → ℝ) (i : ℕ) : ℝ :=
  Real.exp (x i) / ∑ j ∈ range n, Real.exp (x j)

variable (f g : Affine) (C D R : ℕ)

/-- The product of the projections to `D` columns. -/
noncomputable def score (query key : ℕ → ℝ) : ℝ :=
  ∑ j ∈ range D, f.apply C query j * g.apply C key j

/-- The `R` rows, weighted by the softmax of their scores. -/
noncomputable def attend (query : ℕ → ℝ) (rows : ℕ → ℕ → ℝ) (k : ℕ) : ℝ :=
  ∑ r ∈ range R, rows r k * softmax R (fun s => score f g C D query (rows s)) r

variable {C D R}

theorem Affine.apply_congr {x y : ℕ → ℝ} (h : ∀ k < C, x k = y k) (o : ℕ) :
    f.apply C x o = f.apply C y o := by
  rw [Affine.apply, Affine.apply]
  congr 1
  refine Finset.sum_congr rfl fun k hk => ?_
  rw [h k (Finset.mem_range.mp hk)]

theorem softmax_congr {x y : ℕ → ℝ} (h : ∀ r < R, x r = y r) {i : ℕ} (hi : i < R) :
    softmax R x i = softmax R y i := by
  rw [softmax, softmax, h i hi]
  congr 1
  refine Finset.sum_congr rfl fun r hr => ?_
  rw [h r (Finset.mem_range.mp hr)]

/-- Only the first `C` columns of the query and of the first `R` rows matter. -/
theorem attend_congr {query query' : ℕ → ℝ} {rows rows' : ℕ → ℕ → ℝ}
    (hquery : ∀ k < C, query k = query' k) (hrows : ∀ r < R, ∀ k < C, rows r k = rows' r k) {k : ℕ}
    (hk : k < C) : attend f g C D R query rows k = attend f g C D R query' rows' k := by
  have hscore : ∀ r < R, score f g C D query (rows r) = score f g C D query' (rows' r) := by
    intro r hr
    rw [score, score]
    refine Finset.sum_congr rfl fun j _ => ?_
    rw [f.apply_congr hquery, g.apply_congr (hrows r hr)]
  rw [attend, attend]
  refine Finset.sum_congr rfl fun r hr => ?_
  have hr' := Finset.mem_range.mp hr
  rw [hrows r hr' k hk, softmax_congr hscore hr']

end W2Net.Attention
