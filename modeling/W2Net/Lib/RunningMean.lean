import Mathlib.Algebra.BigOperators.Group.List.Basic
import Mathlib.Algebra.Field.Basic
import Mathlib.Data.Nat.Cast.Field
import Mathlib.Tactic.FieldSimp
import Mathlib.Tactic.LinearCombination
import Mathlib.Tactic.Ring
import W2Net.Lib.Numerals

/-!
# `W2Net.Lib.RunningMean`: a mean that is updated value by value

`meanStep i m x` takes the value `x` into a mean `m` of `i` values. With the
right `i` it gives the mean of all values (`mean_concat`). With any other `i` it
gives the mean for one value of `x` at most (`eq_length_of_meanStep`).
-/

set_option autoImplicit false

namespace W2Net

variable {K : Type} [Field K]

/-- The arithmetic mean, and 0 for no values. -/
def mean (xs : List K) : K := xs.sum / xs.length

/-- The mean after one more value. -/
def meanStep (i : ℕ) (m x : K) : K := (m * i + x) / (i + 1)

@[simp] theorem mean_nil : mean ([] : List K) = 0 := by simp [mean]

variable [CharZero K]

theorem mean_mul_length (xs : List K) : mean xs * xs.length = xs.sum := by
  cases xs with
  | nil => simp
  | cons x xs =>
      have hne : ((x :: xs).length : K) ≠ 0 := Nat.cast_ne_zero.mpr (by simp)
      rw [mean, div_mul_cancel₀ _ hne]

/-- The index of a value is the number of the values before it. -/
theorem mean_concat (xs : List K) (x : K) :
    mean (xs ++ [x]) = meanStep xs.length (mean xs) x := by
  rw [meanStep, mean_mul_length, mean, List.sum_append, List.sum_singleton, List.length_append,
    List.length_singleton, Nat.cast_succ]

/-- Two values tell whether the step has the right index. -/
theorem eq_length_of_meanStep {xs : List K} {i : ℕ} {m x y : K} (hne : x ≠ y)
    (hx : meanStep i m x = mean (xs ++ [x])) (hy : meanStep i m y = mean (xs ++ [y])) :
    i = xs.length := by
  have hi : (i : K) + 1 ≠ 0 := Nat.cast_add_one_ne_zero i
  have hn : (xs.length : K) + 1 ≠ 0 := Nat.cast_add_one_ne_zero xs.length
  rw [mean_concat, meanStep, meanStep, div_eq_div_iff hi hn] at hx hy
  -- The difference of the two equations has only the weights of `x` and `y`.
  have hdiff : (x - y) * ((xs.length : K) - i) = 0 := by linear_combination hx - hy
  have hzero : (xs.length : K) - i = 0 :=
    (mul_eq_zero.mp hdiff).resolve_left (sub_ne_zero.mpr hne)
  exact (Nat.cast_injective (sub_eq_zero.mp hzero)).symm

end W2Net
