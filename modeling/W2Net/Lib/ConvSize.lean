import Mathlib.Algebra.Order.Group.Nat
import Mathlib.Tactic.Common
import Mathlib.Tactic.Ring

/-!
# `W2Net.Lib.ConvSize`: sizes along a chain of convolutions

`convOut k s p n` is the size of one axis after a convolution or a pooling with
kernel `k`, stride `s` and padding `p`. With `k = 2 * p + 1` it depends on the
stride alone (`convOut_odd`): it is `strided s n`.

`iterate_strided_two` is the closed form of repeated halving: `x` layers of
stride 2 give the rounded-up quotient by `2 ^ x`.
-/

set_option autoImplicit false

namespace W2Net

/-- The size after a convolution. The division is Python's `//` on a numerator
that is not negative. -/
def convOut (k s p n : ℕ) : ℕ := (n + 2 * p - k) / s + 1

/-- The number of positions at distance `s` from each other, from the first one. -/
def strided (s n : ℕ) : ℕ := (n - 1) / s + 1

theorem strided_pos (s n : ℕ) : 0 < strided s n := Nat.succ_pos _

theorem strided_one {n : ℕ} (h : 0 < n) : strided 1 n = n := by
  rw [strided, Nat.div_one]
  omega

/-- An odd kernel with half of it as padding. -/
theorem convOut_odd (s p n : ℕ) : convOut (2 * p + 1) s p n = strided s n := by
  rw [convOut, strided]
  congr 2
  omega

/-- A quotient that is rounded up, rounded up once more. -/
theorem strided_two_ceil {m n : ℕ} (hm : 0 < m) (hn : 0 < n) :
    strided 2 ((n + m - 1) / m) = (n + m * 2 - 1) / (m * 2) := by
  have hge : m ≤ n + m - 1 := by omega
  have hpos : 0 < (n + m - 1) / m := Nat.div_pos hge hm
  calc strided 2 ((n + m - 1) / m) = ((n + m - 1) / m + 1) / 2 := by
        rw [strided]
        omega
    _ = ((n + m - 1 + m) / m) / 2 := by rw [Nat.add_div_right _ hm]
    _ = (n + m - 1 + m) / (m * 2) := Nat.div_div_eq_div_mul _ _ _
    _ = (n + m * 2 - 1) / (m * 2) := by
        congr 1
        omega

/-- `x` layers of stride 2 against one division. -/
theorem iterate_strided_two {n : ℕ} (hn : 0 < n) (x : ℕ) :
    (strided 2)^[x] n = (n + 2 ^ x - 1) / 2 ^ x := by
  induction x with
  | zero => simp
  | succ x ih =>
      rw [Function.iterate_succ_apply', ih, strided_two_ceil (Nat.two_pow_pos x) hn, pow_succ]

/-- A chain of convolutions of stride 2 with odd kernels, given by their
paddings, halves once for each of them. -/
theorem foldl_convOut_two (paddings : List ℕ) (n : ℕ) :
    paddings.foldl (fun m p => convOut (2 * p + 1) 2 p m) n = (strided 2)^[paddings.length] n := by
  induction paddings generalizing n with
  | nil => rfl
  | cons p ps ih =>
      rw [List.foldl_cons, ih, convOut_odd, List.length_cons, Function.iterate_succ_apply]

end W2Net
