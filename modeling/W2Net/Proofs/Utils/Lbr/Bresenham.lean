import Mathlib.Tactic.Linarith
import Mathlib.Tactic.Ring
import W2Net.Utils.Lbr.Bresenham

/-!
# `W2Net.Proofs.Utils.Lbr.Bresenham`: the line loop ends at its end point

`bresenhamPixels` gives the loop of `bresenham_line` `max(dx, dy) + 1` rounds.
`bresenhamPixels_getLast?` shows that they suffice: the last point of the list
is the end point, so the loop left by its own `break`.

The two axes are alike up to the sign of the error term
(`bresenhamLoop_swap`), so the proof treats the case `dy ≤ dx` only. There the
column moves in every round. After `i` rounds with `j` row moves the error is
`dx * (j + 1) - dy * (i + 1)`, and it stays between `-dy / 2` and
`(3 * dx - 2 * dy) / 2` (`MajorX`). At `i = dx` these bounds leave only `j = dy`.
-/

set_option autoImplicit false

namespace W2Net.Proofs.Lbr

open W2Net.Lbr

/-- The pixel with its coordinates exchanged. -/
def swapPixel (p : Pixel) : Pixel := ⟨p.y, p.x⟩

/-- The loop with the axes exchanged and the error negated walks the mirrored
line. -/
theorem bresenhamLoop_swap (dx dy sx sy x1 y1 : ℤ) :
    ∀ (fuel : ℕ) (x y err : ℤ),
      bresenhamLoop dy dx sy sx y1 x1 fuel y x (-err)
        = (bresenhamLoop dx dy sx sy x1 y1 fuel x y err).map swapPixel := by
  intro fuel
  induction fuel with
  | zero => intro x y err; rfl
  | succ fuel ih =>
      intro x y err
      simp only [bresenhamLoop, List.map_cons, swapPixel]
      by_cases hend : x = x1 ∧ y = y1
      · rw [if_pos hend, if_pos ⟨hend.2, hend.1⟩, List.map_nil]
      · rw [if_neg hend, if_neg fun h => hend ⟨h.2, h.1⟩]
        -- The two step conditions trade places.
        have hx : -dx < 2 * -err ↔ 2 * err < dx := by omega
        have hy : 2 * -err < dy ↔ -dy < 2 * err := by omega
        simp only [hx, hy]
        rw [← ih]
        congr 2
        split <;> split <;> omega

/-- The invariant of the loop for `dy ≤ dx`, after `i` rounds and `j` row
moves. -/
structure MajorX (dx dy i j err : ℤ) : Prop where
  le : i ≤ dx
  error : err = dx * (j + 1) - dy * (i + 1)
  lower : -dy < 2 * err
  upper : 2 * err < 3 * dx - 2 * dy

/-- In the last column the row is the last row. -/
theorem MajorX.row_eq {dx dy j err : ℤ} (hdy : 0 ≤ dy) (hdx : 0 < dx)
    (h : MajorX dx dy dx j err) : j = dy := by
  have hlow := h.lower
  have hup := h.upper
  -- In terms of `k = j - dy` the bounds read `dy < 2 * dx * (k + 1) < 3 * dx`.
  obtain ⟨k, rfl⟩ : ∃ k, j = dy + k := ⟨j - dy, by omega⟩
  have herr : err = dx * (k + 1) - dy := by rw [h.error]; ring
  rw [herr] at hlow hup
  have hk0 : -1 < k := by nlinarith
  have hk1 : k < 1 := by nlinarith
  omega

/-- One round before the last column: the column moves, the row moves when the
error is small, and the invariant stays. -/
theorem MajorX.step {dx dy i j err : ℤ} (hdy : 0 ≤ dy) (hle : dy ≤ dx)
    (h : MajorX dx dy i j err) (hi : i < dx) :
    if 2 * err < dx then MajorX dx dy (i + 1) (j + 1) (err - dy + dx)
    else MajorX dx dy (i + 1) j (err - dy) := by
  have hlow := h.lower
  have hup := h.upper
  split
  · rename_i hlt
    exact ⟨by omega, by rw [h.error]; ring, by omega, by omega⟩
  · rename_i hge
    exact ⟨by omega, by rw [h.error]; ring, by omega, by omega⟩

/-- For `dy ≤ dx` the loop ends at the end point when it has one round left for
every column. -/
theorem bresenhamLoop_getLast?_of_le {dx dy : ℤ} (sx sy x0 y0 : ℤ) (hdy : 0 ≤ dy)
    (hle : dy ≤ dx) (hdx : 0 < dx) (hsx : sx = 1 ∨ sx = -1) :
    ∀ (fuel : ℕ) (i j err : ℤ), MajorX dx dy i j err → dx + 1 ≤ i + fuel →
      (bresenhamLoop dx dy sx sy (x0 + sx * dx) (y0 + sy * dy) fuel
        (x0 + sx * i) (y0 + sy * j) err).getLast? = some ⟨x0 + sx * dx, y0 + sy * dy⟩ := by
  intro fuel
  induction fuel with
  | zero =>
      intro i j err h hfuel
      have := h.le
      omega
  | succ fuel ih =>
      intro i j err h hfuel
      simp only [bresenhamLoop]
      rcases eq_or_lt_of_le h.le with heq | hlt
      · -- The last column: the row fits, and the loop breaks.
        subst heq
        rw [h.row_eq hdy hdx, if_pos ⟨rfl, rfl⟩]
        rfl
      · have hx : x0 + sx * i ≠ x0 + sx * dx := by
          rcases hsx with rfl | rfl <;> omega
        -- Before the last column `2 * err > -dy` always holds, and the column moves.
        rw [if_neg fun hend => hx hend.1, if_pos h.lower, if_pos h.lower]
        have hnext := h.step hdy hle hlt
        have hcol : x0 + sx * i + sx = x0 + sx * (i + 1) := by ring
        -- The row moves or stays, and the invariant holds of the next column either way.
        split at hnext
        · rename_i hrow
          have hrow' : y0 + sy * j + sy = y0 + sy * (j + 1) := by ring
          rw [if_pos hrow, if_pos hrow, hcol, hrow', List.getLast?_cons,
            ih (i + 1) (j + 1) _ hnext (by push_cast at hfuel; omega)]
          rfl
        · rename_i hrow
          rw [if_neg hrow, if_neg hrow, hcol, List.getLast?_cons,
            ih (i + 1) j _ hnext (by push_cast at hfuel; omega)]
          rfl

/-- A signed distance is its sign times its size. -/
theorem sign_mul_abs (a b : ℤ) :
    a + (if a < b then 1 else -1) * |b - a| = b := by
  split
  · rw [abs_of_pos (by omega)]; ring
  · rw [abs_of_nonpos (by omega)]; ring

/-- `bresenham_line` ends: the last point of the list is the end point. -/
theorem bresenhamPixels_getLast? (p q : Pixel) : (bresenhamPixels p q).getLast? = some q := by
  have hsx : (if p.x < q.x then (1 : ℤ) else -1) = 1 ∨ (if p.x < q.x then (1 : ℤ) else -1) = -1 := by
    split <;> simp
  have hsy : (if p.y < q.y then (1 : ℤ) else -1) = 1 ∨ (if p.y < q.y then (1 : ℤ) else -1) = -1 := by
    split <;> simp
  have hx := sign_mul_abs p.x q.x
  have hy := sign_mul_abs p.y q.y
  -- From here only the signs and the two distances matter.
  simp only [bresenhamPixels]
  generalize (if p.x < q.x then (1 : ℤ) else -1) = sx at *
  generalize (if p.y < q.y then (1 : ℤ) else -1) = sy at *
  have hdx : 0 ≤ |q.x - p.x| := abs_nonneg _
  have hdy : 0 ≤ |q.y - p.y| := abs_nonneg _
  generalize |q.x - p.x| = dx at *
  generalize |q.y - p.y| = dy at *
  have hq : q = ⟨p.x + sx * dx, p.y + sy * dy⟩ := by rw [hx, hy]
  rw [hq]
  rcases lt_or_ge dx dy with hlt | hle
  · -- The row is the longer axis: the mirrored loop.
    have hloop := bresenhamLoop_swap dy dx sy sx (p.y + sy * dy) (p.x + sx * dx)
      ((max dx dy).toNat + 1) p.y p.x (dy - dx)
    rw [show dx - dy = -(dy - dx) by ring]
    simp only [hloop, List.getLast?_map]
    have hlast := bresenhamLoop_getLast?_of_le sy sx p.y p.x hdx hlt.le
      (by omega) hsy ((max dx dy).toNat + 1) 0 0 (dy - dx)
      ⟨hdy, by ring, by omega, by omega⟩ (by omega)
    simp only [mul_zero, add_zero] at hlast
    rw [hlast]
    rfl
  · rcases eq_or_lt_of_le hdx with hzero | hpos
    · -- A single point.
      have hdy0 : dy = 0 := by omega
      subst hdy0
      rw [← hzero]
      simp [bresenhamLoop]
    · have hlast := bresenhamLoop_getLast?_of_le sx sy p.x p.y hdy hle hpos hsx
        ((max dx dy).toNat + 1) 0 0 (dx - dy) ⟨hdx, by ring, by omega, by omega⟩ (by omega)
      simp only [mul_zero, add_zero] at hlast
      exact hlast

end W2Net.Proofs.Lbr
