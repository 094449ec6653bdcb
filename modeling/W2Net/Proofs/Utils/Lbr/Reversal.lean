import Mathlib.Tactic.Linarith
import Mathlib.Tactic.Ring
import W2Net.Proofs.Utils.Lbr.Bresenham

/-!
# `W2Net.Proofs.Utils.Lbr.Reversal`: the digital line from its other end

In column `i` the line of `bresenham_line` is in the row nearest to the exact
line. At a half pixel it takes the row nearer to the row of the first point
(`lowRow`, `bresenhamPixels_columns`). From the other end, the first point is the
other one, so the two lines agree outside the half pixels and differ at each of
them (`bresenhamPixels_mem_iff`).
-/

set_option autoImplicit false

namespace W2Net.Proofs.Lbr

open W2Net.Lbr

/-! ### The rows of a line with more columns than rows -/

/-- The integer nearest to `dy * i / dx`, the smaller one at a half. -/
def lowRow (dx dy i : ℤ) : ℤ := -((dx - 2 * dy * i) / (2 * dx))

theorem lowRow_eq_iff {dx : ℤ} (hdx : 0 < dx) (dy i j : ℤ) :
    lowRow dx dy i = j ↔ dx * (2 * j - 1) < 2 * dy * i ∧ 2 * dy * i ≤ dx * (2 * j + 1) := by
  rw [lowRow, neg_eq_iff_eq_neg, Int.ediv_eq_iff_of_pos (by omega)]
  constructor
  · rintro ⟨h1, h2⟩
    constructor <;> nlinarith
  · rintro ⟨h1, h2⟩
    constructor <;> nlinarith

section
variable {dx dy : ℤ} (hdx : 0 < dx)

include hdx

theorem lowRow_zero (dy : ℤ) : lowRow dx dy 0 = 0 :=
  (lowRow_eq_iff hdx dy 0 0).mpr ⟨by linarith, by linarith⟩

theorem lowRow_last (dy : ℤ) : lowRow dx dy dx = dy :=
  (lowRow_eq_iff hdx dy dx dy).mpr ⟨by nlinarith, by nlinarith⟩

/-- A row without slope stays the first one. -/
theorem lowRow_flat (i : ℤ) : lowRow dx 0 i = 0 :=
  (lowRow_eq_iff hdx 0 i 0).mpr ⟨by linarith, by linarith⟩

/-- The column moves in every round: the test on the error never fails. -/
theorem error_lower (hdy : 0 ≤ dy) (hle : dy ≤ dx) (i : ℤ) :
    -dy < 2 * (dx * (lowRow dx dy i + 1) - dy * (i + 1)) := by
  obtain ⟨-, hup⟩ := (lowRow_eq_iff hdx dy i _).mp rfl
  rcases eq_or_lt_of_le hle with heq | hlt
  · -- On the diagonal the bound is not attained: it is odd.
    subst heq
    have hne : 2 * i ≠ 2 * lowRow dy dy i + 1 := by omega
    have hle' : 2 * i ≤ 2 * lowRow dy dy i + 1 := by
      by_contra hgt
      have : dy * (2 * lowRow dy dy i + 1) < dy * (2 * i) :=
        mul_lt_mul_of_pos_left (not_le.mp hgt) hdx
      linarith
    have hlt : 2 * i + 1 ≤ 2 * lowRow dy dy i + 1 := by omega
    nlinarith
  · linarith

/-- The row moves exactly when the test on the error says so. -/
theorem lowRow_succ (hdy : 0 ≤ dy) (hle : dy ≤ dx) (i : ℤ) :
    lowRow dx dy (i + 1)
      = if 2 * (dx * (lowRow dx dy i + 1) - dy * (i + 1)) < dx then lowRow dx dy i + 1
        else lowRow dx dy i := by
  obtain ⟨hlow, hup⟩ := (lowRow_eq_iff hdx dy i _).mp rfl
  generalize lowRow dx dy i = j at hlow hup
  split
  · rename_i hlt
    exact (lowRow_eq_iff hdx dy _ _).mpr ⟨by linarith, by linarith⟩
  · rename_i hge
    exact (lowRow_eq_iff hdx dy _ _).mpr ⟨by linarith, by linarith⟩

/-- From column `i` on, the loop visits the remaining columns in their rows.
Induction on the number of columns left. -/
theorem bresenhamLoop_columns (hdy : 0 ≤ dy) (hle : dy ≤ dx) {sx : ℤ} (hsx : sx = 1 ∨ sx = -1)
    (sy x0 y0 : ℤ) :
    ∀ (n i : ℕ), (i : ℤ) + n = dx →
      bresenhamLoop dx dy sx sy (x0 + sx * dx) (y0 + sy * dy) (n + 1) (x0 + sx * i)
          (y0 + sy * lowRow dx dy i) (dx * (lowRow dx dy i + 1) - dy * (i + 1))
        = (List.range' i (n + 1)).map fun c : ℕ => ⟨x0 + sx * c, y0 + sy * lowRow dx dy c⟩ := by
  intro n
  induction n with
  | zero =>
      intro i hi
      have hi' : (i : ℤ) = dx := by omega
      simp only [bresenhamLoop, hi', lowRow_last hdx, and_self, if_true]
      simp [hi', lowRow_last hdx]
  | succ n ih =>
      intro i hi
      have hx : x0 + sx * i ≠ x0 + sx * dx := by
        rcases hsx with rfl | rfl <;> omega
      have hcol : x0 + sx * i + sx = x0 + sx * (i + 1 : ℕ) := by push_cast; ring
      rw [bresenhamLoop, if_neg fun hend => hx hend.1, List.range'_succ, List.map_cons,
        ← ih (i + 1) (by push_cast; omega)]
      simp only [if_pos (error_lower hdx hdy hle i), hcol]
      -- The row of the next column decides the second test of the loop.
      have hsucc := lowRow_succ hdx hdy hle i
      rw [show ((i : ℤ) + 1) = (i + 1 : ℕ) by push_cast; ring] at hsucc
      rw [hsucc]
      push_cast
      split
      · congr 2
        all_goals ring
      · congr 2
        all_goals ring

/-- The exact line is at half a pixel in column `i`. -/
def HalfPixel (dx dy i : ℤ) : Prop := ∃ j, 2 * dy * i = dx * (2 * j + 1)

omit hdx in
/-- Seen from the last column, the rows are the same outside the half pixels. -/
theorem lowRow_reverse_iff (hdx : 0 < dx) (dy i : ℤ) :
    lowRow dx dy (dx - i) = dy - lowRow dx dy i ↔ ¬HalfPixel dx dy i := by
  obtain ⟨hlow, hup⟩ := (lowRow_eq_iff hdx dy i _).mp rfl
  rw [lowRow_eq_iff hdx]
  constructor
  · rintro ⟨h1, -⟩ ⟨j, hj⟩
    -- The half pixel is the one above `lowRow`.
    have hrow : lowRow dx dy i = j := (lowRow_eq_iff hdx dy i j).mpr ⟨by nlinarith, by linarith⟩
    rw [hrow] at h1
    linarith
  · intro hne
    have hlt : 2 * dy * i < dx * (2 * lowRow dx dy i + 1) :=
      lt_of_le_of_ne hup fun heq => hne ⟨_, heq⟩
    exact ⟨by linarith, by linarith⟩

/-- The ends of the line are not at half pixels. -/
theorem HalfPixel.interior {i : ℤ} (h : HalfPixel dx dy i) (hi : 0 ≤ i) (hi' : i ≤ dx) :
    0 < i ∧ i < dx := by
  obtain ⟨j, hj⟩ := h
  have hne : i ≠ 0 := by
    rintro rfl
    have hzero : dx * (2 * j + 1) = 0 := by linarith
    rcases mul_eq_zero.mp hzero with h | h <;> omega
  have hne' : i ≠ dx := by
    rintro rfl
    have heq : i * (2 * dy) = i * (2 * j + 1) := by linarith
    have := mul_left_cancel₀ hdx.ne' heq
    omega
  omega

end

/-! ### The two directions -/

/-- The sign the code gives to a step from `a` to `b`. -/
def stepSign (a b : ℤ) : ℤ := if a < b then 1 else -1

/-- The pixel of column `c` on the line from `p` to `q`. -/
def columnPixel (p q : Pixel) (c : ℤ) : Pixel :=
  ⟨p.x + stepSign p.x q.x * c,
    p.y + stepSign p.y q.y * lowRow |q.x - p.x| |q.y - p.y| c⟩

theorem stepSign_cases (a b : ℤ) : stepSign a b = 1 ∨ stepSign a b = -1 := by
  unfold stepSign
  split <;> simp

theorem stepSign_mul_abs (a b : ℤ) : a + stepSign a b * |b - a| = b := sign_mul_abs a b

theorem stepSign_comm {a b : ℤ} (h : a ≠ b) : stepSign b a = -stepSign a b := by
  unfold stepSign
  split <;> split <;> omega

section
variable {p q : Pixel} (hne : p.x ≠ q.x) (hle : |q.y - p.y| ≤ |q.x - p.x|)

include hne hle

theorem bresenhamPixels_columns :
    bresenhamPixels p q
      = (List.range (|q.x - p.x|.toNat + 1)).map fun c : ℕ => columnPixel p q c := by
  have hdx : 0 < |q.x - p.x| := abs_pos.mpr (by omega)
  have hloop := bresenhamLoop_columns hdx (abs_nonneg (q.y - p.y)) hle (stepSign_cases p.x q.x)
    (stepSign p.y q.y) p.x p.y |q.x - p.x|.toNat 0 (by push_cast; omega)
  simp only [stepSign_mul_abs, Nat.cast_zero, lowRow_zero hdx, mul_zero, add_zero, zero_add,
    mul_one] at hloop
  rw [List.range_eq_range', bresenhamPixels, max_eq_left hle]
  exact hloop

omit hle in
/-- The same pixel from the other end. -/
theorem columnPixel_comm_iff (c : ℤ) :
    columnPixel q p (|q.x - p.x| - c) = columnPixel p q c ↔
      ¬HalfPixel |q.x - p.x| |q.y - p.y| c := by
  have hdx : 0 < |q.x - p.x| := abs_pos.mpr (by omega)
  have hx := stepSign_mul_abs p.x q.x
  have hy := stepSign_mul_abs p.y q.y
  rw [← lowRow_reverse_iff hdx]
  simp only [columnPixel, Pixel.mk.injEq, abs_sub_comm p.x q.x, abs_sub_comm p.y q.y,
    stepSign_comm hne]
  generalize |q.x - p.x| = dx at *
  have hcol : q.x + -stepSign p.x q.x * (dx - c) = p.x + stepSign p.x q.x * c := by linarith
  -- A level line has no half pixel, and its rows are the same from both ends.
  by_cases hflat : p.y = q.y
  · simpa [hflat, lowRow_flat hdx] using hcol
  · rw [stepSign_comm hflat]
    generalize |q.y - p.y| = dy at *
    simp only [hcol, true_and]
    rcases stepSign_cases p.y q.y with hs | hs <;> rw [hs] at hy ⊢ <;> constructor <;> intro h <;>
      linarith

theorem bresenhamPixels_reversed_columns :
    bresenhamPixels q p
      = (List.range (|q.x - p.x|.toNat + 1)).map fun c : ℕ => columnPixel q p c := by
  have hle' : |p.y - q.y| ≤ |p.x - q.x| := by
    rw [abs_sub_comm p.y, abs_sub_comm p.x]
    exact hle
  rw [bresenhamPixels_columns hne.symm hle', abs_sub_comm p.x]

/-- Without half pixels the line is the same from both ends. -/
theorem bresenhamPixels_reverse_of_le
    (h : ∀ c, 0 < c → c < |q.x - p.x| → ¬HalfPixel |q.x - p.x| |q.y - p.y| c) :
    bresenhamPixels q p = (bresenhamPixels p q).reverse := by
  have hdx : 0 < |q.x - p.x| := abs_pos.mpr (by omega)
  -- The two end columns never hold a half pixel.
  have hclear : ∀ c, 0 ≤ c → c ≤ |q.x - p.x| → ¬HalfPixel |q.x - p.x| |q.y - p.y| c := by
    intro c hc hc' hhalf
    obtain ⟨h0, h1⟩ := hhalf.interior hdx hc hc'
    exact h c h0 h1 hhalf
  rw [bresenhamPixels_columns hne hle, bresenhamPixels_reversed_columns hne hle]
  apply List.ext_getElem
  · simp
  · intro i hi hi'
    simp only [List.length_map, List.length_range] at hi
    simp only [List.getElem_map, List.getElem_range, List.getElem_reverse, List.length_map,
      List.length_range]
    have hcast : ((|q.x - p.x|.toNat + 1 - 1 - i : ℕ) : ℤ) = |q.x - p.x| - i := by omega
    rw [hcast, ← (columnPixel_comm_iff hne _).mpr (hclear _ (by omega) (by omega))]
    congr 1
    omega

/-- At a half pixel the two lines are in different rows. -/
theorem bresenhamPixels_mem_iff_of_le :
    (∀ px, px ∈ bresenhamPixels q p ↔ px ∈ bresenhamPixels p q) ↔
      ∀ c, 0 < c → c < |q.x - p.x| → ¬HalfPixel |q.x - p.x| |q.y - p.y| c := by
  constructor
  · intro hsame c hc hc'
    have hmem : columnPixel p q c ∈ bresenhamPixels p q := by
      rw [bresenhamPixels_columns hne hle]
      exact List.mem_map.mpr ⟨c.toNat, List.mem_range.mpr (by omega), by congr 1; omega⟩
    have hmem' := (hsame _).mpr hmem
    rw [bresenhamPixels_reversed_columns hne hle] at hmem'
    obtain ⟨c', -, heq⟩ := List.mem_map.mp hmem'
    -- A line has one pixel in each column.
    have hcol : (c' : ℤ) = |q.x - p.x| - c := by
      have hx := congrArg Pixel.x heq
      have habs := stepSign_mul_abs p.x q.x
      simp only [columnPixel, stepSign_comm hne] at hx
      rcases stepSign_cases p.x q.x with hs | hs <;> rw [hs] at hx habs <;> linarith
    rw [hcol] at heq
    exact (columnPixel_comm_iff hne c).mp heq
  · intro h px
    rw [bresenhamPixels_reverse_of_le hne hle h, List.mem_reverse]

end

/-- Exchanging the axes of the end points exchanges them for the line. -/
theorem bresenhamPixels_swap (p q : Pixel) :
    bresenhamPixels (swapPixel p) (swapPixel q) = (bresenhamPixels p q).map swapPixel := by
  have hloop := bresenhamLoop_swap |q.x - p.x| |q.y - p.y| (stepSign p.x q.x) (stepSign p.y q.y)
    q.x q.y ((max |q.x - p.x| |q.y - p.y|).toNat + 1) p.x p.y (|q.x - p.x| - |q.y - p.y|)
  rw [neg_sub] at hloop
  have hmax : max |(swapPixel q).x - (swapPixel p).x| |(swapPixel q).y - (swapPixel p).y|
      = max |q.x - p.x| |q.y - p.y| := max_comm _ _
  rw [bresenhamPixels, hmax]
  exact hloop

theorem swapPixel_swapPixel (p : Pixel) : swapPixel (swapPixel p) = p := rfl

/-- The exact line between the two pixels is nowhere at half a pixel, on its
longer axis. -/
def NoHalfPixel (p q : Pixel) : Prop :=
  let major := max |q.x - p.x| |q.y - p.y|
  let minor := min |q.x - p.x| |q.y - p.y|
  ∀ c, 0 < c → c < major → ¬HalfPixel major minor c

theorem noHalfPixel_swap (p q : Pixel) :
    NoHalfPixel (swapPixel p) (swapPixel q) ↔ NoHalfPixel p q := by
  simp only [NoHalfPixel, swapPixel, max_comm |q.y - p.y|, min_comm |q.y - p.y|]

theorem noHalfPixel_of_le {p q : Pixel} (hle : |q.y - p.y| ≤ |q.x - p.x|) :
    NoHalfPixel p q ↔
      ∀ c, 0 < c → c < |q.x - p.x| → ¬HalfPixel |q.x - p.x| |q.y - p.y| c := by
  simp only [NoHalfPixel, max_eq_left hle, min_eq_right hle]

/-- A line with more columns than rows, a line with more rows than columns, or a
single pixel. -/
theorem line_cases (p q : Pixel) :
    (p.x ≠ q.x ∧ |q.y - p.y| ≤ |q.x - p.x|) ∨
      ((swapPixel p).x ≠ (swapPixel q).x ∧
        |(swapPixel q).y - (swapPixel p).y| ≤ |(swapPixel q).x - (swapPixel p).x|) ∨ p = q := by
  by_cases heq : p = q
  · exact Or.inr (Or.inr heq)
  · have hne : p.x ≠ q.x ∨ p.y ≠ q.y := by
      by_contra hboth
      rw [not_or, not_not, not_not] at hboth
      cases p
      cases q
      exact heq (by rw [Pixel.mk.injEq]; exact hboth)
    -- The longer extent is not zero, since the shorter one would be zero as well.
    rcases le_total |q.y - p.y| |q.x - p.x| with hle | hle
    · refine Or.inl ⟨fun hx => ?_, hle⟩
      rw [hx, sub_self, abs_zero] at hle
      have := abs_eq_zero.mp (le_antisymm hle (abs_nonneg _))
      omega
    · refine Or.inr (Or.inl ⟨fun hy => ?_, hle⟩)
      have hy' : p.y = q.y := hy
      rw [hy', sub_self, abs_zero] at hle
      have := abs_eq_zero.mp (le_antisymm hle (abs_nonneg _))
      omega

/-- Without half pixels, the line from the other end is the reversed line. -/
theorem bresenhamPixels_reverse {p q : Pixel} (h : NoHalfPixel p q) :
    bresenhamPixels q p = (bresenhamPixels p q).reverse := by
  rcases line_cases p q with ⟨hne, hle⟩ | ⟨hne, hle⟩ | rfl
  · exact bresenhamPixels_reverse_of_le hne hle ((noHalfPixel_of_le hle).mp h)
  · have hswap := bresenhamPixels_reverse_of_le hne hle
      ((noHalfPixel_of_le hle).mp ((noHalfPixel_swap p q).mpr h))
    rw [bresenhamPixels_swap, bresenhamPixels_swap, ← List.map_reverse] at hswap
    exact List.map_injective_iff.mpr (Function.LeftInverse.injective swapPixel_swapPixel) hswap
  · simp [bresenhamPixels, bresenhamLoop]

/-- The lines from the two ends have the same pixels exactly when there is no
half pixel between them. -/
theorem bresenhamPixels_mem_iff (p q : Pixel) :
    (∀ px, px ∈ bresenhamPixels q p ↔ px ∈ bresenhamPixels p q) ↔ NoHalfPixel p q := by
  rcases line_cases p q with ⟨hne, hle⟩ | ⟨hne, hle⟩ | rfl
  · rw [bresenhamPixels_mem_iff_of_le hne hle, noHalfPixel_of_le hle]
  · -- A steep line is the flat one with the coordinates exchanged.
    have hmem : ∀ (a b px : Pixel),
        px ∈ bresenhamPixels a b ↔ swapPixel px ∈ bresenhamPixels (swapPixel a) (swapPixel b) := by
      intro a b px
      rw [bresenhamPixels_swap]
      exact (List.mem_map_of_injective
        (Function.LeftInverse.injective swapPixel_swapPixel)).symm
    rw [← noHalfPixel_swap, noHalfPixel_of_le hle, ← bresenhamPixels_mem_iff_of_le hne hle]
    constructor
    · intro h px
      have hpx := h (swapPixel px)
      rw [hmem, hmem p q] at hpx
      exact hpx
    · intro h px
      rw [hmem, hmem p q]
      exact h (swapPixel px)
  · exact iff_of_true (fun _ => Iff.rfl) (fun c h0 h1 => by simp at h1; omega)

end W2Net.Proofs.Lbr
