import Mathlib.Algebra.Order.Field.Basic
import Mathlib.Data.List.Chain
import Mathlib.Data.List.Nodup
import Mathlib.Data.List.Range
import Mathlib.Data.Rat.Floor
import Mathlib.Tactic.FieldSimp
import W2Net.Proofs.Utils.Lbr.Reversal

/-!
# `W2Net.Proofs.Utils.Lbr.DigitalLine`: `bresenham_line` draws a digital line

`DigitalLine p q` says what a list of pixels has to be to draw the line from `p` to
`q`: it joins the end points, it has as many pixels as the longer axis, no pixel
comes twice, each move is a `Move` towards the end, and each pixel is `Near` the
exact line. For a line with more columns than rows the pixels are
`columnPixel p q`, and everything follows from `lowRow`. The other lines are mirror
images of these (`DigitalLine.of_swap`), or one pixel.

The Python loop is not bounded. `bresenhamRounds` is the loop with any number of
rounds, and more rounds than the pixels of the line change nothing
(`bresenhamRounds_eq`), so the loop ends by its own `break`.

The pixels stay between the end points on both axes, so the conversion to
`np.int32` at the end is exact when it is for the end points.
-/

set_option autoImplicit false

namespace W2Net.Proofs.Lbr

open W2Net.Lbr

/-! ### Digital lines -/

/-- A move from `r` to `r'` on the line from `p` to `q`. On the diagonal both axes
are the longer one. -/
structure Move (p q r r' : Pixel) : Prop where
  x_le : |r'.x - r.x| ≤ 1
  y_le : |r'.y - r.y| ≤ 1
  x_major : |q.y - p.y| ≤ |q.x - p.x| → |r'.x - r.x| = 1
  y_major : |q.x - p.x| ≤ |q.y - p.y| → |r'.y - r.y| = 1
  x_towards : |q.x - r'.x| ≤ |q.x - r.x|
  y_towards : |q.y - r'.y| ≤ |q.y - r.y|

/-- The point of the exact line at `t` has the position of the pixel on the longer
axis, and is half a pixel away at most on the other one. -/
structure NearAt (p q r : Pixel) (t : ℚ) : Prop where
  nonneg : 0 ≤ t
  le_one : t ≤ 1
  x_major : |q.y - p.y| ≤ |q.x - p.x| →
    (r.x : ℚ) = p.x + t * (q.x - p.x) ∧ |(r.y : ℚ) - (p.y + t * (q.y - p.y))| ≤ 1 / 2
  y_major : |q.x - p.x| ≤ |q.y - p.y| →
    (r.y : ℚ) = p.y + t * (q.y - p.y) ∧ |(r.x : ℚ) - (p.x + t * (q.x - p.x))| ≤ 1 / 2

/-- The pixel is within half a pixel of the exact line. -/
def Near (p q r : Pixel) : Prop := ∃ t, NearAt p q r t

/-- `r` is between the end points on both axes. -/
structure Between (p q r : Pixel) : Prop where
  x_ge : min p.x q.x ≤ r.x
  x_le : r.x ≤ max p.x q.x
  y_ge : min p.y q.y ≤ r.y
  y_le : r.y ≤ max p.y q.y

/-- The pixels draw the line from `p` to `q`. -/
structure DigitalLine (p q : Pixel) (pixels : List Pixel) : Prop where
  head : pixels.head? = some p
  last : pixels.getLast? = some q
  length : (pixels.length : ℤ) = max |q.x - p.x| |q.y - p.y| + 1
  nodup : pixels.Nodup
  moves : pixels.IsChain (Move p q)
  near : ∀ r ∈ pixels, Near p q r
  between : ∀ r ∈ pixels, Between p q r

/-! ### The mirrored line -/

theorem Move.of_swap {p q r r' : Pixel}
    (h : Move (swapPixel p) (swapPixel q) (swapPixel r) (swapPixel r')) : Move p q r r' :=
  ⟨h.y_le, h.x_le, h.y_major, h.x_major, h.y_towards, h.x_towards⟩

theorem Near.of_swap {p q r : Pixel} (h : Near (swapPixel p) (swapPixel q) (swapPixel r)) :
    Near p q r := by
  obtain ⟨t, h⟩ := h
  exact ⟨t, h.nonneg, h.le_one, h.y_major, h.x_major⟩

theorem Between.of_swap {p q r : Pixel}
    (h : Between (swapPixel p) (swapPixel q) (swapPixel r)) : Between p q r :=
  ⟨h.y_ge, h.y_le, h.x_ge, h.x_le⟩

/-- A line and its mirror image. -/
theorem DigitalLine.of_swap {p q : Pixel} {pixels : List Pixel}
    (h : DigitalLine (swapPixel p) (swapPixel q) (pixels.map swapPixel)) :
    DigitalLine p q pixels where
  head := by
    have hhead := h.head
    rw [List.head?_map, Option.map_eq_some_iff] at hhead
    obtain ⟨r, hr, heq⟩ := hhead
    rw [hr, ← swapPixel_swapPixel r, heq, swapPixel_swapPixel]
  last := by
    have hlast := h.last
    rw [List.getLast?_map, Option.map_eq_some_iff] at hlast
    obtain ⟨r, hr, heq⟩ := hlast
    rw [hr, ← swapPixel_swapPixel r, heq, swapPixel_swapPixel]
  length := by
    have hlen := h.length
    rw [List.length_map] at hlen
    rw [hlen]
    exact congrArg (· + 1) (max_comm _ _)
  nodup := List.Nodup.of_map swapPixel h.nodup
  moves := by
    have hmoves := h.moves
    rw [List.isChain_map] at hmoves
    exact hmoves.imp fun _ _ => Move.of_swap
  near := fun r hr => (h.near _ (List.mem_map_of_mem hr)).of_swap
  between := fun r hr => (h.between _ (List.mem_map_of_mem hr)).of_swap

/-! ### The rows -/

section
variable {dx dy : ℤ} (hdx : 0 < dx)

include hdx

/-- On the diagonal the row is the column. -/
theorem lowRow_diagonal (i : ℤ) : lowRow dx dx i = i :=
  (lowRow_eq_iff hdx dx i i).mpr ⟨by nlinarith, by nlinarith⟩

theorem lowRow_nonneg (hdy : 0 ≤ dy) {i : ℤ} (hi : 0 ≤ i) : 0 ≤ lowRow dx dy i := by
  obtain ⟨-, hup⟩ := (lowRow_eq_iff hdx dy i _).mp rfl
  have hpos : 0 ≤ dx * (2 * lowRow dx dy i + 1) := (by positivity : 0 ≤ 2 * dy * i).trans hup
  have hodd := nonneg_of_mul_nonneg_right hpos hdx
  omega

theorem lowRow_le (hdy : 0 ≤ dy) {i : ℤ} (hi : i ≤ dx) : lowRow dx dy i ≤ dy := by
  obtain ⟨hlow, -⟩ := (lowRow_eq_iff hdx dy i _).mp rfl
  have hle : 2 * dy * i ≤ 2 * dy * dx := mul_le_mul_of_nonneg_left hi (by omega)
  have hlt : dx * (2 * lowRow dx dy i - 1) < dx * (2 * dy) := by linarith
  have := lt_of_mul_lt_mul_left hlt hdx.le
  omega

/-- The row moves by one at most. -/
theorem lowRow_succ_cases (hdy : 0 ≤ dy) (hle : dy ≤ dx) (i : ℤ) :
    lowRow dx dy (i + 1) = lowRow dx dy i ∨ lowRow dx dy (i + 1) = lowRow dx dy i + 1 := by
  rw [lowRow_succ hdx hdy hle]
  split
  · exact Or.inr rfl
  · exact Or.inl rfl

/-- The row is half a pixel away from the exact line at most. -/
theorem lowRow_near (dy i : ℤ) : |(lowRow dx dy i : ℚ) - i / dx * dy| ≤ 1 / 2 := by
  obtain ⟨hlow, hup⟩ := (lowRow_eq_iff hdx dy i _).mp rfl
  generalize lowRow dx dy i = j at hlow hup
  have hpos : (0 : ℚ) < dx := Int.cast_pos.mpr hdx
  have hlow' : (dx : ℚ) * (2 * j - 1) < 2 * dy * i := by exact_mod_cast hlow
  have hup' : (2 * dy * i : ℚ) ≤ dx * (2 * j + 1) := by exact_mod_cast hup
  have heq : (j : ℚ) - i / dx * dy = (2 * j * dx - 2 * dy * i) / (2 * dx) := by
    field_simp
  rw [heq, abs_le, le_div_iff₀ (by positivity), div_le_iff₀ (by positivity)]
  constructor <;> linarith

end

/-! ### One axis -/

section
variable (a b : ℤ)

/-- `u` steps towards the end of the axis. -/
theorem abs_stepSign_move (u v : ℤ) :
    |(a + stepSign a b * v) - (a + stepSign a b * u)| = |v - u| := by
  rcases stepSign_cases a b with hs | hs
  · rw [hs]
    congr 1
    ring
  · rw [hs, ← abs_neg]
    congr 1
    ring

theorem abs_stepSign_rest {u : ℤ} (hu : u ≤ |b - a|) :
    |b - (a + stepSign a b * u)| = |b - a| - u := by
  have hb := abs_stepSign_move a b u |b - a|
  rw [stepSign_mul_abs] at hb
  rw [hb, abs_of_nonneg (sub_nonneg.mpr hu)]

/-- The distance to the point of the exact line at `t`. -/
theorem abs_stepSign_sub (u : ℤ) (t : ℚ) :
    |((a + stepSign a b * u : ℤ) : ℚ) - (a + t * (b - a))| = |(u : ℚ) - t * (|b - a| : ℤ)| := by
  have hb : (b : ℚ) - a = stepSign a b * (|b - a| : ℤ) := by
    rw [sub_eq_iff_eq_add']
    exact_mod_cast (stepSign_mul_abs a b).symm
  rw [hb]
  generalize |b - a| = d
  rcases stepSign_cases a b with hs | hs
  · rw [hs]
    congr 1
    push_cast
    ring
  · rw [hs, ← abs_neg]
    congr 1
    push_cast
    ring

theorem stepSign_between {u : ℤ} (hu : 0 ≤ u) (hu' : u ≤ |b - a|) :
    min a b ≤ a + stepSign a b * u ∧ a + stepSign a b * u ≤ max a b := by
  have hb := stepSign_mul_abs a b
  rcases stepSign_cases a b with hs | hs
  · rw [hs] at hb ⊢
    omega
  · rw [hs] at hb ⊢
    omega

end

/-! ### The columns -/

/-- No column comes twice. -/
theorem columnPixel_injective (p q : Pixel) : Function.Injective (columnPixel p q) := by
  intro c c' heq
  have hx : p.x + stepSign p.x q.x * c = p.x + stepSign p.x q.x * c' := congrArg Pixel.x heq
  rcases stepSign_cases p.x q.x with hs | hs
  · rw [hs] at hx
    omega
  · rw [hs] at hx
    omega

section Columns
variable {p q : Pixel} (hne : p.x ≠ q.x) (hle : |q.y - p.y| ≤ |q.x - p.x|)

include hne hle

/-- One column further, and one row at most. -/
theorem move_columnPixel {c : ℤ} (hc : c < |q.x - p.x|) :
    Move p q (columnPixel p q c) (columnPixel p q (c + 1)) := by
  have hdx : 0 < |q.x - p.x| := abs_pos.mpr (by omega)
  have hdy : 0 ≤ |q.y - p.y| := abs_nonneg _
  have hrow := lowRow_succ_cases hdx hdy hle c
  have hlast : lowRow |q.x - p.x| |q.y - p.y| (c + 1) ≤ |q.y - p.y| := lowRow_le hdx hdy (by omega)
  have hx : |(columnPixel p q (c + 1)).x - (columnPixel p q c).x| = 1 := by
    rw [columnPixel, columnPixel, abs_stepSign_move, add_sub_cancel_left, abs_one]
  exact
    { x_le := hx.le
      y_le := by
        rw [columnPixel, columnPixel, abs_stepSign_move, abs_le]
        omega
      x_major := fun _ => hx
      y_major := fun hge => by
        -- On the diagonal the row moves in every column.
        have heq : |q.y - p.y| = |q.x - p.x| := le_antisymm hle hge
        rw [columnPixel, columnPixel, abs_stepSign_move, heq, lowRow_diagonal hdx,
          lowRow_diagonal hdx, add_sub_cancel_left, abs_one]
      x_towards := by
        rw [columnPixel, columnPixel, abs_stepSign_rest _ _ (by omega),
          abs_stepSign_rest _ _ (by omega)]
        omega
      y_towards := by
        rw [columnPixel, columnPixel, abs_stepSign_rest _ _ (by omega),
          abs_stepSign_rest _ _ (by omega)]
        omega }

omit hle in
theorem between_columnPixel {c : ℤ} (hc : 0 ≤ c) (hc' : c ≤ |q.x - p.x|) :
    Between p q (columnPixel p q c) := by
  have hdx : 0 < |q.x - p.x| := abs_pos.mpr (by omega)
  have hdy : 0 ≤ |q.y - p.y| := abs_nonneg _
  obtain ⟨hx, hx'⟩ := stepSign_between p.x q.x hc hc'
  obtain ⟨hy, hy'⟩ :=
    stepSign_between p.y q.y (lowRow_nonneg hdx hdy hc) (lowRow_le hdx hdy hc')
  exact ⟨hx, hx', hy, hy'⟩

/-- The exact line is at `c / dx` of its length in column `c`. -/
theorem near_columnPixel {c : ℤ} (hc : 0 ≤ c) (hc' : c ≤ |q.x - p.x|) :
    Near p q (columnPixel p q c) := by
  have hdx : 0 < |q.x - p.x| := abs_pos.mpr (by omega)
  have hpos : (0 : ℚ) < (|q.x - p.x| : ℤ) := Int.cast_pos.mpr hdx
  have hratio : (c : ℚ) / (|q.x - p.x| : ℤ) * (|q.x - p.x| : ℤ) = c := div_mul_cancel₀ _ hpos.ne'
  -- The column is exact, and so is the row on the diagonal.
  have hx : |((columnPixel p q c).x : ℚ)
      - (p.x + c / (|q.x - p.x| : ℤ) * (q.x - p.x))| = 0 := by
    rw [columnPixel, abs_stepSign_sub, hratio, sub_self, abs_zero]
  have hy : |((columnPixel p q c).y : ℚ)
      - (p.y + c / (|q.x - p.x| : ℤ) * (q.y - p.y))| ≤ 1 / 2 := by
    rw [columnPixel, abs_stepSign_sub]
    exact lowRow_near hdx _ c
  have hdiagonal : |q.x - p.x| ≤ |q.y - p.y| → |((columnPixel p q c).y : ℚ)
      - (p.y + c / (|q.x - p.x| : ℤ) * (q.y - p.y))| = 0 := by
    intro hge
    rw [columnPixel, abs_stepSign_sub, le_antisymm hle hge, lowRow_diagonal hdx, hratio, sub_self,
      abs_zero]
  refine ⟨c / (|q.x - p.x| : ℤ), ?_⟩
  exact
    { nonneg := div_nonneg (Int.cast_nonneg hc) hpos.le
      le_one := (div_le_one hpos).mpr (Int.cast_le.mpr hc')
      x_major := fun _ => ⟨sub_eq_zero.mp (abs_eq_zero.mp hx), hy⟩
      y_major := fun hge =>
        ⟨sub_eq_zero.mp (abs_eq_zero.mp (hdiagonal hge)), hx.le.trans (by norm_num)⟩ }

omit hle in
theorem columnPixel_zero : columnPixel p q 0 = p := by
  have hdx : 0 < |q.x - p.x| := abs_pos.mpr (by omega)
  simp [columnPixel, lowRow_zero hdx]

/-- A line with more columns than rows. -/
theorem digitalLine_of_le : DigitalLine p q (bresenhamPixels p q) := by
  have hdx : 0 < |q.x - p.x| := abs_pos.mpr (by omega)
  have hcolumns := bresenhamPixels_columns hne hle
  -- Each pixel is that of its column, so a fact on columns is one on pixels.
  have hmem : ∀ r ∈ bresenhamPixels p q, ∃ c : ℤ, 0 ≤ c ∧ c ≤ |q.x - p.x| ∧ columnPixel p q c = r := by
    intro r hr
    rw [hcolumns] at hr
    obtain ⟨c, hc, rfl⟩ := List.mem_map.mp hr
    have hlt := List.mem_range.mp hc
    exact ⟨c, by omega, by omega, rfl⟩
  exact
    { head := by
        rw [hcolumns, List.range_succ_eq_map, List.map_cons, List.head?_cons, Nat.cast_zero,
          columnPixel_zero hne]
      last := bresenhamPixels_getLast? p q
      length := by
        rw [hcolumns, List.length_map, List.length_range, max_eq_left hle]
        omega
      nodup := by
        rw [hcolumns]
        refine List.nodup_range.map ?_
        intro c c' heq
        exact Int.ofNat_inj.mp (columnPixel_injective p q heq)
      moves := by
        rw [hcolumns, List.isChain_map, List.isChain_range_succ]
        intro c hc
        have hmove := move_columnPixel hne hle (c := c) (by omega)
        rw [Nat.succ_eq_add_one, Nat.cast_succ]
        exact hmove
      near := fun r hr => by
        obtain ⟨c, hc, hc', rfl⟩ := hmem r hr
        exact near_columnPixel hne hle hc hc'
      between := fun r hr => by
        obtain ⟨c, hc, hc', rfl⟩ := hmem r hr
        exact between_columnPixel hne hc hc' }

end Columns

/-! ### The end of the loop -/

/-- The loop of `bresenham_line` with a given number of rounds. -/
def bresenhamRounds (p q : Pixel) (rounds : ℕ) : List Pixel :=
  bresenhamLoop |q.x - p.x| |q.y - p.y| (stepSign p.x q.x) (stepSign p.y q.y) q.x q.y rounds
    p.x p.y (|q.x - p.x| - |q.y - p.y|)

theorem getLast?_of_cons {α : Type} {a b : α} {l : List α} (h : (a :: l).getLast? = some b)
    (hne : a ≠ b) : l.getLast? = some b := by
  cases l with
  | nil => exact absurd (Option.some.inj h) hne
  | cons c l =>
      rw [List.getLast?_cons_cons] at h
      exact h

/-- A loop that has come to its end point makes no more rounds. -/
theorem bresenhamLoop_more {dx dy sx sy x1 y1 : ℤ} {fuel fuel' : ℕ} (hfuel : fuel ≤ fuel')
    {x y err : ℤ}
    (h : (bresenhamLoop dx dy sx sy x1 y1 fuel x y err).getLast? = some ⟨x1, y1⟩) :
    bresenhamLoop dx dy sx sy x1 y1 fuel' x y err
      = bresenhamLoop dx dy sx sy x1 y1 fuel x y err := by
  induction fuel generalizing fuel' x y err with
  | zero => cases h
  | succ fuel ih =>
      obtain ⟨n, rfl⟩ : ∃ n, fuel' = n + 1 := ⟨fuel' - 1, by omega⟩
      simp only [bresenhamLoop] at h ⊢
      split
      · rfl
      · rename_i hend
        rw [if_neg hend] at h
        have hne : (⟨x, y⟩ : Pixel) ≠ ⟨x1, y1⟩ := fun heq => hend (Pixel.mk.inj heq)
        rw [ih (Nat.le_of_succ_le_succ hfuel) (getLast?_of_cons h hne)]

theorem bresenhamRounds_eq (p q : Pixel) {rounds : ℕ}
    (h : max |q.x - p.x| |q.y - p.y| + 1 ≤ rounds) :
    bresenhamRounds p q rounds = bresenhamPixels p q := by
  have hdx : 0 ≤ |q.x - p.x| := abs_nonneg _
  refine bresenhamLoop_more ?_ (bresenhamPixels_getLast? p q)
  omega

/-! ### `bresenham_line` -/

/-- A single point. -/
theorem digitalLine_singleton (p : Pixel) : DigitalLine p p [p] where
  head := rfl
  last := rfl
  length := by simp
  nodup := List.nodup_singleton p
  moves := List.IsChain.singleton p
  near r hr := by
    rw [List.mem_singleton] at hr
    subst hr
    exact ⟨0, by constructor <;> simp⟩
  between r hr := by
    rw [List.mem_singleton] at hr
    subst hr
    constructor <;> simp

theorem bresenhamPixels_digitalLine (p q : Pixel) : DigitalLine p q (bresenhamPixels p q) := by
  rcases line_cases p q with ⟨hne, hle⟩ | ⟨hne, hle⟩ | rfl
  · exact digitalLine_of_le hne hle
  · have hswap := digitalLine_of_le hne hle
    rw [bresenhamPixels_swap] at hswap
    exact hswap.of_swap
  · have hsingle : bresenhamPixels p p = [p] := by simp [bresenhamPixels, bresenhamLoop]
    rw [hsingle]
    exact digitalLine_singleton p

section
variable {K : Type} [Field K] [LinearOrder K] [FloorRing K] [IsStrictOrderedRing K]

/-- For integer end points, `bresenham_line` draws the digital line between them. Its
loop ends after one round for each pixel: with any more rounds it does the same. -/
theorem bresenhamLine_digitalLine (p q : Pixel) :
    DigitalLine p q (bresenhamLine ((p.x : K), (p.y : K)) ((q.x : K), (q.y : K))) ∧
      ∀ rounds : ℕ, max |q.x - p.x| |q.y - p.y| + 1 ≤ rounds →
        bresenhamRounds p q rounds
          = bresenhamLine ((p.x : K), (p.y : K)) ((q.x : K), (q.y : K)) := by
  have hline : bresenhamLine ((p.x : K), (p.y : K)) ((q.x : K), (q.y : K)) = bresenhamPixels p q := by
    simp only [bresenhamLine, pyRound_intCast]
  rw [hline]
  exact ⟨bresenhamPixels_digitalLine p q, fun rounds hrounds => bresenhamRounds_eq p q hrounds⟩

end

/-- A steep line to the left. -/
theorem bresenhamLine_digitalLine_steep :
    DigitalLine ⟨0, 0⟩ ⟨-1, 3⟩
      (bresenhamLine (((0 : ℤ) : ℚ), ((0 : ℤ) : ℚ)) (((-1 : ℤ) : ℚ), ((3 : ℤ) : ℚ))) :=
  (bresenhamLine_digitalLine ⟨0, 0⟩ ⟨-1, 3⟩).1

/-- Half a pixel is rounded towards the row of the first point. -/
example : bresenhamPixels ⟨0, 0⟩ ⟨-1, 2⟩ = [⟨0, 0⟩, ⟨0, 1⟩, ⟨-1, 2⟩] := by decide

end W2Net.Proofs.Lbr
