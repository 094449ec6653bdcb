import W2Net.Proofs.Models.AnchorRows
import W2Net.Proofs.Utils.Lbr.LongAxis

/-!
# `W2Net.Proofs.Models.AnchorGrid`: the boxes of `generate_anchors`

The columns of `generate_anchors` come from a tiled list of scales, a repeated list of ratios and a
tiled repetition of the rotations. `npTile_getElem?` and `npRepeat_getElem?` read an entry of each.
In the row `(i * n_rot + j) * n_scale + k` the three agree on the ratio `i`, the rotation `j` and
the scale `k` (`generateAnchors_getElem?`), and every row is the row of one triple
(`existsUnique_triple`).
-/

set_option autoImplicit false

namespace W2Net.Proofs.AnchorGrid

open W2Net.Proofs.AnchorRows
open W2Net.Proofs.Lbr (ExactSqrt realMath_exactSqrt)
open W2Net.Proofs.ScaledLabels (realMath)

/-! ### The columns -/

section
variable {α : Type} {xs : List α} {n i j : ℕ}

/-- In a tiled list, the position in the tile selects the entry. -/
theorem npTile_getElem? (hi : i < n) (hj : j < xs.length) :
    (npTile xs n)[i * xs.length + j]? = xs[j]? := by
  have htile : (List.replicate n xs)[i]? = some xs := by
    rw [List.getElem?_replicate, if_pos hi]
  exact flatten_uniform (fun l hl => by rw [List.eq_of_mem_replicate hl]) htile hj

/-- In a repeated list, the block selects the entry. -/
theorem npRepeat_getElem? (hi : i < xs.length) (hj : j < n) :
    (npRepeat xs n)[i * n + j]? = xs[i]? := by
  have hlen : ∀ l ∈ xs.map (List.replicate n), l.length = n := by
    intro l hl
    obtain ⟨x, -, rfl⟩ := List.mem_map.mp hl
    exact List.length_replicate
  have hblock : (xs.map (List.replicate n))[i]? = some (List.replicate n xs[i]) := by
    rw [List.getElem?_map, List.getElem?_eq_getElem hi, Option.map_some]
  rw [npRepeat, List.flatMap_def, flatten_uniform hlen hblock hj, List.getElem?_replicate,
    if_pos hj, List.getElem?_eq_getElem hi]

end

/-! ### The rows -/

section
variable {K : Type} [Field K]

/-- The box around the origin with a width, a height and an angle. -/
def centredBox (w h a : K) : AnchorBox K := ![-(w / 2), -(h / 2), w / 2, h / 2, a]

/-- `anchors[:, 2]` for a ratio and a scale. -/
def anchorWidth (m : PyMath K) (baseSize ratio scale : K) : K :=
  m.sqrt (baseSize * scale * (baseSize * scale) / ratio)

/-- From `(x_ctr, y_ctr, w, h)` to `(x1, y1, x2, y2)`. -/
theorem row_eq_centredBox [CharZero K] (w h a : K) :
    ![0 - w * (1 / 2), 0 - h * (1 / 2), w - w * (1 / 2), h - h * (1 / 2), a] =
      centredBox w h a := by
  have hleft : ∀ x : K, 0 - x * (1 / 2) = -(x / 2) := by
    intro x
    ring
  have hright : ∀ x : K, x - x * (1 / 2) = x / 2 := by
    intro x
    ring
  rw [hleft, hleft, hright, hright]
  rfl

variable {m : PyMath K} {baseSize : K} {ratios scales rotations : List K}

/-- The row of a triple. -/
theorem generateAnchors_getElem? [CharZero K] {i j k : ℕ} {ratio rotation scale : K}
    (hi : ratios[i]? = some ratio) (hj : rotations[j]? = some rotation)
    (hk : scales[k]? = some scale) :
    (generateAnchors m baseSize ratios scales rotations)[
        (i * rotations.length + j) * scales.length + k]? =
      some (centredBox (anchorWidth m baseSize ratio scale)
        (anchorWidth m baseSize ratio scale * ratio) rotation) := by
  have hi' : i < ratios.length := (List.getElem?_eq_some_iff.mp hi).1
  have hj' : j < rotations.length := (List.getElem?_eq_some_iff.mp hj).1
  have hk' : k < scales.length := (List.getElem?_eq_some_iff.mp hk).1
  have hinner : j * scales.length + k < rotations.length * scales.length := mul_add_lt_mul hj' hk'
  have hsize : (npTile scales (ratios.length * rotations.length))[
      (i * rotations.length + j) * scales.length + k]? = some scale := by
    rw [npTile_getElem? (mul_add_lt_mul hi' hj') hk', hk]
  -- The same row, counted in blocks of a ratio.
  have hrow : (i * rotations.length + j) * scales.length + k =
      i * (rotations.length * scales.length) + (j * scales.length + k) := by ring
  have hratio : (npRepeat ratios (scales.length * rotations.length))[
      (i * rotations.length + j) * scales.length + k]? = some ratio := by
    rw [hrow, Nat.mul_comm scales.length, npRepeat_getElem? hi' hinner, hi]
  have hangle : (npTile (npRepeat rotations scales.length) ratios.length)[
      (i * rotations.length + j) * scales.length + k]? = some rotation := by
    have hlen : (npRepeat rotations scales.length).length = rotations.length * scales.length :=
      length_npRepeat rotations scales.length
    rw [hrow, ← hlen, npTile_getElem? hi' (hlen.symm ▸ hinner), npRepeat_getElem? hj' hk', hj]
  simp only [generateAnchors, List.getElem?_zipWith, List.getElem?_map, List.zip, hsize, hratio,
    hangle, Option.map_some, Option.some.injEq]
  exact row_eq_centredBox _ _ _

variable [LinearOrder K] [IsStrictOrderedRing K]

/-- The width of an anchor has the area of its scale, for its ratio. -/
theorem anchorWidth_spec (hm : ExactSqrt m) {ratio scale : K} (hb : 0 < baseSize)
    (hr : 0 < ratio) (hs : 0 < scale) :
    0 < anchorWidth m baseSize ratio scale ∧
      anchorWidth m baseSize ratio scale * anchorWidth m baseSize ratio scale * ratio =
        (baseSize * scale) ^ 2 := by
  have hside : 0 < baseSize * scale := mul_pos hb hs
  have harea : 0 < baseSize * scale * (baseSize * scale) / ratio := div_pos (mul_pos hside hside) hr
  have hsq : anchorWidth m baseSize ratio scale ^ 2 =
      baseSize * scale * (baseSize * scale) / ratio := hm.sq _ harea.le
  constructor
  · -- The square of the width is not zero.
    have hne : anchorWidth m baseSize ratio scale ≠ 0 := by
      intro hzero
      rw [hzero, zero_pow two_ne_zero] at hsq
      exact harea.ne hsq
    exact lt_of_le_of_ne (hm.nonneg _) hne.symm
  · rw [← pow_two, hsq, div_mul_cancel₀ _ hr.ne', pow_two]

/-- For every base size, ratios and scales that are positive, and all rotations: the row of the
ratio `i`, the rotation `j` and the scale `k` is the box around the origin with this ratio, angle
and area. Every row is the row of exactly one triple. -/
theorem generateAnchors_grid (hm : ExactSqrt m) (hb : 0 < baseSize)
    (hratios : ∀ r ∈ ratios, 0 < r) (hscales : ∀ s ∈ scales, 0 < s) :
    (∀ i j k ratio rotation scale, ratios[i]? = some ratio → rotations[j]? = some rotation →
      scales[k]? = some scale → ∃ w h,
        (generateAnchors m baseSize ratios scales rotations)[
          (i * rotations.length + j) * scales.length + k]? = some (centredBox w h rotation) ∧
        0 < w ∧ w * w * ratio = (baseSize * scale) ^ 2 ∧ h = w * ratio) ∧
    (generateAnchors m baseSize ratios scales rotations).length =
      ratios.length * rotations.length * scales.length ∧
    ∀ p < (generateAnchors m baseSize ratios scales rotations).length, ∃! t : ℕ × ℕ × ℕ,
      (t.1 < ratios.length ∧ t.2.1 < rotations.length ∧ t.2.2 < scales.length) ∧
        (t.1 * rotations.length + t.2.1) * scales.length + t.2.2 = p := by
  have hlen : (generateAnchors m baseSize ratios scales rotations).length =
      ratios.length * rotations.length * scales.length := by
    rw [generateAnchors_length]
    ring
  refine ⟨fun i j k ratio rotation scale hi hj hk => ?_, hlen, fun p hp => ?_⟩
  · have hw := anchorWidth_spec hm hb (hratios ratio (List.mem_of_getElem? hi))
      (hscales scale (List.mem_of_getElem? hk))
    exact ⟨_, _, generateAnchors_getElem? hi hj hk, hw.1, hw.2, rfl⟩
  · rw [hlen] at hp
    exact existsUnique_triple hp

end

/-- The last of twelve rows, for the ratio 2, the rotation 45 and the scale 5. -/
theorem generateAnchors_grid_last :
    ∃ w h, (generateAnchors realMath 32 [1, 2] [1, 3, 5] [0, 45])[11]? =
        some (centredBox w h 45) ∧
      0 < w ∧ w * w * 2 = (32 * 5) ^ 2 ∧ h = w * 2 :=
  (generateAnchors_grid realMath_exactSqrt (by norm_num) (by simp) (by simp)).1 1 1 2 2 45 5
    rfl rfl rfl

end W2Net.Proofs.AnchorGrid
