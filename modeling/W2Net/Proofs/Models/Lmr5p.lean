import W2Net.Models.Losses
import W2Net.Proofs.Utils.BoxCoder

/-!
# `W2Net.Proofs.Models.Lmr5p`: the loss of the two parametrisations of a rectangle

A rectangle is also the one with its sides exchanged and its angle turned by 90 degrees.
`lmr5p` takes the smaller one of two losses, one for each of them.

A vector of offsets decodes to given numbers only if it is their `code`
(`sameNumbers_decode_iff`). So there is one vector for each parametrisation, and the loss is 0
for a vector only if its path compares equal numbers (`lmr5pRow_spec`). The second path
compares a width with a height, which are coded by different sides of the anchor and with
different weights. `lmr5p_zero_iff` is the exact condition.
-/

set_option autoImplicit false

namespace W2Net.Proofs.Lmr5p

open W2Net.BoxCoder
open W2Net.Losses
open W2Net.Proofs.BoxCoder
open W2Net.Proofs.ScaledLabels (rowCorners realBoxes realBoxes_rotation realMath
  quadCorners_rbox2Quad boxOffsets centre halfExtents)

/-! ### The two paths -/

section
variable {beta : ℝ}

theorem smooth_nonneg (hbeta : 0 < beta) {d : ℝ} (hd : 0 ≤ d) : 0 ≤ smooth beta d := by
  unfold smooth
  split
  · positivity
  · linarith

theorem smooth_abs_eq_zero_iff (hbeta : 0 < beta) (x y : ℝ) : smooth beta |x - y| = 0 ↔ x = y := by
  have hiff : x = y ↔ |x - y| = 0 := by rw [abs_eq_zero, sub_eq_zero]
  rw [hiff, smooth]
  split
  · rw [div_eq_zero_iff, or_iff_left hbeta.ne', mul_assoc, mul_eq_zero_iff_left (by norm_num),
      mul_self_eq_zero]
  · rename_i hlarge
    -- A large difference is not 0, and its loss is at least half of `beta`.
    constructor <;> intro h <;> linarith

/-- A sum of five terms that are not negative. -/
theorem five_sum_eq_zero_iff {a b c d e : ℝ} (ha : 0 ≤ a) (hb : 0 ≤ b) (hc : 0 ≤ c) (hd : 0 ≤ d)
    (he : 0 ≤ e) : a + b + c + d + e = 0 ↔ a = 0 ∧ b = 0 ∧ c = 0 ∧ d = 0 ∧ e = 0 := by
  constructor
  · intro h
    refine ⟨?_, ?_, ?_, ?_, ?_⟩ <;> linarith
  · rintro ⟨rfl, rfl, rfl, rfl, rfl⟩
    norm_num

/-- Both losses of a row are not negative, and its loss is 0 when one of the paths compares
equal numbers. -/
theorem lmr5pRow_spec (c : BoxCoder ℝ) (hbeta : 0 < beta) (input target anchor : Fin 5 → ℝ) :
    0 ≤ lmr5pRow c realTorch beta input target anchor ∧
      (lmr5pRow c realTorch beta input target anchor = 0 ↔
        target 0 = input 0 ∧ target 1 = input 1 ∧
          ((target 2 = input 2 ∧ target 3 = input 3 ∧ target 4 = input 4) ∨
            (target 2 = input 3 ∧ target 3 = input 2 ∧
              target 4 = c.lmr5pangle realTorch (anchor 4) (input 4)))) := by
  have hterm : ∀ x y : ℝ, 0 ≤ smooth beta |x - y| := fun x y => smooth_nonneg hbeta (abs_nonneg _)
  have hsum : ∀ x y z u v x' y' z' u' v' : ℝ, 0 ≤ smooth beta |x - x'| + smooth beta |y - y'|
      + smooth beta |z - z'| + smooth beta |u - u'| + smooth beta |v - v'| := by
    intro x y z u v x' y' z' u' v'
    have h1 := hterm x x'
    have h2 := hterm y y'
    have h3 := hterm z z'
    have h4 := hterm u u'
    have h5 := hterm v v'
    linarith
  refine ⟨le_min (hsum _ _ _ _ _ _ _ _ _ _) (hsum _ _ _ _ _ _ _ _ _ _), ?_⟩
  -- A minimum of two sums that are not negative is 0 when one of them is.
  have hmin : ∀ {a b : ℝ}, 0 ≤ a → 0 ≤ b → (min a b = 0 ↔ a = 0 ∨ b = 0) := by
    intro a b ha hb
    rcases le_total a b with hab | hab
    · rw [min_eq_left hab]
      exact ⟨Or.inl, fun h => h.elim id fun hb0 => le_antisymm (hb0 ▸ hab) ha⟩
    · rw [min_eq_right hab]
      exact ⟨Or.inr, fun h => h.elim (fun ha0 => le_antisymm (ha0 ▸ hab) hb) id⟩
  rw [lmr5pRow, hmin (hsum _ _ _ _ _ _ _ _ _ _) (hsum _ _ _ _ _ _ _ _ _ _),
    five_sum_eq_zero_iff (hterm _ _) (hterm _ _) (hterm _ _) (hterm _ _) (hterm _ _),
    five_sum_eq_zero_iff (hterm _ _) (hterm _ _) (hterm _ _) (hterm _ _) (hterm _ _)]
  simp only [smooth_abs_eq_zero_iff hbeta]
  constructor
  · rintro (⟨hx, hy, hw, hh, ht⟩ | ⟨hx, hy, hw, hh, ht⟩)
    · exact ⟨hx, hy, Or.inl ⟨hw, hh, ht⟩⟩
    · exact ⟨hx, hy, Or.inr ⟨hw, hh, ht⟩⟩
  · rintro ⟨hx, hy, ⟨hw, hh, ht⟩ | ⟨hw, hh, ht⟩⟩
    · exact Or.inl ⟨hx, hy, hw, hh, ht⟩
    · exact Or.inr ⟨hx, hy, hw, hh, ht⟩

/-- The loss of an array is 0 when the loss of every row is. -/
theorem lmr5p_eq_zero_iff {N : ℕ} [NeZero N] (c : BoxCoder ℝ) (hbeta : 0 < beta)
    (inputs targets anchors : Fin N → Fin 5 → ℝ) (sizeAverage : Bool) :
    lmr5p c realTorch inputs targets anchors beta sizeAverage = 0 ↔
      ∀ i, lmr5pRow c realTorch beta (inputs i) (targets i) (anchors i) = 0 := by
  -- A sum of losses that are not negative is 0 when each of them is.
  have hnonneg := fun i => (lmr5pRow_spec c hbeta (inputs i) (targets i) (anchors i)).1
  have hN : (N : ℝ) ≠ 0 := Nat.cast_ne_zero.mpr (NeZero.ne N)
  cases sizeAverage with
  | true =>
      have hfifth : ∀ x : ℝ, x / 5 = 0 ↔ x = 0 := fun x => by
        rw [div_eq_zero_iff, or_iff_left (by norm_num)]
      simp only [lmr5p, if_true]
      rw [div_eq_zero_iff, or_iff_left hN,
        Finset.sum_eq_zero_iff_of_nonneg fun i _ => div_nonneg (hnonneg i) (by norm_num)]
      simp only [Finset.mem_univ, true_imp_iff, hfifth]
  | false =>
      simp only [lmr5p, Bool.false_eq_true, if_false]
      rw [Finset.sum_eq_zero_iff_of_nonneg fun i _ => hnonneg i]
      simp only [Finset.mem_univ, true_imp_iff]

end

/-! ### The two parametrisations -/

/-- The centre of a row, and its sides. -/
noncomputable def midX (box : Fin 5 → ℝ) : ℝ := box 0 + 1 / 2 * (box 2 - box 0)

noncomputable def midY (box : Fin 5 → ℝ) : ℝ := box 1 + 1 / 2 * (box 3 - box 1)

def width (box : Fin 5 → ℝ) : ℝ := box 2 - box 0

def height (box : Fin 5 → ℝ) : ℝ := box 3 - box 1

/-- The rectangle with its sides exchanged, turned by 90 degrees. -/
noncomputable def exchange (box : Fin 5 → ℝ) : Fin 5 → ℝ :=
  rowOf (midX box) (midY box) (height box) (width box) (box 4 + 90)

/-- The same numbers, the angle up to half turns. -/
def SameNumbers (out gt : Fin 5 → ℝ) : Prop :=
  (∀ j, j ≠ 4 → out j = gt j) ∧ ∃ k : ℤ, out 4 = gt 4 - 180 * k

/-- The same rectangle, in one of its two parametrisations. -/
def Represents (out gt : Fin 5 → ℝ) : Prop := SameNumbers out gt ∨ SameNumbers out (exchange gt)

/-- A rectangle, whose two parametrisations have a tangent. -/
structure Proper (gt : Fin 5 → ℝ) : Prop where
  width : 0 < width gt
  height : 0 < height gt
  cos : Real.cos (radians realTorch (gt 4)) ≠ 0
  sin : Real.sin (radians realTorch (gt 4)) ≠ 0

theorem eq_rowOf (box : Fin 5 → ℝ) :
    box = rowOf (midX box) (midY box) (width box) (height box) (box 4) := by
  have hlo : ∀ p q : ℝ, p = p + 1 / 2 * (q - p) - 1 / 2 * (q - p) := fun p q => by ring
  have hhi : ∀ p q : ℝ, q = p + 1 / 2 * (q - p) + 1 / 2 * (q - p) := fun p q => by ring
  funext j
  fin_cases j
  · exact hlo (box 0) (box 2)
  · exact hlo (box 1) (box 3)
  · exact hhi (box 0) (box 2)
  · exact hhi (box 1) (box 3)
  · rfl

/-- The numbers of a row, read off from its centre, sides and angle. -/
theorem numbers_rowOf (ctrX ctrY w h theta : ℝ) :
    midX (rowOf ctrX ctrY w h theta) = ctrX ∧ midY (rowOf ctrX ctrY w h theta) = ctrY ∧
      width (rowOf ctrX ctrY w h theta) = w ∧ height (rowOf ctrX ctrY w h theta) = h := by
  obtain ⟨hx, hy, hw, hh, -⟩ := rowOf_inj (eq_rowOf (rowOf ctrX ctrY w h theta))
  exact ⟨hx.symm, hy.symm, hw.symm, hh.symm⟩

/-- A quarter turn with exchanged sides keeps the corners. -/
theorem exchange_rect (gt : Fin 5 → ℝ) :
    rowCorners realBoxes (exchange gt) = rowCorners realBoxes gt := by
  obtain ⟨hx, hy, hw, hh⟩ := numbers_rowOf (midX gt) (midY gt) (height gt) (width gt) (gt 4 + 90)
  have hcentre : centre (.ofRow (exchange gt)) = centre (.ofRow gt) := Prod.ext hx hy
  have hhalf : halfExtents (.ofRow (exchange gt))
      = ((halfExtents (.ofRow gt)).2, (halfExtents (.ofRow gt)).1) :=
    Prod.ext (congrArg (· / 2) hw) (congrArg (· / 2) hh)
  have hangle : ScaledLabels.radians realMath (.ofRow (exchange gt))
      = ScaledLabels.radians realMath (.ofRow gt) + Real.pi / 2 := by
    show (gt 4 + 90) * Real.pi / 180 = gt 4 * Real.pi / 180 + Real.pi / 2
    ring
  have hoffsets : boxOffsets realMath (.ofRow (exchange gt)) = boxOffsets realMath (.ofRow gt) := by
    rw [boxOffsets, boxOffsets, hangle, hhalf]
    show cornerOffsets (Real.cos _) (Real.sin _) _ _ = cornerOffsets (Real.cos _) (Real.sin _) _ _
    rw [Real.cos_add_pi_div_two, Real.sin_add_pi_div_two, cornerOffsets_quarterTurn]
  rw [rowCorners, rowCorners, quadCorners_rbox2Quad realBoxes_rotation,
    quadCorners_rbox2Quad realBoxes_rotation, hcentre, hoffsets]

/-- Both parametrisations have the corners of the rectangle. -/
theorem represents_rect {out gt : Fin 5 → ℝ} (h : Represents out gt) :
    rowCorners realBoxes out = rowCorners realBoxes gt := by
  have hsame : ∀ {out gt : Fin 5 → ℝ}, SameNumbers out gt →
      rowCorners realBoxes out = rowCorners realBoxes gt := by
    rintro out gt ⟨hcorners, k, hk⟩
    have hbox : RBox.ofRow out = { RBox.ofRow gt with a := (RBox.ofRow gt).a - 180 * k } := by
      rw [RBox.ofRow, RBox.mk.injEq]
      exact ⟨hcorners 0 (by decide), hcorners 1 (by decide), hcorners 2 (by decide),
        hcorners 3 (by decide), hk⟩
    have hcentre : centre (.ofRow out) = centre (.ofRow gt) := by rw [hbox, centre, centre]
    rw [rowCorners, rowCorners, quadCorners_rbox2Quad realBoxes_rotation,
      quadCorners_rbox2Quad realBoxes_rotation, hcentre, hbox, boxOffsets_halfTurns]
  rcases h with h | h
  · exact hsame h
  · rw [hsame h, exchange_rect]

/-- The first four numbers do not depend on the angle. -/
theorem rowOf_of_ne {j : Fin 5} (hj : j ≠ 4) (ctrX ctrY w h theta theta' : ℝ) :
    rowOf ctrX ctrY w h theta j = rowOf ctrX ctrY w h theta' j := by
  fin_cases j
  · show ctrX - 1 / 2 * w = ctrX - 1 / 2 * w
    rfl
  · show ctrY - 1 / 2 * h = ctrY - 1 / 2 * h
    rfl
  · show ctrX + 1 / 2 * w = ctrX + 1 / 2 * w
    rfl
  · show ctrY + 1 / 2 * h = ctrY + 1 / 2 * h
    rfl
  · exact absurd rfl hj

theorem rowOf_angle (ctrX ctrY w h theta : ℝ) : rowOf ctrX ctrY w h theta 4 = theta := rfl

/-- The half turns of an angle with a tangent. -/
theorem exists_halfTurns_of_cos {t : ℝ} (hcos : Real.cos (radians realTorch t) ≠ 0) :
    ∃ k : ℤ, -90 < t - 180 * k ∧ t - 180 * k < 90 := by
  obtain ⟨k, hlo, hhi⟩ : ∃ k : ℤ, (k : ℝ) ≤ (t + 90) / 180 ∧ (t + 90) / 180 < k + 1 :=
    ⟨_, Int.floor_le _, Int.lt_floor_add_one _⟩
  refine ⟨k, lt_of_le_of_ne (by linarith) fun heq => hcos ?_, by linarith⟩
  -- An angle of a quarter turn has no tangent.
  refine Real.cos_eq_zero_iff.mpr ⟨k - 1, ?_⟩
  have ht : t = 180 * k - 90 := by linarith
  show t / 180 * Real.pi = _
  rw [ht]
  push_cast
  ring

/-- The only offsets that decode to a rectangle, given by its numbers, are their code. -/
theorem sameNumbers_decode_iff {c : BoxCoder ℝ} (hc : Positive c) {anchor delta gt : Fin 5 → ℝ}
    (hwidth : 0 < width gt) (hheight : 0 < height gt)
    (hcos : Real.cos (radians realTorch (gt 4)) ≠ 0) :
    SameNumbers (c.decode realTorch "xywht" anchor delta) gt ↔
      delta = code c anchor (midX gt) (midY gt) (width gt) (height gt)
        (Real.tan (radians realTorch (gt 4))) := by
  constructor
  · rintro ⟨hcorners, k, hk⟩
    -- The decoded row is the box, up to half turns of its angle.
    have hrow : c.decode realTorch "xywht" anchor delta
        = rowOf (midX gt) (midY gt) (width gt) (height gt) (gt 4 - 180 * k) := by
      funext j
      by_cases hj : j = 4
      · rw [hj, hk, rowOf_angle]
      · rw [hcorners j hj, congrFun (eq_rowOf gt) j]
        exact rowOf_of_ne hj _ _ _ _ _ _
    rw [← tan_halfTurns (gt 4) k]
    exact eq_code_of_decode hc hrow
  · rintro rfl
    obtain ⟨k, hlo, hhi⟩ := exists_halfTurns_of_cos hcos
    rw [decode_code hc anchor _ _ _ hwidth hheight, arctan_tan_shift hlo hhi]
    refine ⟨fun j hj => ?_, k, rowOf_angle _ _ _ _ _⟩
    rw [congrFun (eq_rowOf gt) j]
    exact rowOf_of_ne hj _ _ _ _ _ _

/-! ### The two paths on a code -/

/-- The angle of the second path is the one of the other parametrisation. -/
theorem lmr5pangle_code {c : BoxCoder ℝ} (hc : Positive c) (anchor : Fin 5 → ℝ)
    (ctrX ctrY w h tangent : ℝ) :
    c.lmr5pangle realTorch (anchor 4) (code c anchor ctrX ctrY w h tangent 4)
      = c.wt * (-tangent⁻¹ - Real.tan (radians realTorch (anchor 4))) := by
  have hquarter : Real.tan (Real.arctan tangent - 1 / 2 * Real.pi) = -tangent⁻¹ := by
    have hneg : Real.arctan tangent - 1 / 2 * Real.pi
        = -(Real.pi / 2 - Real.arctan tangent) := by ring
    rw [hneg, Real.tan_neg, Real.tan_pi_div_two_sub, Real.tan_arctan]
  have hdelta : code c anchor ctrX ctrY w h tangent 4 / c.wt
      = tangent - Real.tan (radians realTorch (anchor 4)) := mul_div_cancel_left₀ _ hc.wt.ne'
  rw [lmr5pangle, hdelta]
  simp only [realTorch, add_sub_cancel, hquarter]

theorem tan_exchange (gt : Fin 5 → ℝ) :
    Real.tan (radians realTorch (exchange gt 4)) = -(Real.tan (radians realTorch (gt 4)))⁻¹ := by
  have hangle : radians realTorch (exchange gt 4)
      = -(Real.pi / 2 - (Real.pi + radians realTorch (gt 4))) := by
    show (gt 4 + 90) / 180 * Real.pi = -(Real.pi / 2 - (Real.pi + gt 4 / 180 * Real.pi))
    ring
  rw [hangle, Real.tan_neg, Real.tan_pi_div_two_sub, add_comm, Real.tan_add_pi]

/-- The code of the centre does not depend on the sides and the angle. -/
theorem code_centre (c : BoxCoder ℝ) (anchor : Fin 5 → ℝ) (ctrX ctrY w h t w' h' t' : ℝ) :
    code c anchor ctrX ctrY w h t 0 = code c anchor ctrX ctrY w' h' t' 0 ∧
      code c anchor ctrX ctrY w h t 1 = code c anchor ctrX ctrY w' h' t' 1 := by
  constructor
  · show c.wx * (ctrX - (centreSize anchor).1) / (centreSize anchor).2.2.1
      = c.wx * (ctrX - (centreSize anchor).1) / (centreSize anchor).2.2.1
    rfl
  · show c.wy * (ctrY - (centreSize anchor).2.1) / (centreSize anchor).2.2.2
      = c.wy * (ctrY - (centreSize anchor).2.1) / (centreSize anchor).2.2.2
    rfl

/-- No tangent is its own quarter turn. -/
theorem ne_neg_inv {x : ℝ} (hx : x ≠ 0) : x ≠ -x⁻¹ := by
  intro h
  have hmul : x * x = -1 := by
    nth_rewrite 2 [h]
    rw [mul_neg, mul_inv_cancel₀ hx]
  linarith [mul_self_nonneg x]

theorem Proper.tan_ne_zero {gt : Fin 5 → ℝ} (h : Proper gt) :
    Real.tan (radians realTorch (gt 4)) ≠ 0 := by
  rw [Real.tan_eq_sin_div_cos]
  exact div_ne_zero h.sin h.cos

theorem log_side_eq_iff {weight side p q : ℝ} (hweight : 0 < weight) (hside : 0 < side) (hp : 0 < p)
    (hq : 0 < q) : weight * Real.log (p / side) = weight * Real.log (q / side) ↔ p = q := by
  rw [mul_right_inj' hweight.ne', (Real.log_injOn_pos).eq_iff (div_pos hp hside) (div_pos hq hside),
    div_left_inj' hside.ne']

/-- A side has the same code as a width and as a height. -/
def SameCode (c : BoxCoder ℝ) (anchor : Fin 5 → ℝ) (side : ℝ) : Prop :=
  c.ww * Real.log (side / (centreSize anchor).2.2.1)
    = c.wh * Real.log (side / (centreSize anchor).2.2.2)

/-- Its sides are not clamped by `encode`, and each has one code. -/
structure Exchangeable (c : BoxCoder ℝ) (anchor gt : Fin 5 → ℝ) : Prop where
  wide : Wide gt
  width : SameCode c anchor (width gt)
  height : SameCode c anchor (height gt)

/-- With the default weights, only one side has one code. -/
theorem sameCode_init_iff (anchor : Fin 5 → ℝ) {side : ℝ} (hside : 0 < side) :
    SameCode init anchor side ↔
      side = (centreSize anchor).2.2.1 ^ 2 / (centreSize anchor).2.2.2 := by
  have hw := width_pos anchor
  have hh := height_pos anchor
  have hpow : 0 < (centreSize anchor).2.2.1 ^ 2 / (centreSize anchor).2.2.2 :=
    div_pos (pow_pos hw 2) hh
  rw [SameCode, ← Real.log_injOn_pos.eq_iff hside hpow, Real.log_div hside.ne' hw.ne',
    Real.log_div hside.ne' hh.ne', Real.log_div (pow_pos hw 2).ne' hh.ne', Real.log_pow]
  show 10 * _ = 5 * _ ↔ _
  push_cast
  constructor <;> intro h <;> linarith

/-! ### One row -/

section
variable {c : BoxCoder ℝ} {beta : ℝ} {anchor gt : Fin 5 → ℝ}

/-- The offsets that decode to a target with the given parametrisation. -/
noncomputable def offsets (c : BoxCoder ℝ) (anchor gt : Fin 5 → ℝ) : Fin 5 → ℝ :=
  code c anchor (midX gt) (midY gt) (width gt) (height gt) (Real.tan (radians realTorch (gt 4)))

theorem offsets_exchange (c : BoxCoder ℝ) (anchor gt : Fin 5 → ℝ) :
    offsets c anchor (exchange gt)
      = code c anchor (midX gt) (midY gt) (height gt) (width gt)
          (-(Real.tan (radians realTorch (gt 4)))⁻¹) := by
  obtain ⟨hx, hy, hw, hh⟩ := numbers_rowOf (midX gt) (midY gt) (height gt) (width gt) (gt 4 + 90)
  rw [offsets, tan_exchange, exchange, hx, hy, hw, hh]

theorem centreSize_eq_of_wide (h : Wide gt) :
    centreSize gt = (midX gt, midY gt, width gt, height gt) := centreSize_of_wide h

/-- The target, when its sides are not clamped. -/
theorem encode_of_wide (h : Wide gt) : c.encode realTorch anchor gt = offsets c anchor gt := by
  rw [encode_eq_code, centreSize_eq_of_wide h, offsets]

/-- The vector of the same parametrisation has the loss 0 when no side is clamped. -/
theorem lmr5pRow_offsets_iff (hc : Positive c) (hbeta : 0 < beta) (h : Proper gt) :
    lmr5pRow c realTorch beta (offsets c anchor gt) (c.encode realTorch anchor gt) anchor = 0 ↔
      Wide gt := by
  rw [(lmr5pRow_spec c hbeta _ _ _).2]
  constructor
  · rintro ⟨-, -, ⟨hw, hh, -⟩ | ⟨-, -, hangle⟩⟩
    · have hwidth := (log_side_eq_iff hc.ww (width_pos anchor) (clampMin_pos _) h.width).mp hw
      have hheight := (log_side_eq_iff hc.wh (height_pos anchor) (clampMin_pos _) h.height).mp hh
      exact ⟨max_eq_left_iff.mp hwidth, max_eq_left_iff.mp hheight⟩
    · -- The second path turns the angle.
      rw [offsets, lmr5pangle_code hc] at hangle
      have hturn := sub_left_injective (mul_right_injective₀ hc.wt.ne' hangle)
      exact absurd hturn (ne_neg_inv h.tan_ne_zero)
  · intro hwide
    rw [encode_of_wide hwide]
    exact ⟨rfl, rfl, Or.inl ⟨rfl, rfl, rfl⟩⟩

/-- The vector of the other parametrisation has the loss 0 when each side has one code. -/
theorem lmr5pRow_exchange_iff (hc : Positive c) (hbeta : 0 < beta) (h : Proper gt)
    (hwide : Wide gt) :
    lmr5pRow c realTorch beta (offsets c anchor (exchange gt)) (c.encode realTorch anchor gt) anchor
        = 0 ↔ SameCode c anchor (width gt) ∧ SameCode c anchor (height gt) := by
  rw [(lmr5pRow_spec c hbeta _ _ _).2, encode_of_wide hwide, offsets_exchange, lmr5pangle_code hc,
    offsets]
  constructor
  · rintro ⟨-, -, ⟨-, -, hangle⟩ | ⟨hw, hh, -⟩⟩
    · -- The first path does not turn the angle.
      have hturn := sub_left_injective (mul_right_injective₀ hc.wt.ne' hangle)
      exact absurd hturn (ne_neg_inv h.tan_ne_zero)
    · exact ⟨hw, hh.symm⟩
  · rintro ⟨hw, hh⟩
    -- On the second path the sides are exchanged back and the angle is turned back.
    obtain ⟨hx, hy⟩ := code_centre c anchor (midX gt) (midY gt) (width gt) (height gt)
      (Real.tan (radians realTorch (gt 4))) (height gt) (width gt)
      (-(Real.tan (radians realTorch (gt 4)))⁻¹)
    refine ⟨hx, hy, Or.inr ⟨hw, hh.symm, ?_⟩⟩
    rw [inv_neg, inv_inv, neg_neg]
    rfl

theorem proper_exchange (h : Proper gt) : Proper (exchange gt) := by
  obtain ⟨-, -, hw, hh⟩ := numbers_rowOf (midX gt) (midY gt) (height gt) (width gt) (gt 4 + 90)
  have hangle : radians realTorch (exchange gt 4) = radians realTorch (gt 4) + Real.pi / 2 := by
    show (gt 4 + 90) / 180 * Real.pi = gt 4 / 180 * Real.pi + Real.pi / 2
    ring
  constructor
  · rw [exchange, hw]
    exact h.height
  · rw [exchange, hh]
    exact h.width
  · rw [hangle, Real.cos_add_pi_div_two]
    exact neg_ne_zero.mpr h.sin
  · rw [hangle, Real.sin_add_pi_div_two]
    exact h.cos

/-- The vectors of a row that decode to its target. -/
theorem represents_decode_iff (hc : Positive c) (h : Proper gt) (delta : Fin 5 → ℝ) :
    Represents (c.decode realTorch "xywht" anchor delta) gt ↔
      delta = offsets c anchor gt ∨ delta = offsets c anchor (exchange gt) :=
  or_congr (sameNumbers_decode_iff hc h.width h.height h.cos)
    (sameNumbers_decode_iff hc (proper_exchange h).width (proper_exchange h).height
      (proper_exchange h).cos)

/-- The loss of a row is 0 for all vectors that decode to the target, exactly then. -/
theorem row_zero_iff (hc : Positive c) (hbeta : 0 < beta) (h : Proper gt) :
    (∀ delta, Represents (c.decode realTorch "xywht" anchor delta) gt →
        lmr5pRow c realTorch beta delta (c.encode realTorch anchor gt) anchor = 0) ↔
      Exchangeable c anchor gt := by
  simp only [represents_decode_iff hc h, forall_eq_or_imp, forall_eq]
  rw [lmr5pRow_offsets_iff hc hbeta h]
  constructor
  · rintro ⟨hwide, hzero⟩
    obtain ⟨hw, hh⟩ := (lmr5pRow_exchange_iff hc hbeta h hwide).mp hzero
    exact ⟨hwide, hw, hh⟩
  · intro hex
    exact ⟨hex.wide, (lmr5pRow_exchange_iff hc hbeta h hex.wide).mpr ⟨hex.width, hex.height⟩⟩

end

/-! ### The loss -/

/-- For every batch of anchors and targets: `lmr5p` is 0 for all vectors that decode to the
targets, each in one of its two parametrisations, exactly when every target is exchangeable for
its anchor. -/
theorem lmr5p_zero_iff {N : ℕ} [NeZero N] (c : BoxCoder ℝ) (hc : Positive c) {beta : ℝ}
    (hbeta : 0 < beta) (anchors gts : Fin N → Fin 5 → ℝ) (h : ∀ i, Proper (gts i))
    (sizeAverage : Bool) :
    (∀ inputs : Fin N → Fin 5 → ℝ,
        (∀ i, Represents (c.decode realTorch "xywht" (anchors i) (inputs i)) (gts i)) →
          lmr5p c realTorch inputs (fun i => c.encode realTorch (anchors i) (gts i)) anchors beta
            sizeAverage = 0) ↔
      ∀ i, Exchangeable c (anchors i) (gts i) := by
  constructor
  · intro hzero i
    refine (row_zero_iff hc hbeta (h i)).mp fun delta hdelta => ?_
    -- The other rows take the vector of the same parametrisation.
    have hall := hzero (Function.update (fun k => offsets c (anchors k) (gts k)) i delta) fun k => by
      by_cases hk : k = i
      · rw [hk, Function.update_self]
        exact hdelta
      · rw [Function.update_of_ne hk]
        exact (represents_decode_iff hc (h k) _).mpr (Or.inl rfl)
    have hrow := (lmr5p_eq_zero_iff c hbeta _ _ _ _).mp hall i
    rwa [Function.update_self] at hrow
  · intro hex inputs hinputs
    refine (lmr5p_eq_zero_iff c hbeta _ _ _ _).mpr fun i => ?_
    exact (row_zero_iff hc hbeta (h i)).mpr (hex i) (inputs i) (hinputs i)

/-! ### Two targets of one anchor -/

/-- A target that is turned by 45 degrees. -/
noncomputable def tiltedRow (w h : ℝ) : Fin 5 → ℝ := rowOf 16 16 w h 45

theorem proper_tiltedRow {w h : ℝ} (hw : 0 < w) (hh : 0 < h) : Proper (tiltedRow w h) := by
  obtain ⟨-, -, hwidth, hheight⟩ := numbers_rowOf 16 16 w h 45
  have hangle : radians realTorch (tiltedRow w h 4) = Real.pi / 4 := by
    show (45 : ℝ) / 180 * Real.pi = Real.pi / 4
    ring
  constructor
  · rwa [tiltedRow, hwidth]
  · rwa [tiltedRow, hheight]
  · rw [hangle, Real.cos_pi_div_four]
    positivity
  · rw [hangle, Real.sin_pi_div_four]
    positivity

/-- The sides of the anchor. -/
theorem sides_squareAnchor :
    (centreSize squareAnchor).2.2.1 = 32 ∧ (centreSize squareAnchor).2.2.2 = 32 := by
  have hside : clampMin (32 - 0 : ℝ) = 32 := by
    rw [clampMin, max_eq_left] <;> norm_num
  exact ⟨hside, hside⟩

theorem sameCode_squareAnchor_iff {side : ℝ} (hside : 0 < side) :
    SameCode init squareAnchor side ↔ side = 32 := by
  rw [sameCode_init_iff squareAnchor hside, sides_squareAnchor.1, sides_squareAnchor.2]
  norm_num

theorem exchangeable_tiltedRow : Exchangeable init squareAnchor (tiltedRow 32 32) := by
  obtain ⟨-, -, hwidth, hheight⟩ := numbers_rowOf 16 16 32 32 45
  constructor
  · show (1 : ℝ) ≤ width (rowOf 16 16 32 32 45) ∧ 1 ≤ height (rowOf 16 16 32 32 45)
    rw [hwidth, hheight]
    norm_num
  · rw [tiltedRow, hwidth]
    exact (sameCode_squareAnchor_iff (by norm_num)).mpr rfl
  · rw [tiltedRow, hheight]
    exact (sameCode_squareAnchor_iff (by norm_num)).mpr rfl

/-- A target of the size of its anchor is exchangeable. -/
theorem lmr5p_zero_iff_square :
    Exchangeable init squareAnchor (tiltedRow 32 32) ∧
      ∀ inputs : Fin 1 → Fin 5 → ℝ,
        (∀ i, Represents (init.decode realTorch "xywht" squareAnchor (inputs i))
            (tiltedRow 32 32)) →
          lmr5p init realTorch inputs
            (fun _ => init.encode realTorch squareAnchor (tiltedRow 32 32)) (fun _ => squareAnchor)
            (1 / 9) true = 0 := by
  have hiff := lmr5p_zero_iff init positive_init (by norm_num : (0 : ℝ) < 1 / 9)
    (fun _ : Fin 1 => squareAnchor) (fun _ => tiltedRow 32 32)
    (fun _ => proper_tiltedRow (by norm_num) (by norm_num)) true
  exact ⟨exchangeable_tiltedRow, hiff.mpr fun _ => exchangeable_tiltedRow⟩

/-- A target of half the height: its other parametrisation decodes to the same corners, and has a
loss. -/
theorem tiltedRow_exchange_loss :
    Represents (init.decode realTorch "xywht" squareAnchor
        (init.encode realTorch squareAnchor (exchange (tiltedRow 32 16)))) (tiltedRow 32 16) ∧
      rowCorners realBoxes (init.decode realTorch "xywht" squareAnchor
        (init.encode realTorch squareAnchor (exchange (tiltedRow 32 16))))
          = rowCorners realBoxes (tiltedRow 32 16) ∧
      lmr5p init realTorch
          (fun _ : Fin 1 => init.encode realTorch squareAnchor (exchange (tiltedRow 32 16)))
          (fun _ => init.encode realTorch squareAnchor (tiltedRow 32 16)) (fun _ => squareAnchor)
          (1 / 9) true ≠ 0 := by
  have hproper : Proper (tiltedRow 32 16) := proper_tiltedRow (by norm_num) (by norm_num)
  obtain ⟨-, -, hwidth, hheight⟩ := numbers_rowOf 16 16 32 16 45
  obtain ⟨-, -, hwidth', hheight'⟩ := numbers_rowOf (midX (tiltedRow 32 16)) (midY (tiltedRow 32 16))
    (height (tiltedRow 32 16)) (width (tiltedRow 32 16)) (tiltedRow 32 16 4 + 90)
  have hwide : Wide (tiltedRow 32 16) := by
    show (1 : ℝ) ≤ width (rowOf 16 16 32 16 45) ∧ 1 ≤ height (rowOf 16 16 32 16 45)
    rw [hwidth, hheight]
    norm_num
  have hwide' : Wide (exchange (tiltedRow 32 16)) := by
    show (1 : ℝ) ≤ width (exchange (tiltedRow 32 16)) ∧ 1 ≤ height (exchange (tiltedRow 32 16))
    rw [exchange, hwidth', hheight']
    exact hwide.symm
  rw [encode_of_wide hwide']
  have hrect : Represents (init.decode realTorch "xywht" squareAnchor
      (offsets init squareAnchor (exchange (tiltedRow 32 16)))) (tiltedRow 32 16) :=
    (represents_decode_iff positive_init hproper _).mpr (Or.inr rfl)
  refine ⟨hrect, represents_rect hrect, fun hzero => ?_⟩
  -- A loss of 0 would make the codes of the two sides equal, and the anchor is a square.
  have hrow := (lmr5p_eq_zero_iff init (by norm_num) _ _ _ _).mp hzero 0
  have hcode := ((lmr5pRow_exchange_iff positive_init (by norm_num) hproper hwide).mp hrow).2
  rw [tiltedRow, hheight, sameCode_squareAnchor_iff (by norm_num)] at hcode
  norm_num at hcode

end W2Net.Proofs.Lmr5p
