import Mathlib.Data.Fin.VecNotation
import W2Net.Utils.Nms
import W2Net.Utils.RboxOverlaps

/-!
# `W2Net.Proofs.Utils.OverlapRatio`: when an overlap is a ratio

`cpu_nms` and the Cython `rbox_overlaps` divide the common area of two boxes by what it
leaves of the sum of their areas. The common area is rounded when the intersection is
partial (`commonArea`).

The divisor is positive for all boxes with positive sides (`commonArea_lt`): an area
up to one half is rounded to 0, and above one half rounding does not reach twice the area.
The quotient is at most 1 when the rounded area fits into half of the sum, which
`RoundingFits` says of the area itself. `overlaps_ratio_iff` states both functions.

With positive divisors the loops of `rbox_overlaps` return the matrix `rboxOverlaps`
(`rboxOverlapsLoop_eq`).
-/

set_option autoImplicit false

namespace W2Net.Proofs.OverlapRatio

open W2Net.Nms W2Net.RboxOverlaps

variable {K : Type} [Field K] [LinearOrder K] [FloorRing K] (cv : Cv2 K)

/-- The common area that both functions use. -/
def commonArea (r s : RotatedRect K) : K :=
  if cv.kind r s = 1 then (pyRound (cv.area r s) : K)
  else if cv.kind r s = 2 then min r.area s.area
  else 0

theorem inter_eq (d e : Det K) : inter cv d e = commonArea cv d.rect e.rect := rfl

theorem overlapEntry_eq (box query : RBox K) :
    overlapEntry cv box query = commonArea cv box.rect query.rect /
      (box.area + query.area - commonArea cv box.rect query.rect) := by
  unfold overlapEntry commonArea
  simp only [add_sub_cancel_right]
  split_ifs
  · rfl
  · rfl
  · rw [zero_div]

/-- The sides are positive, and the intersection is not larger than either rectangle. -/
structure TrueIntersection (r s : RotatedRect K) : Prop where
  left : 0 < r.w ∧ 0 < r.h
  right : 0 < s.w ∧ 0 < s.h
  area_le : cv.area r s ≤ min r.area s.area

/-- The divisor of `cpu_nms` is positive and `ovr` is a ratio. -/
def NmsRatio (d e : Det K) : Prop :=
  0 < d.area + e.area - inter cv d e + 1 / 10 ^ 6 ∧ 0 ≤ ovr cv d e ∧ ovr cv d e ≤ 1

/-- The divisor of `rbox_overlaps` is positive and the entry is a ratio. -/
def RboxRatio (box query : RBox K) : Prop :=
  0 < box.area + query.area - commonArea cv box.rect query.rect ∧
    0 ≤ overlapEntry cv box query ∧ overlapEntry cv box query ≤ 1

/-- The area `a` is rounded to at most one half of `total`: it is below the middle of the
step above `⌊total / 2⌋`, or in this middle with an even integer below. -/
def RoundingFits (total a : K) : Prop :=
  a < ⌊total / 2⌋ + 1 / 2 ∨ (a = ⌊total / 2⌋ + 1 / 2 ∧ ⌊total / 2⌋ % 2 = 0)

variable [IsStrictOrderedRing K]

theorem roundingFits_iff (total a : K) : RoundingFits total a ↔ 2 * (pyRound a : K) ≤ total := by
  rw [RoundingFits, ← pyRound_le_iff, Int.le_floor, le_div_iff₀ two_pos, mul_comm]

/-- Rounding stays below twice the area, except that 0 stays 0. -/
theorem pyRound_lt_two_mul {a : K} (ha : 0 < a) : (pyRound a : K) < 2 * a := by
  rcases le_or_gt a (1 / 2) with hsmall | hlarge
  · -- Up to one half, rounding goes down to 0.
    have hround : pyRound a ≤ 0 := by
      rw [pyRound_le_iff, Int.cast_zero, zero_add, and_iff_left (by rfl)]
      exact hsmall.lt_or_eq
    have hcast : (pyRound a : K) ≤ 0 := by exact_mod_cast hround
    linarith
  · have hround := pyRound_le a
    linarith

section
variable {r s : RotatedRect K}

omit [FloorRing K] in
theorem TrueIntersection.areas_pos (h : TrueIntersection cv r s) : 0 < r.area ∧ 0 < s.area :=
  ⟨mul_pos h.left.1 h.left.2, mul_pos h.right.1 h.right.2⟩

theorem commonArea_nonneg (h : TrueIntersection cv r s) : 0 ≤ commonArea cv r s := by
  obtain ⟨hr, hs⟩ := h.areas_pos
  unfold commonArea
  split_ifs
  · exact Int.cast_nonneg (pyRound_nonneg (abs_nonneg _))
  · exact le_min hr.le hs.le
  · exact le_refl 0

/-- The common area never uses up the sum of the two areas. -/
theorem commonArea_lt (h : TrueIntersection cv r s) : commonArea cv r s < r.area + s.area := by
  obtain ⟨hr, hs⟩ := h.areas_pos
  have harea_r : cv.area r s ≤ r.area := h.area_le.trans (min_le_left _ _)
  have harea_s : cv.area r s ≤ s.area := h.area_le.trans (min_le_right _ _)
  unfold commonArea
  split_ifs
  · have harea : 0 ≤ cv.area r s := abs_nonneg _
    rcases harea.lt_or_eq with hpos | hzero
    · have hround := pyRound_lt_two_mul hpos
      linarith
    · have hround := pyRound_intCast (K := K) 0
      rw [Int.cast_zero] at hround
      rw [← hzero, hround, Int.cast_zero]
      linarith
  · have hmin : min r.area s.area ≤ r.area := min_le_left _ _
    linarith
  · linarith

/-- It is at most one half of a total from the sum of the areas on, unless rounding takes it
above. -/
theorem two_mul_commonArea_le_iff {total : K} (htotal : r.area + s.area ≤ total)
    (h : TrueIntersection cv r s) :
    2 * commonArea cv r s ≤ total ↔ (cv.kind r s = 1 → RoundingFits total (cv.area r s)) := by
  obtain ⟨hr, hs⟩ := h.areas_pos
  rw [roundingFits_iff]
  unfold commonArea
  split_ifs with hone
  · rw [forall_prop_of_true hone]
  · have hmin_r : min r.area s.area ≤ r.area := min_le_left _ _
    have hmin_s : min r.area s.area ≤ s.area := min_le_right _ _
    exact iff_of_true (by linarith) fun h => absurd h hone
  · exact iff_of_true (by linarith) fun h => absurd h hone

end

omit [FloorRing K] in
/-- A quotient `x / (total - x)` with a positive divisor. -/
theorem quotient_mem_iff {x total : K} (hx : 0 ≤ x) (hlt : x < total) :
    (0 < total - x ∧ 0 ≤ x / (total - x) ∧ x / (total - x) ≤ 1) ↔ 2 * x ≤ total := by
  have hpos : 0 < total - x := sub_pos.mpr hlt
  rw [and_iff_right hpos, and_iff_right (div_nonneg hx hpos.le), div_le_one₀ hpos]
  constructor <;> intro h <;> linarith

theorem nmsRatio_iff {d e : Det K} (h : TrueIntersection cv d.rect e.rect) :
    NmsRatio cv d e ↔ (cv.kind d.rect e.rect = 1 →
      RoundingFits (d.area + e.area + 1 / 10 ^ 6) (cv.area d.rect e.rect)) := by
  have hmargin : (0 : K) < 1 / 10 ^ 6 := by positivity
  have hlt : commonArea cv d.rect e.rect < d.area + e.area := commonArea_lt cv h
  have hdivisor : d.area + e.area - inter cv d e + 1 / 10 ^ 6
      = d.area + e.area + 1 / 10 ^ 6 - commonArea cv d.rect e.rect := by
    rw [inter_eq]
    ring
  rw [NmsRatio, ovr, hdivisor, inter_eq,
    quotient_mem_iff (commonArea_nonneg cv h) (hlt.trans (lt_add_of_pos_right _ hmargin))]
  exact two_mul_commonArea_le_iff cv (le_add_of_nonneg_right hmargin.le) h

theorem rboxRatio_iff {box query : RBox K} (h : TrueIntersection cv box.rect query.rect) :
    RboxRatio cv box query ↔ (cv.kind box.rect query.rect = 1 →
      RoundingFits (box.area + query.area) (cv.area box.rect query.rect)) := by
  have hlt : commonArea cv box.rect query.rect < box.area + query.area := commonArea_lt cv h
  rw [RboxRatio, overlapEntry_eq, quotient_mem_iff (commonArea_nonneg cv h) hlt]
  exact two_mul_commonArea_le_iff cv (le_refl _) h

/-- In both functions, the overlap of two boxes with positive sides is a ratio exactly when
the rounded area of a partial intersection fits into half of the sum of the areas. -/
theorem overlaps_ratio_iff :
    (∀ d e : Det K, TrueIntersection cv d.rect e.rect →
      (NmsRatio cv d e ↔ (cv.kind d.rect e.rect = 1 →
        RoundingFits (d.area + e.area + 1 / 10 ^ 6) (cv.area d.rect e.rect)))) ∧
    ∀ box query : RBox K, TrueIntersection cv box.rect query.rect →
      (RboxRatio cv box query ↔ (cv.kind box.rect query.rect = 1 →
        RoundingFits (box.area + query.area) (cv.area box.rect query.rect))) :=
  ⟨fun _ _ h => nmsRatio_iff cv h, fun _ _ h => rboxRatio_iff cv h⟩

/-! ### Two boxes of less than one pixel -/

/-- A box of area 7/10. -/
def smallBox : RBox ℚ := ⟨0, 0, 7 / 10, 1, 0⟩

/-- The box moved by 1/10. The two share 6/10. -/
def smallBoxMoved : RBox ℚ := ⟨1 / 10, 0, 8 / 10, 1, 0⟩

/-- The rows of the two boxes. -/
def smallDet (b : RBox ℚ) : Det ℚ := ![b.x1, b.y1, b.x2, b.y2, b.a, 1]

theorem trueIntersection_smallBox :
    TrueIntersection (Cv2.aligned : Cv2 ℚ) smallBox.rect smallBoxMoved.rect where
  left := by decide +kernel
  right := by decide +kernel
  area_le := by decide +kernel

/-- The area 6/10 is rounded to 1, and both overlaps are above 2. -/
theorem smallBox_overlaps :
    TrueIntersection (Cv2.aligned : Cv2 ℚ) (smallDet smallBox).rect (smallDet smallBoxMoved).rect ∧
      TrueIntersection (Cv2.aligned : Cv2 ℚ) smallBox.rect smallBoxMoved.rect ∧
      ¬ NmsRatio (Cv2.aligned : Cv2 ℚ) (smallDet smallBox) (smallDet smallBoxMoved) ∧
      ¬ RboxRatio (Cv2.aligned : Cv2 ℚ) smallBox smallBoxMoved := by
  refine ⟨trueIntersection_smallBox, trueIntersection_smallBox, ?_, ?_⟩
  · rintro ⟨-, -, hle⟩
    revert hle
    decide +kernel
  · rintro ⟨-, -, hle⟩
    revert hle
    decide +kernel

theorem overlaps_ratio_iff_smallBox :
    (NmsRatio (Cv2.aligned : Cv2 ℚ) (smallDet smallBox) (smallDet smallBoxMoved) ↔
      ((Cv2.aligned : Cv2 ℚ).kind smallBox.rect smallBoxMoved.rect = 1 →
        RoundingFits (smallBox.area + smallBoxMoved.area + 1 / 10 ^ 6)
          ((Cv2.aligned : Cv2 ℚ).area smallBox.rect smallBoxMoved.rect))) ∧
    (RboxRatio (Cv2.aligned : Cv2 ℚ) smallBox smallBoxMoved ↔
      ((Cv2.aligned : Cv2 ℚ).kind smallBox.rect smallBoxMoved.rect = 1 →
        RoundingFits (smallBox.area + smallBoxMoved.area)
          ((Cv2.aligned : Cv2 ℚ).area smallBox.rect smallBoxMoved.rect))) :=
  have h := overlaps_ratio_iff (Cv2.aligned : Cv2 ℚ)
  ⟨h.1 (smallDet smallBox) (smallDet smallBoxMoved) trueIntersection_smallBox,
    h.2 smallBox smallBoxMoved trueIntersection_smallBox⟩

/-! ### The loops of `rbox_overlaps` -/

section
variable {N M : ℕ} (boxes : Fin N → RBox K) (queryBoxes : Fin M → RBox K)
  (indicator : Option (Fin N → Fin M → K)) (thresh : K)

theorem overlapStep_getD {i : Fin N × Fin M}
    (h : TrueIntersection cv (boxes i.1).rect (queryBoxes i.2).rect) :
    ∃ written, overlapStep cv boxes queryBoxes indicator thresh i = .ok written ∧
      rboxOverlaps cv boxes queryBoxes indicator thresh i.1 i.2 = written.getD 0 := by
  have hrbox : rboxOverlaps cv boxes queryBoxes indicator thresh i.1 i.2
      = if Bbox.skipped indicator thresh i then 0
        else overlapEntry cv (boxes i.1) (queryBoxes i.2) := by
    cases indicator with
    | none => rfl
    | some ind =>
        show (if ind i.1 i.2 < thresh then 0 else _) = if decide (ind i.1 i.2 < thresh) then 0 else _
        simp only [decide_eq_true_eq]
  have hne := (sub_pos.mpr (commonArea_lt cv h)).ne'
  rw [hrbox]
  unfold overlapStep overlapEntry
  cases Bbox.skipped indicator thresh i with
  | true => exact ⟨none, rfl, rfl⟩
  | false =>
      simp only [Bool.false_eq_true, if_false]
      -- The divisor of each branch is the one of `commonArea`.
      unfold commonArea at hne
      split_ifs at hne ⊢ with hone htwo
      · exact ⟨_, congrArg (Except.map some) (if_neg hne), rfl⟩
      · rw [add_sub_cancel_right]
        exact ⟨_, congrArg (Except.map some) (if_neg hne), rfl⟩
      · exact ⟨none, rfl, rfl⟩

/-- On boxes with positive sides no division raises. -/
theorem rboxOverlapsLoop_eq
    (h : ∀ n k, TrueIntersection cv (boxes n).rect (queryBoxes k).rect) :
    rboxOverlapsLoop cv boxes queryBoxes indicator thresh
      = .ok fun i => rboxOverlaps cv boxes queryBoxes indicator thresh i.1 i.2 := by
  rw [rboxOverlapsLoop, fillLoop_cells_eq_ok_iff]
  exact fun i => overlapStep_getD cv boxes queryBoxes indicator thresh (h i.1 i.2)

end

end W2Net.Proofs.OverlapRatio
