import W2Net.Datasets.HrscDataset
import W2Net.Proofs.Utils.Flips
import W2Net.Utils.VisObbLabels

/-!
# `W2Net.Proofs.Utils.VisObbLabels`: what the viewers draw

Both viewers reduce an angle to `(-90, 90]` by half a turn, and exchange `w` and `h` with
it. Half a turn alone takes a rectangle to itself, so the exchange draws another one,
unless it is a square (`masked_corners_iff`). `normalizeXywhaDeg_trained_iff` has the
boxes that are drawn as they are trained on.
-/

set_option autoImplicit false

namespace W2Net.Proofs.VisObbLabels

open W2Net.HrscDataset (normalizeRow)
open W2Net.Proofs.BoxCorners
open W2Net.Proofs.Flips (quadCorners_rboxToPoly wakeCorners)
open W2Net.Proofs.ScaledLabels (quadCorners realMath realMath_circle)
open W2Net.VisObbLabels

variable {K : Type} [Field K]

/-- A viewer draws the corners of the row. -/
theorem quadCorners_rboxDegToQuad (m : PyMath K) (r : RowXywha K) :
    quadCorners (rboxDegToQuad m r) = boxCorners m r := by
  rw [rboxDegToQuad, quadCorners_rboxToPoly, boxCorners_eq]
  rfl

variable [LinearOrder K] [IsStrictOrderedRing K]

/-! ### The two masks -/

/-- Both masks. -/
def masked (r : RowXywha K) : RowXywha K := lowerMasked (raiseMasked r)

/-- A row is in one of the masks at most; there its angle moves by half a turn into the
interval, and its sides change places. -/
theorem masked_cases {r : RowXywha K} (h : -180 ≤ r.a ∧ r.a < 180) :
    ((-90 < r.a ∧ r.a ≤ 90) ∧ masked r = r) ∨
      (¬(-90 < r.a ∧ r.a ≤ 90) ∧ ∃ a, (-90 < a ∧ a ≤ 90) ∧ (a = r.a + 180 ∨ r.a = a + 180) ∧
        masked r = { r with a := a, w := r.h, h := r.w }) := by
  by_cases hlow : r.a ≤ -90
  · -- The raised angle is 90 at most, so the second mask leaves the row.
    have hraise : raiseMasked r = { r with a := r.a + 180, w := r.h, h := r.w } := if_pos hlow
    refine Or.inr ⟨fun hin => by linarith [hin.1], r.a + 180, ?_, Or.inl rfl, ?_⟩
    · constructor <;> linarith
    · rw [masked, hraise]
      exact if_neg (by show ¬90 < r.a + 180; linarith)
  · have hraise : raiseMasked r = r := if_neg hlow
    rw [masked, hraise]
    by_cases hhigh : 90 < r.a
    · refine Or.inr ⟨fun hin => by linarith [hin.2], r.a - 180, ?_, Or.inr (by ring), ?_⟩
      · constructor <;> linarith
      · exact if_pos hhigh
    · exact Or.inl ⟨⟨not_le.mp hlow, not_lt.mp hhigh⟩, if_neg hhigh⟩

/-- The angle after both masks. -/
theorem masked_range {r : RowXywha K} (h : -180 ≤ r.a ∧ r.a < 180) :
    -90 < (masked r).a ∧ (masked r).a ≤ 90 := by
  rcases masked_cases h with ⟨hin, heq⟩ | ⟨-, a, hin, -, heq⟩
  · rw [heq]
    exact hin
  · rw [heq]
    exact hin

/-- The corners stay only for a row outside of the masks, and for a square. -/
theorem masked_corners_iff {m : PyMath K} (hm : m.TrigLaws) (hcircle : m.Circle)
    {r : RowXywha K} (h : -180 ≤ r.a ∧ r.a < 180) (hw : 0 < r.w) (hh : 0 < r.h) :
    boxCorners m (masked r) = boxCorners m r ↔ (-90 < r.a ∧ r.a ≤ 90) ∨ r.w = r.h := by
  rcases masked_cases h with ⟨hin, heq⟩ | ⟨hout, a, -, hturn, heq⟩
  · rw [heq]
    exact iff_of_true rfl (Or.inl hin)
  · -- The opposite direction has the same corners; only the exchange is left.
    have hunit : m.unitDeg a = -m.unitDeg r.a := by
      rcases hturn with rfl | hturn
      · exact hm.unitDeg_add_half r.a
      · rw [hturn, hm.unitDeg_add_half, neg_neg]
    rw [heq, boxCorners_eq, boxCorners_eq, hunit, cornersAt_neg,
      cornersAt_exchange_iff (hcircle _) (half_pos hw) (half_pos hh), or_iff_right hout]
    constructor
    · intro hhalf
      linarith
    · intro heq
      rw [heq]

/-- Positive sides stay positive. -/
theorem masked_sides {r : RowXywha K} (h : -180 ≤ r.a ∧ r.a < 180) (hw : 0 < r.w)
    (hh : 0 < r.h) : 0 < (masked r).w ∧ 0 < (masked r).h := by
  rcases masked_cases h with ⟨-, heq⟩ | ⟨-, a, -, -, heq⟩
  · rw [heq]
    exact ⟨hw, hh⟩
  · rw [heq]
    exact ⟨hh, hw⟩

/-! ### The viewers and the dataset -/

variable [FloorRing K]

/-- The absolute values change nothing for positive sides, so the first viewer does what
the second one does. -/
theorem normalizeXywhaDeg_eq {r : RowXywha K} (hw : 0 < r.w) (hh : 0 < r.h) :
    normalizeXywhaDeg r = VisObb2.normalizeXywhaDeg r := by
  obtain ⟨hw', hh'⟩ := masked_sides (r := { r with a := wrap180 r.a }) (wrap180_spec r.a).1 hw hh
  show { masked { r with a := wrap180 r.a } with
    w := |(masked { r with a := wrap180 r.a }).w|, h := |(masked { r with a := wrap180 r.a }).h| }
      = masked { r with a := wrap180 r.a }
  rw [abs_of_pos hw', abs_of_pos hh']

/-- The condition on the angle does not depend on its representative. -/
theorem wrap180_inside_iff (a : K) :
    (-90 < wrap180 a ∧ wrap180 a ≤ 90) ↔ ∃ k : ℤ, -90 < a + 360 * k ∧ a + 360 * k ≤ 90 := by
  constructor
  · intro h
    obtain ⟨-, k, hk⟩ := wrap180_spec a
    have hrep : a + 360 * (-k : ℤ) = wrap180 a := by
      push_cast
      linarith
    exact ⟨-k, by rw [hrep]; exact h⟩
  · rintro ⟨k, hlow, hhigh⟩
    have hrep : wrap180 a = a + 360 * k :=
      wrap180_eq_iff.mpr ⟨⟨by linarith, by linarith⟩, -k, by push_cast; ring⟩
    rw [hrep]
    exact ⟨hlow, hhigh⟩

/-- A viewer draws the rectangle that the dataset trains on, with an angle in its
interval. -/
def ShowsTrained (m : PyMath K) (normalize : RowXywha K → RowXywha K) (r : RowXywha K) : Prop :=
  (-90 < (normalize r).a ∧ (normalize r).a ≤ 90) ∧
    quadCorners (rboxDegToQuad m (normalize r)) = boxCorners m (normalizeRow r)

theorem showsTrained_iff {m : PyMath K} (hm : m.TrigLaws) (hcircle : m.Circle)
    {r : RowXywha K} (hw : 0 < r.w) (hh : 0 < r.h) :
    ShowsTrained m VisObb2.normalizeXywhaDeg r ↔
      (∃ k : ℤ, -90 < r.a + 360 * k ∧ r.a + 360 * k ≤ 90) ∨ r.w = r.h := by
  have hrange := (wrap180_spec r.a).1
  have htrained : normalizeRow r = { r with a := wrap180 r.a } := by
    show { r with a := wrap180 r.a, w := |r.w|, h := |r.h| } = _
    rw [abs_of_pos hw, abs_of_pos hh]
  rw [← wrap180_inside_iff, ShowsTrained, quadCorners_rboxDegToQuad, htrained]
  show _ ∧ boxCorners m (masked { r with a := wrap180 r.a }) = _ ↔ _
  rw [masked_corners_iff hm hcircle (r := { r with a := wrap180 r.a }) hrange hw hh]
  exact and_iff_right (masked_range (r := { r with a := wrap180 r.a }) hrange)

/-- The viewers show a box as it is trained on exactly when its angle is in `(-90, 90]` up
to full turns, or the box is a square. -/
theorem normalizeXywhaDeg_trained_iff {m : PyMath K} (hm : m.TrigLaws) (hcircle : m.Circle)
    {r : RowXywha K} (hw : 0 < r.w) (hh : 0 < r.h) :
    (ShowsTrained m normalizeXywhaDeg r ↔
      (∃ k : ℤ, -90 < r.a + 360 * k ∧ r.a + 360 * k ≤ 90) ∨ r.w = r.h) ∧
    (ShowsTrained m VisObb2.normalizeXywhaDeg r ↔
      (∃ k : ℤ, -90 < r.a + 360 * k ∧ r.a + 360 * k ≤ 90) ∨ r.w = r.h) := by
  have hsecond := showsTrained_iff hm hcircle hw hh
  refine ⟨?_, hsecond⟩
  rw [ShowsTrained, normalizeXywhaDeg_eq hw hh]
  exact hsecond

/-- The condition for a box at 120 degrees. -/
theorem normalizeXywhaDeg_trained_iff_steep :
    (ShowsTrained realMath normalizeXywhaDeg ⟨0, 0, 4, 2, 120⟩ ↔
      (∃ k : ℤ, -90 < (120 : ℝ) + 360 * k ∧ (120 : ℝ) + 360 * k ≤ 90) ∨ (4 : ℝ) = 2) ∧
    (ShowsTrained realMath VisObb2.normalizeXywhaDeg ⟨0, 0, 4, 2, 120⟩ ↔
      (∃ k : ℤ, -90 < (120 : ℝ) + 360 * k ∧ (120 : ℝ) + 360 * k ≤ 90) ∨ (4 : ℝ) = 2) :=
  normalizeXywhaDeg_trained_iff realMath_trigLaws realMath_circle (by norm_num) (by norm_num)

/-- A box of 4 by 2 at 120 degrees is drawn as a box of 2 by 4 in the same direction, by
both viewers. -/
theorem steepBox_not_trained :
    ¬ShowsTrained realMath normalizeXywhaDeg ⟨0, 0, 4, 2, 120⟩ ∧
      ¬ShowsTrained realMath VisObb2.normalizeXywhaDeg ⟨0, 0, 4, 2, 120⟩ := by
  have hno : ¬((∃ k : ℤ, -90 < (120 : ℝ) + 360 * k ∧ (120 : ℝ) + 360 * k ≤ 90) ∨ (4 : ℝ) = 2) := by
    rintro (⟨k, hlow, hhigh⟩ | hsquare)
    · have hk0 : k < 0 := by
        have : (k : ℝ) < 0 := by linarith
        exact_mod_cast this
      have hk1 : -1 < k := by
        have : (-1 : ℝ) < k := by linarith
        exact_mod_cast this
      omega
    · norm_num at hsquare
  have hsecond : ¬ShowsTrained realMath VisObb2.normalizeXywhaDeg ⟨0, 0, 4, 2, 120⟩ := by
    rw [showsTrained_iff realMath_trigLaws realMath_circle (by norm_num) (by norm_num)]
    exact hno
  refine ⟨?_, hsecond⟩
  rw [ShowsTrained, normalizeXywhaDeg_eq (by norm_num) (by norm_num)]
  exact hsecond

end W2Net.Proofs.VisObbLabels
