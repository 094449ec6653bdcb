import W2Net.Models.Decoder
import W2Net.Proofs.Utils.BoxCoder

/-!
# `W2Net.Proofs.Models.ClipBoxes`: decoded boxes after `clip_boxes`

`clip_boxes` clamps the four numbers of a rotated box, which are the sides of the box
before it is turned: `x1` and `y1` from below, `x2` and `y2` from above.

* `clipBoxes_keeps_iff`: it keeps a box whose corners are inside of the image exactly when
  its unturned sides are inside too, and which boxes it keeps at every place.
* `clipBoxes_wellFormed_iff`: the sides of the result are in order exactly when the unturned
  box is not beyond a border of the image.
-/

set_option autoImplicit false

namespace W2Net.Proofs.ClipBoxes

open W2Net.BoxCoder
open W2Net.Decoder (clipBox nmsRow)
open W2Net.Proofs.BoxCoder (rowOf realTorch Wide centreSize_of_wide rowOf_centreSize decode_xywht
  arctan_tan_shift width_pos height_pos)
open W2Net.Proofs.ScaledLabels

section
variable {K : Type} [Field K] [LinearOrder K]

/-! ### Boxes inside of the image -/

/-- The point is in the image. -/
def InImage (h w : ℕ) (p : K × K) : Prop := (0 ≤ p.1 ∧ p.1 ≤ w) ∧ 0 ≤ p.2 ∧ p.2 ≤ h

/-- The four corners of the turned box are in the image. -/
def CornersInside (cvb : Cv2Boxes K) (h w : ℕ) (box : Fin 5 → K) : Prop :=
  ∀ p ∈ rowCorners cvb (n := 0) box, InImage h w p

/-- The sides of the box before it is turned are in the image. -/
def SidesInside (h w : ℕ) (box : Fin 5 → K) : Prop :=
  (0 ≤ box 0 ∧ box 2 ≤ w) ∧ 0 ≤ box 1 ∧ box 3 ≤ h

/-- Half of the width and of the height of the bounding box of a turned box. -/
def reach (m : PyMath K) (width height theta : K) : K × K :=
  (|width / 2 * m.cos (theta * m.pi / 180)| + |height / 2 * m.sin (theta * m.pi / 180)|,
    |width / 2 * m.sin (theta * m.pi / 180)| + |height / 2 * m.cos (theta * m.pi / 180)|)

/-- The unturned box does not stick out of the bounding box of the turned one. -/
def WithinReach (m : PyMath K) (width height theta : K) : Prop :=
  width / 2 ≤ (reach m width height theta).1 ∧ height / 2 ≤ (reach m width height theta).2

theorem clipBox_eq_self_iff (h w : ℕ) (box : Fin 5 → K) :
    clipBox h w box = box ↔ SidesInside h w box := by
  have hrow : box = ![box 0, box 1, box 2, box 3, box 4] := by
    funext j
    fin_cases j <;> rfl
  rw [clipBox, SidesInside]
  constructor
  · intro heq
    have h0 : max (box 0) 0 = box 0 := congrFun heq 0
    have h1 : max (box 1) 0 = box 1 := congrFun heq 1
    have h2 : min (box 2) w = box 2 := congrFun heq 2
    have h3 : min (box 3) h = box 3 := congrFun heq 3
    exact ⟨⟨max_eq_left_iff.mp h0, min_eq_left_iff.mp h2⟩, max_eq_left_iff.mp h1,
      min_eq_left_iff.mp h3⟩
  · rintro ⟨⟨h0, h2⟩, h1, h3⟩
    rw [max_eq_left h0, max_eq_left h1, min_eq_left h2, min_eq_left h3, ← hrow]

end

section
variable {K : Type} [Field K] [LinearOrder K] [IsStrictOrderedRing K] {cvb : Cv2Boxes K}
  {m : PyMath K}

/-- The corners are in the image when the bounding box is. -/
theorem cornersInside_rowOf_iff (hrot : cvb.Rotation m) (h w : ℕ)
    (ctrX ctrY width height theta : K) :
    CornersInside cvb h w (rowOf ctrX ctrY width height theta) ↔
      (0 ≤ ctrX - (reach m width height theta).1 ∧ ctrX + (reach m width height theta).1 ≤ w) ∧
        0 ≤ ctrY - (reach m width height theta).2 ∧ ctrY + (reach m width height theta).2 ≤ h := by
  have hcentre : centre (.ofRow (n := 0) (rowOf ctrX ctrY width height theta)) = (ctrX, ctrY) := by
    apply Prod.ext
    · show ctrX - 1 / 2 * width + 1 / 2 * (ctrX + 1 / 2 * width - (ctrX - 1 / 2 * width)) = ctrX
      ring
    · show ctrY - 1 / 2 * height + 1 / 2 * (ctrY + 1 / 2 * height - (ctrY - 1 / 2 * height)) = ctrY
      ring
  have hhalf : halfExtents (.ofRow (n := 0) (rowOf ctrX ctrY width height theta))
      = (width / 2, height / 2) := by
    apply Prod.ext
    · show (ctrX + 1 / 2 * width - (ctrX - 1 / 2 * width)) / 2 = width / 2
      ring
    · show (ctrY + 1 / 2 * height - (ctrY - 1 / 2 * height)) / 2 = height / 2
      ring
  rw [CornersInside, rowCorners, quadCorners_rbox2Quad hrot, Set.forall_mem_image, hcentre,
    boxOffsets, hhalf]
  exact cornerOffsets_inside_iff (ctrX, ctrY) (0, 0) (w, h)

/-- A box is kept at every place inside of an image exactly when its shape allows it. -/
theorem keeps_everywhere_iff [FloorRing K] (hrot : cvb.Rotation m) (width height theta : K) :
    (∀ (h w : ℕ) (ctrX ctrY : K), CornersInside cvb h w (rowOf ctrX ctrY width height theta) →
      clipBox h w (rowOf ctrX ctrY width height theta) = rowOf ctrX ctrY width height theta) ↔
      WithinReach m width height theta := by
  simp only [cornersInside_rowOf_iff hrot, clipBox_eq_self_iff]
  constructor
  · intro hkeep
    -- The place at the top left corner of a large image.
    obtain ⟨w, hw⟩ := exists_nat_ge ((reach m width height theta).1 + (reach m width height theta).1)
    obtain ⟨h, hh⟩ := exists_nat_ge ((reach m width height theta).2 + (reach m width height theta).2)
    obtain ⟨⟨h0, -⟩, h1, -⟩ := hkeep h w (reach m width height theta).1
      (reach m width height theta).2 ⟨⟨by rw [sub_self], hw⟩, by rw [sub_self], hh⟩
    have hx : 0 ≤ (reach m width height theta).1 - 1 / 2 * width := h0
    have hy : 0 ≤ (reach m width height theta).2 - 1 / 2 * height := h1
    constructor <;> linarith
  · -- The corners reach at least as far as half a side, in both directions.
    rintro ⟨hwidth, hheight⟩ h w ctrX ctrY ⟨⟨hx, hx'⟩, hy, hy'⟩
    show (0 ≤ ctrX - 1 / 2 * width ∧ ctrX + 1 / 2 * width ≤ w) ∧
      0 ≤ ctrY - 1 / 2 * height ∧ ctrY + 1 / 2 * height ≤ h
    refine ⟨⟨?_, ?_⟩, ?_, ?_⟩ <;> linarith

/-- Among the boxes with all corners inside of the image, `clip_boxes` keeps those whose
unturned sides are inside too. -/
theorem clipBoxes_keeps_iff [FloorRing K] (hrot : cvb.Rotation m) :
    (∀ (h w : ℕ) (box : Fin 5 → K), CornersInside cvb h w box →
      (clipBox h w box = box ↔ SidesInside h w box)) ∧
      ∀ width height theta : K,
        (∀ (h w : ℕ) (ctrX ctrY : K),
          CornersInside cvb h w (rowOf ctrX ctrY width height theta) →
            clipBox h w (rowOf ctrX ctrY width height theta)
              = rowOf ctrX ctrY width height theta) ↔
          WithinReach m width height theta :=
  ⟨fun h w box _ => clipBox_eq_self_iff h w box, keeps_everywhere_iff hrot⟩

end

/-! ### A long box near the border -/

/-- Offsets of zero restore an anchor. -/
theorem decode_zero {anchor : Fin 5 → ℝ} (hwide : Wide anchor) (hlo : -90 < anchor 4)
    (hhi : anchor 4 < 90) : (init : BoxCoder ℝ).decode realTorch "xywht" anchor 0 = anchor := by
  have hangle : realTorch.atan (realTorch.tan (radians realTorch (anchor 4))) / realTorch.pi * 180
      = anchor 4 := by
    have h := arctan_tan_shift (t := anchor 4) (k := 0) (by simpa using hlo) (by simpa using hhi)
    rw [Int.cast_zero, mul_zero, sub_zero] at h
    exact h
  have hexp : realTorch.exp 0 = 1 := Real.exp_zero
  rw [decode_xywht]
  simp only [Pi.zero_apply, zero_div, zero_mul, add_zero, hexp, one_mul, hangle]
  rw [rowOf_centreSize hwide]
  funext j
  fin_cases j <;> rfl

/-- A box of 100 columns and 10 rows around (40, 40), turned by 45 degrees. -/
noncomputable def longBox : Fin 5 → ℝ := ![-10, 35, 90, 45, 45]

theorem longBox_eq : longBox = rowOf 40 40 100 10 45 := by
  rw [longBox, rowOf]
  norm_num

/-- Its corners are in an image of 96 rows and 96 columns. -/
theorem longBox_cornersInside : CornersInside realBoxes 96 96 longBox := by
  have hangle : (45 : ℝ) * Real.pi / 180 = Real.pi / 4 := by ring
  have hroot : Real.sqrt 2 < 1.42 := by
    rw [Real.sqrt_lt' (by norm_num)]
    norm_num
  have hroot' := Real.sqrt_nonneg 2
  have hreach : ∀ a b : ℝ, 0 ≤ a → 0 ≤ b →
      |a * (Real.sqrt 2 / 2)| + |b * (Real.sqrt 2 / 2)| = (a + b) * (Real.sqrt 2 / 2) := by
    intro a b ha hb
    rw [abs_of_nonneg (by positivity), abs_of_nonneg (by positivity)]
    ring
  rw [longBox_eq, cornersInside_rowOf_iff realBoxes_rotation]
  simp only [reach, realMath, hangle, Real.cos_pi_div_four, Real.sin_pi_div_four]
  rw [hreach _ _ (by norm_num) (by norm_num)]
  norm_num
  constructor <;> linarith

/-- The box is decoded from an anchor, all its corners are in the image, and it is changed. -/
theorem longBox_changed :
    (init : BoxCoder ℝ).decode realTorch "xywht" longBox 0 = longBox ∧
      CornersInside realBoxes 96 96 longBox ∧ clipBox 96 96 longBox ≠ longBox := by
  have hwide : Wide longBox := by
    show (1 : ℝ) ≤ 90 - -10 ∧ (1 : ℝ) ≤ 45 - 35
    norm_num
  have hlo : -90 < longBox 4 := show (-90 : ℝ) < 45 by norm_num
  have hhi : longBox 4 < 90 := show (45 : ℝ) < 90 by norm_num
  refine ⟨decode_zero hwide hlo hhi, longBox_cornersInside, fun heq => ?_⟩
  have hside : (0 : ℝ) ≤ -10 := ((clipBox_eq_self_iff 96 96 longBox).mp heq).1.1
  norm_num at hside

/-- The conditions over the real numbers. -/
theorem clipBoxes_keeps_iff_real :
    (∀ (h w : ℕ) (box : Fin 5 → ℝ), CornersInside realBoxes h w box →
      (clipBox h w box = box ↔ SidesInside h w box)) ∧
      ∀ width height theta : ℝ,
        (∀ (h w : ℕ) (ctrX ctrY : ℝ),
          CornersInside realBoxes h w (rowOf ctrX ctrY width height theta) →
            clipBox h w (rowOf ctrX ctrY width height theta)
              = rowOf ctrX ctrY width height theta) ↔
          WithinReach realMath width height theta :=
  clipBoxes_keeps_iff realBoxes_rotation

/-! ### Boxes beyond the image -/

section
variable {K : Type} [Field K] [LinearOrder K]

/-- The sides are in order, and in the image. -/
structure WellFormed (h w : ℕ) (box : Fin 5 → K) : Prop where
  left : 0 ≤ box 0
  width : box 0 ≤ box 2
  right : box 2 ≤ w
  top : 0 ≤ box 1
  height : box 1 ≤ box 3
  bottom : box 3 ≤ h

/-- The width and the height that the suppression computes for a box are not negative. -/
def SidesNonneg (box : Fin 5 → K) (score : K) : Prop :=
  let rect := (nmsRow ⟨score, 0, box, none⟩ : Nms.Det K).rect
  0 ≤ rect.w ∧ 0 ≤ rect.h

/-- On each axis the predicted centre is at most half of the predicted size beyond a border of
the image. -/
def MeetsImage (c : BoxCoder K) (tm : TorchMath K) (h w : ℕ) (anchor delta : Fin 5 → K) : Prop :=
  let (ctrX, ctrY, width, height) := centreSize anchor
  let predX := ctrX + delta 0 / c.wx * width
  let predY := ctrY + delta 1 / c.wy * height
  let halfW := 1 / 2 * (tm.exp (delta 2 / c.ww) * width)
  let halfH := 1 / 2 * (tm.exp (delta 3 / c.wh) * height)
  (predX - halfW ≤ w ∧ 0 ≤ predX + halfW) ∧ predY - halfH ≤ h ∧ 0 ≤ predY + halfH

variable [IsStrictOrderedRing K]

omit [Field K] [IsStrictOrderedRing K] in
/-- A side that is clamped from below, and one that is clamped from above. -/
theorem max_le_min_iff {x x' lo hi : K} (hx : x ≤ x') (hlo : lo ≤ hi) :
    max x lo ≤ min x' hi ↔ x ≤ hi ∧ lo ≤ x' := by
  rw [max_le_iff, le_min_iff, le_min_iff]
  constructor
  · rintro ⟨⟨-, h⟩, h', -⟩
    exact ⟨h, h'⟩
  · rintro ⟨h, h'⟩
    exact ⟨⟨hx, h⟩, h', hlo⟩

/-- A side of a clipped box keeps its direction when the box is not beyond a border. -/
theorem clipped_side_iff {ctr side : K} {n : ℕ} (hside : 0 ≤ side) :
    max (ctr - 1 / 2 * side) 0 ≤ min (ctr + 1 / 2 * side) n ↔
      ctr - 1 / 2 * side ≤ n ∧ 0 ≤ ctr + 1 / 2 * side := by
  have hle : ctr - 1 / 2 * side ≤ ctr + 1 / 2 * side := by linarith
  exact max_le_min_iff hle (Nat.cast_nonneg n)

section
variable {h w : ℕ} {ctrX ctrY width height theta : K}

theorem clipBox_rowOf_wellFormed_iff (hwidth : 0 ≤ width) (hheight : 0 ≤ height) :
    WellFormed h w (clipBox h w (rowOf ctrX ctrY width height theta)) ↔
      (ctrX - 1 / 2 * width ≤ w ∧ 0 ≤ ctrX + 1 / 2 * width) ∧
        ctrY - 1 / 2 * height ≤ h ∧ 0 ≤ ctrY + 1 / 2 * height := by
  rw [← clipped_side_iff hwidth, ← clipped_side_iff hheight]
  constructor
  · intro hbox
    exact ⟨hbox.width, hbox.height⟩
  · rintro ⟨hw, hh⟩
    exact ⟨le_max_right _ _, hw, min_le_right _ _, le_max_right _ _, hh, min_le_right _ _⟩

theorem clipBox_rowOf_sidesNonneg_iff (hwidth : 0 ≤ width) (hheight : 0 ≤ height) (score : K) :
    SidesNonneg (clipBox h w (rowOf ctrX ctrY width height theta)) score ↔
      (ctrX - 1 / 2 * width ≤ w ∧ 0 ≤ ctrX + 1 / 2 * width) ∧
        ctrY - 1 / 2 * height ≤ h ∧ 0 ≤ ctrY + 1 / 2 * height := by
  rw [← clipped_side_iff hwidth, ← clipped_side_iff hheight, ← sub_nonneg,
    ← sub_nonneg (b := max (ctrY - 1 / 2 * height) 0)]
  rfl

end

/-- A decoded and clipped box is well formed, and its sides are not negative, exactly when the
decoded box is not beyond a border of the image. -/
theorem clipBoxes_wellFormed_iff (c : BoxCoder K) (tm : TorchMath K) (hexp : ∀ x, 0 ≤ tm.exp x)
    (anchor delta : Fin 5 → K) (h w : ℕ) (score : K) :
    (WellFormed h w (clipBox h w (c.decode tm "xywht" anchor delta)) ↔
      MeetsImage c tm h w anchor delta) ∧
      (SidesNonneg (clipBox h w (c.decode tm "xywht" anchor delta)) score ↔
        MeetsImage c tm h w anchor delta) := by
  have hpos : ∀ side : K, 0 ≤ clampMin side := fun side => zero_le_one.trans (le_max_right side 1)
  have hwidth := mul_nonneg (hexp (delta 2 / c.ww)) (hpos (anchor 2 - anchor 0))
  have hheight := mul_nonneg (hexp (delta 3 / c.wh)) (hpos (anchor 3 - anchor 1))
  rw [decode_xywht]
  exact ⟨clipBox_rowOf_wellFormed_iff hwidth hheight,
    clipBox_rowOf_sidesNonneg_iff hwidth hheight score⟩

end

/-! ### A box to the right of the image -/

/-- An anchor in an image of 64 rows and 64 columns, and offsets that move it by 96 columns. -/
noncomputable def cornerAnchor : Fin 5 → ℝ := ![0, 0, 32, 32, 0]

noncomputable def farDelta : Fin 5 → ℝ := ![30, 0, 0, 0, 0]

theorem not_meetsImage_far : ¬MeetsImage init realTorch 64 64 cornerAnchor farDelta := by
  have hside : clampMin (32 - 0 : ℝ) = 32 := by
    rw [clampMin, max_eq_left] <;> norm_num
  have hsize : centreSize cornerAnchor = (16, 16, 32, 32) := by
    show ((0 : ℝ) + 1 / 2 * clampMin (32 - 0), (0 : ℝ) + 1 / 2 * clampMin (32 - 0),
      clampMin (32 - 0 : ℝ), clampMin (32 - 0 : ℝ)) = _
    rw [hside]
    norm_num
  rw [MeetsImage, hsize]
  rintro ⟨⟨hleft, -⟩, -⟩
  simp [farDelta, init, realTorch] at hleft
  norm_num at hleft

/-- The suppression gets a box with a negative width. -/
theorem farBox_negative :
    ¬WellFormed 64 64 (clipBox 64 64 (init.decode realTorch "xywht" cornerAnchor farDelta)) ∧
      ¬SidesNonneg (clipBox 64 64 (init.decode realTorch "xywht" cornerAnchor farDelta)) 1 := by
  have hexp : ∀ x, 0 ≤ realTorch.exp x := Real.exp_nonneg
  have hwidth := mul_nonneg (hexp (farDelta 2 / init.ww)) (width_pos cornerAnchor).le
  have hheight := mul_nonneg (hexp (farDelta 3 / init.wh)) (height_pos cornerAnchor).le
  have hno := not_meetsImage_far
  rw [decode_xywht, clipBox_rowOf_wellFormed_iff hwidth hheight,
    clipBox_rowOf_sidesNonneg_iff hwidth hheight]
  exact ⟨hno, hno⟩

/-- The condition over the real numbers. -/
theorem clipBoxes_wellFormed_iff_far :
    (WellFormed 64 64 (clipBox 64 64 (init.decode realTorch "xywht" cornerAnchor farDelta)) ↔
      MeetsImage init realTorch 64 64 cornerAnchor farDelta) ∧
      (SidesNonneg (clipBox 64 64 (init.decode realTorch "xywht" cornerAnchor farDelta)) 1 ↔
        MeetsImage init realTorch 64 64 cornerAnchor farDelta) :=
  clipBoxes_wellFormed_iff init realTorch Real.exp_nonneg cornerAnchor farDelta 64 64 1

end W2Net.Proofs.ClipBoxes
