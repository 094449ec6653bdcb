import Mathlib.Analysis.SpecialFunctions.Log.Basic
import Mathlib.Analysis.SpecialFunctions.Trigonometric.Arctan
import W2Net.Proofs.Utils.ScaledLabels
import W2Net.Utils.BoxCoder

/-!
# `W2Net.Proofs.Utils.BoxCoder`: encoding and decoding over the real numbers

A row is coded axis by axis, and its angle apart. On each axis the centre is coded by a
shift in units of the anchor and the size by the logarithm of a quotient, and both are
restored (`centre_code`, `size_code`, and `centre_decode`, `size_decode` the other way).
The angle is coded by its tangent, which restores it up to half turns (`arctan_tan_shift`).

`roundTrip` puts them together: `decode` after `encode` is the same rotated rectangle, and
`encode` after `decode` the same row of offsets.
-/

set_option autoImplicit false

namespace W2Net.Proofs.BoxCoder

open W2Net.BoxCoder
open W2Net.Proofs.ScaledLabels (rowCorners realBoxes realBoxes_rotation realMath quadCorners_rbox2Quad
  boxOffsets centre halfExtents)

/-- The functions over the real numbers. -/
noncomputable def realTorch : TorchMath ℝ :=
  ⟨Real.exp, Real.log, Real.tan, Real.arctan, Real.pi⟩

/-- All weights are positive. -/
structure Positive (c : BoxCoder ℝ) : Prop where
  wx : 0 < c.wx
  wy : 0 < c.wy
  ww : 0 < c.ww
  wh : 0 < c.wh
  wt : 0 < c.wt

/-! ### One axis -/

section
variable {w size : ℝ}

theorem centre_code (hw : w ≠ 0) (hsize : size ≠ 0) (ctr gt : ℝ) :
    ctr + w * (gt - ctr) / size / w * size = gt := by
  field_simp
  ring

theorem centre_decode (hw : w ≠ 0) (hsize : size ≠ 0) (ctr d : ℝ) :
    w * (ctr + d / w * size - ctr) / size = d := by
  field_simp
  ring

theorem size_code (hw : w ≠ 0) (hsize : 0 < size) {gt : ℝ} (hgt : 0 < gt) :
    Real.exp (w * Real.log (gt / size) / w) * size = gt := by
  rw [mul_div_cancel_left₀ _ hw, Real.exp_log (div_pos hgt hsize), div_mul_cancel₀ _ hsize.ne']

theorem size_decode (hw : w ≠ 0) (hsize : size ≠ 0) (d : ℝ) :
    w * Real.log (Real.exp (d / w) * size / size) = d := by
  rw [mul_div_cancel_right₀ _ hsize, Real.log_exp, mul_div_cancel₀ _ hw]

end

/-! ### The angle -/

/-- A half turn keeps the tangent. -/
theorem tan_halfTurns (t : ℝ) (k : ℤ) :
    Real.tan (radians realTorch (t - 180 * k)) = Real.tan (radians realTorch t) := by
  have hshift : radians realTorch (t - 180 * k) = radians realTorch t - k * Real.pi := by
    show (t - 180 * k) / 180 * Real.pi = t / 180 * Real.pi - k * Real.pi
    ring
  rw [hshift, Real.tan_sub_int_mul_pi]

/-- The tangent restores an angle up to half turns. -/
theorem arctan_tan_shift {t : ℝ} {k : ℤ} (hlo : -90 < t - 180 * k) (hhi : t - 180 * k < 90) :
    Real.arctan (Real.tan (radians realTorch t)) / Real.pi * 180 = t - 180 * k := by
  have hpi := Real.pi_pos
  have hradians : radians realTorch (t - 180 * k) = (t - 180 * k) / 180 * Real.pi := rfl
  rw [← tan_halfTurns t k, hradians, Real.arctan_tan]
  · field_simp
  · nlinarith
  · nlinarith

/-- The half turns of an angle. -/
theorem exists_halfTurns {t : ℝ} (hlo : -180 < t) (hhi : t ≤ 180) (h : t ≠ 90) (h' : t ≠ -90) :
    ∃ k : ℤ, -90 < t - 180 * k ∧ t - 180 * k < 90 := by
  rcases lt_trichotomy t (-90) with hlt | heq | hgt
  · exact ⟨-1, by push_cast; linarith, by push_cast; linarith⟩
  · exact absurd heq h'
  · rcases lt_trichotomy t 90 with hlt | heq | hgt'
    · exact ⟨0, by push_cast; linarith, by push_cast; linarith⟩
    · exact absurd heq h
    · exact ⟨1, by push_cast; linarith, by push_cast; linarith⟩

/-! ### One row -/

/-- The width and the height of a row are not clamped. -/
def Wide (box : Fin 5 → ℝ) : Prop := 1 ≤ box 2 - box 0 ∧ 1 ≤ box 3 - box 1

theorem centreSize_of_wide {box : Fin 5 → ℝ} (h : Wide box) :
    centreSize box = (box 0 + 1 / 2 * (box 2 - box 0), box 1 + 1 / 2 * (box 3 - box 1),
      box 2 - box 0, box 3 - box 1) := by
  rw [centreSize, clampMin, clampMin, max_eq_left h.1, max_eq_left h.2]

theorem clampMin_pos (x : ℝ) : 0 < clampMin x := zero_lt_one.trans_le (le_max_right x 1)

theorem width_pos (box : Fin 5 → ℝ) : 0 < (centreSize box).2.2.1 := clampMin_pos _

theorem height_pos (box : Fin 5 → ℝ) : 0 < (centreSize box).2.2.2 := clampMin_pos _

/-- The row that `decode` makes of a centre, a size and an angle. -/
def rowOf {K : Type} [Field K] (ctrX ctrY width height theta : K) : Fin 5 → K :=
  ![ctrX - 1 / 2 * width, ctrY - 1 / 2 * height, ctrX + 1 / 2 * width, ctrY + 1 / 2 * height, theta]

theorem decode_xywht {K : Type} [Field K] [LinearOrder K] (c : BoxCoder K) (tm : TorchMath K)
    (anchor delta : Fin 5 → K) :
    c.decode tm "xywht" anchor delta
      = rowOf ((centreSize anchor).1 + delta 0 / c.wx * (centreSize anchor).2.2.1)
          ((centreSize anchor).2.1 + delta 1 / c.wy * (centreSize anchor).2.2.2)
          (tm.exp (delta 2 / c.ww) * (centreSize anchor).2.2.1)
          (tm.exp (delta 3 / c.wh) * (centreSize anchor).2.2.2)
          (tm.atan (tm.tan (radians tm (anchor 4)) + delta 4 / c.wt) / tm.pi * 180) := by
  simp [decode, centreSize, rowOf]

/-- The offsets that code a centre, a size and the tangent of an angle. -/
noncomputable def code (c : BoxCoder ℝ) (anchor : Fin 5 → ℝ) (ctrX ctrY width height tangent : ℝ) :
    Fin 5 → ℝ :=
  ![c.wx * (ctrX - (centreSize anchor).1) / (centreSize anchor).2.2.1,
    c.wy * (ctrY - (centreSize anchor).2.1) / (centreSize anchor).2.2.2,
    c.ww * Real.log (width / (centreSize anchor).2.2.1),
    c.wh * Real.log (height / (centreSize anchor).2.2.2),
    c.wt * (tangent - Real.tan (radians realTorch (anchor 4)))]

/-- `encode` codes the clamped size, and the centre that belongs to it. -/
theorem encode_eq_code (c : BoxCoder ℝ) (anchor gt : Fin 5 → ℝ) :
    c.encode realTorch anchor gt
      = code c anchor (centreSize gt).1 (centreSize gt).2.1 (centreSize gt).2.2.1
          (centreSize gt).2.2.2 (Real.tan (radians realTorch (gt 4))) := rfl

/-- A code is decoded to what it codes, with the angle of its tangent. -/
theorem decode_code {c : BoxCoder ℝ} (hc : Positive c) (anchor : Fin 5 → ℝ)
    (ctrX ctrY tangent : ℝ) {width height : ℝ} (hwidth : 0 < width) (hheight : 0 < height) :
    c.decode realTorch "xywht" anchor (code c anchor ctrX ctrY width height tangent)
      = rowOf ctrX ctrY width height (Real.arctan tangent / Real.pi * 180) := by
  have hw := width_pos anchor
  have hh := height_pos anchor
  rw [decode_xywht, code]
  show rowOf
      (_ + c.wx * (_ - _) / _ / c.wx * _) (_ + c.wy * (_ - _) / _ / c.wy * _)
      (Real.exp (c.ww * _ / c.ww) * _) (Real.exp (c.wh * _ / c.wh) * _)
      (Real.arctan (Real.tan (radians realTorch (anchor 4)) + c.wt * (_ - _) / c.wt) / Real.pi * 180)
    = _
  rw [centre_code hc.wx.ne' hw.ne', centre_code hc.wy.ne' hh.ne', size_code hc.ww.ne' hw hwidth,
    size_code hc.wh.ne' hh hheight, mul_div_cancel_left₀ _ hc.wt.ne', add_sub_cancel]

theorem rowOf_inj {ctrX ctrY width height theta ctrX' ctrY' width' height' theta' : ℝ}
    (h : rowOf ctrX ctrY width height theta = rowOf ctrX' ctrY' width' height' theta') :
    ctrX = ctrX' ∧ ctrY = ctrY' ∧ width = width' ∧ height = height' ∧ theta = theta' := by
  have h0 : ctrX - 1 / 2 * width = ctrX' - 1 / 2 * width' := congrFun h 0
  have h1 : ctrY - 1 / 2 * height = ctrY' - 1 / 2 * height' := congrFun h 1
  have h2 : ctrX + 1 / 2 * width = ctrX' + 1 / 2 * width' := congrFun h 2
  have h3 : ctrY + 1 / 2 * height = ctrY' + 1 / 2 * height' := congrFun h 3
  have h4 : theta = theta' := congrFun h 4
  refine ⟨?_, ?_, ?_, ?_, h4⟩ <;> linarith

/-- Offsets are the code of what they are decoded to. -/
theorem eq_code_of_decode {c : BoxCoder ℝ} (hc : Positive c) {anchor delta : Fin 5 → ℝ}
    {ctrX ctrY width height theta : ℝ}
    (h : c.decode realTorch "xywht" anchor delta = rowOf ctrX ctrY width height theta) :
    delta = code c anchor ctrX ctrY width height (Real.tan (radians realTorch theta)) := by
  have hw := width_pos anchor
  have hh := height_pos anchor
  -- The tangent undoes the arctangent without a bound on the angle.
  have hangle : ∀ x : ℝ, Real.tan (radians realTorch (Real.arctan x / Real.pi * 180)) = x := by
    intro x
    have hradians : radians realTorch (Real.arctan x / Real.pi * 180) = Real.arctan x := by
      show Real.arctan x / Real.pi * 180 / 180 * Real.pi = Real.arctan x
      field_simp
    rw [hradians, Real.tan_arctan]
  rw [decode_xywht] at h
  obtain ⟨rfl, rfl, rfl, rfl, rfl⟩ := rowOf_inj h
  funext j
  fin_cases j
  · exact (centre_decode hc.wx.ne' hw.ne' _ _).symm
  · exact (centre_decode hc.wy.ne' hh.ne' _ _).symm
  · exact (size_decode hc.ww.ne' hw.ne' _).symm
  · exact (size_decode hc.wh.ne' hh.ne' _).symm
  · show delta 4 = c.wt * (Real.tan (radians realTorch (Real.arctan
        (Real.tan (radians realTorch (anchor 4)) + delta 4 / c.wt) / Real.pi * 180))
      - Real.tan (radians realTorch (anchor 4)))
    rw [hangle, add_sub_cancel_left, mul_div_cancel₀ _ hc.wt.ne']

/-- A row is made of its centre, its size and its angle. -/
theorem rowOf_centreSize {box : Fin 5 → ℝ} (h : Wide box) (theta : ℝ) :
    rowOf (centreSize box).1 (centreSize box).2.1 (centreSize box).2.2.1 (centreSize box).2.2.2 theta
      = ![box 0, box 1, box 2, box 3, theta] := by
  have hlo : ∀ p q : ℝ, p + 1 / 2 * (q - p) - 1 / 2 * (q - p) = p := fun p q => by ring
  have hhi : ∀ p q : ℝ, p + 1 / 2 * (q - p) + 1 / 2 * (q - p) = q := fun p q => by ring
  rw [centreSize_of_wide h, rowOf, hlo, hlo, hhi, hhi]

theorem centreSize_rowOf {ctrX ctrY width height theta : ℝ}
    (h : Wide (rowOf ctrX ctrY width height theta)) :
    centreSize (rowOf ctrX ctrY width height theta) = (ctrX, ctrY, width, height) := by
  have hside : ∀ p d : ℝ, p + 1 / 2 * d - (p - 1 / 2 * d) = d := fun p d => by ring
  have hctr : ∀ p d : ℝ, p - 1 / 2 * d + 1 / 2 * d = p := fun p d => by ring
  rw [centreSize_of_wide h]
  show (ctrX - 1 / 2 * width + 1 / 2 * (ctrX + 1 / 2 * width - (ctrX - 1 / 2 * width)),
      ctrY - 1 / 2 * height + 1 / 2 * (ctrY + 1 / 2 * height - (ctrY - 1 / 2 * height)),
      ctrX + 1 / 2 * width - (ctrX - 1 / 2 * width),
      ctrY + 1 / 2 * height - (ctrY - 1 / 2 * height)) = _
  rw [hside, hside, hctr, hctr]

/-- Encoded and decoded, a row has its old corners, and the angle of its tangent. -/
theorem decode_encode {c : BoxCoder ℝ} (hc : Positive c) (anchor : Fin 5 → ℝ) {gt : Fin 5 → ℝ}
    (hgt : Wide gt) :
    c.decode realTorch "xywht" anchor (c.encode realTorch anchor gt)
      = ![gt 0, gt 1, gt 2, gt 3,
          Real.arctan (Real.tan (radians realTorch (gt 4))) / Real.pi * 180] := by
  rw [encode_eq_code, decode_code hc anchor _ _ _ (width_pos gt) (height_pos gt),
    rowOf_centreSize hgt]

/-- Decoded and encoded, a row of offsets is the same. -/
theorem encode_decode {c : BoxCoder ℝ} (hc : Positive c) (anchor delta : Fin 5 → ℝ)
    (hout : Wide (c.decode realTorch "xywht" anchor delta)) :
    c.encode realTorch anchor (c.decode realTorch "xywht" anchor delta) = delta := by
  have hcode := eq_code_of_decode hc (decode_xywht c realTorch anchor delta)
  rw [decode_xywht] at hout ⊢
  rw [encode_eq_code, centreSize_rowOf hout]
  exact hcode.symm

/-! ### The round trip -/

/-- A half turn keeps the corners of a box. -/
theorem boxOffsets_halfTurns (b : RBox ℝ) (k : ℤ) :
    boxOffsets realMath { b with a := b.a - 180 * k } = boxOffsets realMath b := by
  have hangle : (b.a - 180 * k) * Real.pi / 180 = b.a * Real.pi / 180 - k * Real.pi := by ring
  show cornerOffsets (Real.cos ((b.a - 180 * k) * Real.pi / 180))
      (Real.sin ((b.a - 180 * k) * Real.pi / 180)) _ _
    = cornerOffsets (Real.cos (b.a * Real.pi / 180)) (Real.sin (b.a * Real.pi / 180)) _ _
  rw [hangle, Real.cos_sub_int_mul_pi, Real.sin_sub_int_mul_pi]
  rcases Int.even_or_odd k with hk | hk
  · rw [hk.neg_one_zpow, one_mul, one_mul]
    rfl
  · rw [hk.neg_one_zpow, neg_one_mul, neg_one_mul, cornerOffsets_neg]
    rfl

/-- The same rotated rectangle: the old numbers, an angle between -90 and 90 that differs by
half turns, and the old corners. -/
structure SameRect (gt out : Fin 5 → ℝ) : Prop where
  corners : ∀ j, j ≠ 4 → out j = gt j
  angle_lo : -90 < out 4
  angle_hi : out 4 < 90
  halfTurns : ∃ k : ℤ, out 4 = gt 4 - 180 * k
  rect : rowCorners realBoxes out = rowCorners realBoxes gt

theorem sameRect_of_halfTurns {gt : Fin 5 → ℝ} {k : ℤ} (hlo : -90 < gt 4 - 180 * k)
    (hhi : gt 4 - 180 * k < 90) : SameRect gt ![gt 0, gt 1, gt 2, gt 3, gt 4 - 180 * k] where
  corners j hj := by
    fin_cases j
    · rfl
    · rfl
    · rfl
    · rfl
    · exact absurd rfl hj
  angle_lo := hlo
  angle_hi := hhi
  halfTurns := ⟨k, rfl⟩
  rect := by
    rw [rowCorners, rowCorners, quadCorners_rbox2Quad realBoxes_rotation,
      quadCorners_rbox2Quad realBoxes_rotation, ← boxOffsets_halfTurns (.ofRow gt) k]
    rfl

/-- Decoding undoes encoding up to half turns of the box, and encoding undoes decoding. -/
theorem roundTrip (c : BoxCoder ℝ) (hc : Positive c) (anchor : Fin 5 → ℝ) :
    (∀ gt : Fin 5 → ℝ, Wide gt → -180 < gt 4 → gt 4 ≤ 180 → gt 4 ≠ 90 → gt 4 ≠ -90 →
      SameRect gt (c.decode realTorch "xywht" anchor (c.encode realTorch anchor gt))) ∧
      ∀ delta : Fin 5 → ℝ, Wide (c.decode realTorch "xywht" anchor delta) →
        c.encode realTorch anchor (c.decode realTorch "xywht" anchor delta) = delta := by
  constructor
  · intro gt hgt hlo hhi h h'
    obtain ⟨k, hk, hk'⟩ := exists_halfTurns hlo hhi h h'
    rw [decode_encode hc anchor hgt, arctan_tan_shift hk hk']
    exact sameRect_of_halfTurns hk hk'
  · intro delta hout
    exact encode_decode hc anchor delta hout

/-- The default weights. -/
theorem positive_init : Positive (init : BoxCoder ℝ) := by
  constructor <;> norm_num [init]

/-- An anchor. -/
def squareAnchor : Fin 5 → ℝ := ![0, 0, 32, 32, 0]

/-- A box that is turned by 120 degrees. -/
def turnedRow : Fin 5 → ℝ := ![10, 20, 50, 40, 120]

theorem wide_turnedRow : Wide turnedRow := by
  show (1 : ℝ) ≤ 50 - 10 ∧ (1 : ℝ) ≤ 40 - 20
  norm_num

/-- Offsets of zero give the anchor. -/
theorem wide_decode_zero : Wide (init.decode realTorch "xywht" squareAnchor 0) := by
  have hside : clampMin (32 - 0 : ℝ) = 32 := by
    rw [clampMin, max_eq_left] <;> norm_num
  have hsize : (centreSize squareAnchor).2.2 = (32, 32) := Prod.ext hside hside
  rw [decode_xywht, hsize]
  constructor <;> simp [rowOf, realTorch] <;> norm_num

/-- The turned box comes back with -60 degrees, and the offsets of zero come back. -/
theorem roundTrip_turned :
    SameRect turnedRow
        (init.decode realTorch "xywht" squareAnchor (init.encode realTorch squareAnchor turnedRow)) ∧
      init.encode realTorch squareAnchor (init.decode realTorch "xywht" squareAnchor 0) = 0 := by
  have h := roundTrip init positive_init squareAnchor
  have hangle : turnedRow 4 = 120 := rfl
  refine ⟨h.1 turnedRow wide_turnedRow ?_ ?_ ?_ ?_, h.2 0 wide_decode_zero⟩
  all_goals
    rw [hangle]
    norm_num

end W2Net.Proofs.BoxCoder
