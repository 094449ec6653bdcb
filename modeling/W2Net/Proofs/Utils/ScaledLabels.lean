import Mathlib.Analysis.SpecialFunctions.Complex.Arg
import W2Net.Lib.RotatedRect
import W2Net.Proofs.Utils.Rescale
import W2Net.Utils.Bbox
import W2Net.Utils.Detect

/-!
# `W2Net.Proofs.Utils.ScaledLabels`: rotated boxes of a rescaled image

The collater multiplies the four numbers of a rotated box by `im_scale`, and the
detector divides by it. Both keep the angle. The corners of the new box are where
the image takes the corners of the old one only under a condition
(`follows_iff`).

* `SameShare`: the sizes of an image whose sides `rescale` scales alike.
* `labels_follow_iff`: when labels follow the image and detections follow it back.
-/

set_option autoImplicit false

namespace W2Net.Proofs.ScaledLabels

open W2Net.Bbox (rbox2QuadXyxya)
open W2Net.Detect (unscale)
open W2Net.Letterbox (ResizeOps)
open W2Net.Proofs.Rescale

variable {K P : Type} [Field K]

/-! ### The corners of a box -/

/-- The four points of a row of eight columns. -/
def quadCorners (q : QuadRow K) : Set (K × K) := {(q 0, q 1), (q 2, q 3), (q 4, q 5), (q 6, q 7)}

/-- The corners of the box in the first five columns of a row. -/
def rowCorners (cvb : Cv2Boxes K) {n : ℕ} (row : Fin (n + 5) → K) : Set (K × K) :=
  quadCorners (rbox2QuadXyxya cvb (.ofRow row))

/-- The angle of a box in radians. -/
def radians (m : PyMath K) (b : RBox K) : K := b.a * m.pi / 180

/-- The centre of a box. -/
def centre (b : RBox K) : K × K := (b.x1 + 1 / 2 * (b.x2 - b.x1), b.y1 + 1 / 2 * (b.y2 - b.y1))

/-- Half of the width and of the height. -/
def halfExtents (b : RBox K) : K × K := ((b.x2 - b.x1) / 2, (b.y2 - b.y1) / 2)

/-- The corners of a box seen from its centre. -/
def boxOffsets (m : PyMath K) (b : RBox K) : Set (K × K) :=
  cornerOffsets (m.cos (radians m b)) (m.sin (radians m b)) (halfExtents b).1 (halfExtents b).2

/-- The four points in the order of OpenCV: the two on the negative side, then their
opposites. -/
theorem points_eq (m : PyMath K) (r : RotatedRect K) :
    let q := r.points m
    let o := cornerOffset (m.cos (r.t * m.pi / 180)) (m.sin (r.t * m.pi / 180)) (r.w / 2)
    ((q 0, q 1) = (r.x, r.y) + -o (-(r.h / 2)) ∧ (q 2, q 3) = (r.x, r.y) + -o (r.h / 2)) ∧
      (q 4, q 5) = (r.x, r.y) + o (-(r.h / 2)) ∧ (q 6, q 7) = (r.x, r.y) + o (r.h / 2) := by
  refine ⟨⟨?_, ?_⟩, ?_, ?_⟩ <;> apply Prod.ext <;>
    simp [RotatedRect.points, cornerOffset] <;> ring

theorem quadCorners_points (m : PyMath K) (r : RotatedRect K) :
    quadCorners (r.points m)
      = (fun p => (r.x, r.y) + p) ''
        cornerOffsets (m.cos (r.t * m.pi / 180)) (m.sin (r.t * m.pi / 180)) (r.w / 2) (r.h / 2) := by
  obtain ⟨⟨h0, h1⟩, h2, h3⟩ := points_eq m r
  rw [quadCorners, h0, h1, h2, h3, cornerOffsets, Set.image_insert_eq, Set.image_insert_eq,
    Set.image_insert_eq, Set.image_singleton]
  ext p
  simp only [Set.mem_insert_iff, Set.mem_singleton_iff]
  tauto

theorem quadCorners_rbox2Quad {cvb : Cv2Boxes K} {m : PyMath K} (hrot : cvb.Rotation m)
    (b : RBox K) :
    quadCorners (rbox2QuadXyxya cvb b) = (fun p => centre b + p) '' boxOffsets m b := by
  rw [rbox2QuadXyxya, hrot, quadCorners_points]
  rfl

/-! ### The scaled box -/

/-- The box with its four numbers multiplied. -/
def scaleBox (s : ImScale K) (b : RBox K) : RBox K :=
  ⟨b.x1 * s.x, b.y1 * s.y, b.x2 * s.x, b.y2 * s.y, b.a⟩

theorem ofRow_mulFirst4 {n : ℕ} (s : ImScale K) (row : Fin (n + 5) → K) :
    RBox.ofRow (s.mulFirst4 row) = scaleBox s (.ofRow row) := by
  simp [RBox.ofRow, scaleBox, ImScale.mulFirst4, ImScale.entry]

/-- The opposite scale. -/
def inverse (s : ImScale K) : ImScale K := ⟨s.x⁻¹, s.y⁻¹⟩

theorem divFirst4_eq {n : ℕ} (s : ImScale K) (row : Fin n → K) :
    s.divFirst4 row = (inverse s).mulFirst4 row := by
  funext j
  simp only [ImScale.divFirst4, ImScale.mulFirst4, ImScale.entry, inverse, div_eq_mul_inv]
  split
  · split <;> rfl
  · rfl

theorem centre_scaleBox (s : ImScale K) (b : RBox K) :
    centre (scaleBox s b) = stretch s.x s.y (centre b) := by
  simp only [centre, scaleBox, stretch, Prod.mk.injEq]
  constructor <;> ring

theorem boxOffsets_scaleBox (m : PyMath K) (s : ImScale K) (b : RBox K) :
    boxOffsets m (scaleBox s b)
      = cornerOffsets (m.cos (radians m b)) (m.sin (radians m b)) (s.x * (halfExtents b).1)
          (s.y * (halfExtents b).2) := by
  have hw : (halfExtents (scaleBox s b)).1 = s.x * (halfExtents b).1 := by
    simp only [halfExtents, scaleBox]
    ring
  have hh : (halfExtents (scaleBox s b)).2 = s.y * (halfExtents b).2 := by
    simp only [halfExtents, scaleBox]
    ring
  rw [boxOffsets, hw, hh]
  rfl

theorem image_stretch_translate (u v : K) (c : K × K) (S : Set (K × K)) :
    stretch u v '' ((fun p => c + p) '' S) = (fun p => stretch u v c + p) '' (stretch u v '' S) := by
  rw [Set.image_image, Set.image_image]
  refine Set.image_congr fun p _ => ?_
  simp only [stretch, Prod.fst_add, Prod.snd_add, Prod.mk_add_mk, mul_add]

/-- The corners of the scaled box are those of the box, stretched. -/
def Follows (cvb : Cv2Boxes K) (s : ImScale K) (b : RBox K) : Prop :=
  quadCorners (rbox2QuadXyxya cvb (scaleBox s b))
    = stretch s.x s.y '' quadCorners (rbox2QuadXyxya cvb b)

/-- The box is not turned, or it is a point. -/
def Upright (m : PyMath K) (b : RBox K) : Prop :=
  m.sin (radians m b) = 0 ∨ (b.x2 = b.x1 ∧ b.y2 = b.y1)

section
variable [LinearOrder K] [IsStrictOrderedRing K]

theorem follows_iff {cvb : Cv2Boxes K} {m : PyMath K} (hrot : cvb.Rotation m) (hm : m.Circle)
    {s : ImScale K} (hx : 0 < s.x) (hy : 0 < s.y) (b : RBox K) :
    Follows cvb s b ↔ s.x = s.y ∨ Upright m b := by
  have hhalf : ∀ {p q : K}, (p - q) / 2 = 0 ↔ p = q := by
    intro p q
    rw [div_eq_zero_iff, sub_eq_zero, or_iff_left two_ne_zero]
  rw [Follows, quadCorners_rbox2Quad hrot, quadCorners_rbox2Quad hrot, image_stretch_translate,
    centre_scaleBox, boxOffsets_scaleBox, (add_right_injective _).image_injective.eq_iff]
  rw [boxOffsets, ← stretchedOffsets, cornerOffsets_stretch_iff hx hy (hm _), Upright, halfExtents,
    hhalf, hhalf]

/-- A label follows the image. -/
theorem mulFirst4_follows_iff {cvb : Cv2Boxes K} {m : PyMath K} (hrot : cvb.Rotation m)
    (hm : m.Circle) {s : ImScale K} (hx : 0 < s.x) (hy : 0 < s.y) {n : ℕ} (row : Fin (n + 5) → K) :
    rowCorners cvb (s.mulFirst4 row) = (fun p => (s.x * p.1, s.y * p.2)) '' rowCorners cvb row ↔
      s.x = s.y ∨ Upright m (.ofRow row) := by
  rw [rowCorners, ofRow_mulFirst4]
  exact follows_iff hrot hm hx hy _

/-- A detection follows the image back. -/
theorem divFirst4_follows_iff {cvb : Cv2Boxes K} {m : PyMath K} (hrot : cvb.Rotation m)
    (hm : m.Circle) {s : ImScale K} (hx : 0 < s.x) (hy : 0 < s.y) {n : ℕ} (row : Fin (n + 5) → K) :
    rowCorners cvb (s.divFirst4 row) = (fun p => (p.1 / s.x, p.2 / s.y)) '' rowCorners cvb row ↔
      s.x = s.y ∨ Upright m (.ofRow row) := by
  have hback : (fun p : K × K => (p.1 / s.x, p.2 / s.y))
      = fun p => ((inverse s).x * p.1, (inverse s).y * p.2) := by
    funext p
    simp only [inverse, div_eq_inv_mul]
  have hinv : s.x = s.y ↔ (inverse s).x = (inverse s).y := inv_inj.symm
  rw [divFirst4_eq, hback, hinv]
  exact mulFirst4_follows_iff hrot hm (inv_pos.mpr hx) (inv_pos.mpr hy) row

/-! ### The scale of a call -/

variable [FloorRing K]

/-- The factor for an image of `H` rows and `W` columns that keeps its ratio: the
shorter side becomes `targetSize`, unless the longer one exceeds `maxSize`. -/
def keptFactor (H W : ℕ) (targetSize maxSize : K) : K :=
  if maxSize < pyRound (double (double (targetSize / (min H W : ℕ)) * (max H W : ℕ))) then
    double (maxSize / (max H W : ℕ))
  else double (targetSize / (min H W : ℕ))

/-- Rounding down to multiples of 32 takes the same share of both sides, with the products
in double precision. Without `keepRatio` the result is a square, and the image has to be one. -/
def SameShare (im : Img P) (targetSize maxSize : K) (keepRatio : Bool) : Prop :=
  if keepRatio then
    let k := keptFactor im.H im.W targetSize maxSize
    ⌊double (im.W * k) / Rescale.multiple⌋ * im.H = ⌊double (im.H * k) / Rescale.multiple⌋ * im.W
  else im.H = im.W

omit [IsStrictOrderedRing K] in
theorem ratio_eq_keptFactor {H W : ℕ} {targetSize maxSize r : K}
    (h : Rescale.ratio H W targetSize maxSize = .ok r) : r = keptFactor H W targetSize maxSize := by
  obtain ⟨imScale, hdiv, h⟩ := bind_eq_ok h
  obtain ⟨-, rfl⟩ := double_pyDiv_eq_ok hdiv
  unfold keptFactor
  split at h
  · rename_i hmax
    obtain ⟨-, rfl⟩ := double_pyDiv_eq_ok h
    rw [if_pos hmax]
  · rename_i hmax
    cases h
    rw [if_neg hmax]

omit [IsStrictOrderedRing K] in
theorem x_eq_y_iff {ops : ResizeOps P} {im im' : Img P} {s : ImScale K} {w h : ℤ}
    (hr : Rescaled ops im im' s w h) : s.x = s.y ↔ w * im.H = h * im.W := by
  have hW : (im.W : K) ≠ 0 := Nat.cast_ne_zero.mpr hr.columns
  have hH : (im.H : K) ≠ 0 := Nat.cast_ne_zero.mpr hr.rows
  have hx : s.x = w / im.W := by rw [← hr.width, mul_div_cancel_left₀ _ hW]
  have hy : s.y = h / im.H := by rw [← hr.height, mul_div_cancel_left₀ _ hH]
  rw [hx, hy, div_eq_div_iff hW hH]
  norm_cast

/-- Both sides have one scale for these images only. -/
theorem x_eq_y_iff_sameShare {ops : ResizeOps P} {im im' : Img P} {targetSize maxSize : K}
    {keepRatio : Bool} {s : ImScale K}
    (h : Rescale.rescale ops im targetSize maxSize keepRatio = .ok (im', s)) :
    s.x = s.y ↔ SameShare im targetSize maxSize keepRatio := by
  obtain ⟨w, h, hsize, hr⟩ := rescale_spec h
  rw [x_eq_y_iff hr]
  cases keepRatio with
  | true =>
      simp only [rescaledSize, ↓reduceIte] at hsize
      obtain ⟨r, hratio, hsize⟩ := bind_eq_ok hsize
      cases hsize
      -- Both sides are multiples of one number, which cancels.
      have hmultiple : (Rescale.multiple : ℤ) ≠ 0 := by decide
      simp only [SameShare, ↓reduceIte, Rescale.flooredSize, ← ratio_eq_keptFactor hratio]
      rw [mul_right_comm, mul_right_comm _ _ (im.W : ℤ), mul_left_inj' hmultiple]
  | false =>
      simp only [rescaledSize, Bool.false_eq_true, ↓reduceIte] at hsize
      cases hsize
      have hpos := hr.width_pos
      simp only [SameShare, Bool.false_eq_true, ↓reduceIte]
      rw [mul_right_inj' hpos.ne', Nat.cast_inj]

/-- The labels of an image follow it, and the detections on the resized image follow
it back, when the sides are scaled alike or the box is not turned. -/
theorem labels_follow_iff {cvb : Cv2Boxes K} {m : PyMath K} (hrot : cvb.Rotation m)
    (hm : m.Circle) {ops : ResizeOps P} {im im' : Img P} {targetSize maxSize : K}
    {keepRatio : Bool} {s : ImScale K}
    (h : Rescale.rescale ops im targetSize maxSize keepRatio = .ok (im', s)) :
    (∀ (n : ℕ) (row : Fin (n + 5) → K),
      rowCorners cvb (s.mulFirst4 row) = (fun p => (s.x * p.1, s.y * p.2)) '' rowCorners cvb row ↔
        SameShare im targetSize maxSize keepRatio ∨ Upright m (.ofRow row)) ∧
      ∀ d : Detection K,
        rowCorners cvb (unscale s d).box
            = (fun p => (p.1 / s.x, p.2 / s.y)) '' rowCorners cvb d.box ↔
          SameShare im targetSize maxSize keepRatio ∨ Upright m (.ofRow d.box) := by
  obtain ⟨_, _, -, hr⟩ := rescale_spec h
  obtain ⟨hx, hy⟩ := hr.pos
  rw [← x_eq_y_iff_sameShare h]
  exact ⟨fun _ row => mulFirst4_follows_iff hrot hm hx hy row,
    fun d => divFirst4_follows_iff hrot hm hx hy d.box⟩

end

/-! ### A photograph at the size 800 -/

/-- The functions over the real numbers. -/
noncomputable def realMath : PyMath ℝ :=
  ⟨Real.sqrt, Real.sin, Real.cos, fun y x => Complex.arg ⟨x, y⟩, Real.pi⟩

theorem realMath_circle : realMath.Circle := Real.cos_sq_add_sin_sq

/-- `cv2.boxPoints`, with a `cv2.minAreaRect` that no function here calls. -/
noncomputable def realBoxes : Cv2Boxes ℝ := ⟨RotatedRect.points realMath, fun _ => ⟨0, 0, 0, 0, 0⟩⟩

theorem realBoxes_rotation : realBoxes.Rotation realMath := fun _ => rfl

/-- 480 rows and 640 columns. -/
def photo : Img ℕ := ⟨480, 640, fun _ _ => 0⟩

/-- `cv2.resize` that takes the pixels at the top left. -/
def cropOps : ResizeOps ℕ := ⟨fun im w h => ⟨h, w, im.px⟩, fun im w h => ⟨h, w, im.px⟩⟩

/-- The factor of the photograph, `5 / 3` in double precision. -/
def photoFactor : ℚ := double (800 / 480)

/-- The larger image has 800 rows, and 1056 columns in place of 1066.7. -/
theorem rescale_photo :
    Rescale.rescale cropOps photo (800 : ℝ) 2000 true
      = .ok (⟨800, 1056, photo.px⟩, ⟨33 / 20, 5 / 3⟩) := by
  have hmin : min 480 640 = 480 := rfl
  have hmax : max 480 640 = 640 := rfl
  have hfactor : double ((800 : ℝ) / (480 : ℕ)) = (photoFactor : ℝ) := by
    have hcast : (800 : ℝ) / (480 : ℕ) = ((800 / 480 : ℚ) : ℝ) := by norm_num
    rw [hcast, double, roundTo_ratCast]
    rfl
  have hdiv : double <$> pyDiv (800 : ℝ) (min 480 640 : ℕ) = .ok (photoFactor : ℝ) := by
    rw [hmin, pyDiv, if_neg (by norm_num), ← hfactor]
    rfl
  have hround : ¬(2000 : ℝ) < pyRound (double ((photoFactor : ℝ) * (max 480 640 : ℕ))) := by
    have hcast : (photoFactor : ℝ) * (640 : ℕ) = ((photoFactor * 640 : ℚ) : ℝ) := by
      push_cast
      rfl
    have hvalue : pyRound (roundTo 53 (photoFactor * 640)) = 1067 := by decide +kernel
    rw [hmax, hcast, double, roundTo_ratCast, pyRound_ratCast, hvalue]
    norm_num
  have hratio : Rescale.ratio 480 640 (800 : ℝ) 2000 = .ok (photoFactor : ℝ) := by
    rw [Rescale.ratio, hdiv, ok_bind, if_neg hround]
  -- 33 and 25 multiples of 32.
  have hw : Rescale.flooredSize 640 (photoFactor : ℝ) = 1056 := by
    rw [Rescale.flooredSize_ratCast]
    decide +kernel
  have hh : Rescale.flooredSize 480 (photoFactor : ℝ) = 800 := by
    rw [Rescale.flooredSize_ratCast]
    decide +kernel
  have hx : ((1056 : ℤ) : ℝ) / (640 : ℕ) = 33 / 20 := by norm_num
  have hy : ((800 : ℤ) : ℝ) / (480 : ℕ) = 5 / 3 := by norm_num
  have hroundx : pyRound (((640 : ℕ) : ℝ) * (33 / 20)) = 1056 := by
    have hcast : ((640 : ℕ) : ℝ) * (33 / 20) = (1056 : ℤ) := by norm_num
    rw [hcast, pyRound_intCast]
  have hroundy : pyRound (((480 : ℕ) : ℝ) * (5 / 3)) = 800 := by
    have hcast : ((480 : ℕ) : ℝ) * (5 / 3) = (800 : ℤ) := by norm_num
    rw [hcast, pyRound_intCast]
  simp only [Rescale.rescale, photo, ↓reduceIte, hratio, ok_bind, hw, hh, hx, hy, hroundx, hroundy]
  rfl

/-- A box turned by 45 degrees. -/
noncomputable def turnedBox : Fin 6 → ℝ := ![200, 220, 300, 260, 45, 0]

/-- A detection with the same box. -/
noncomputable def turnedDetection : Detection ℝ := ⟨9 / 10, 1, ![200, 220, 300, 260, 45], none⟩

theorem not_upright_turnedBox : ¬Upright realMath (.ofRow turnedBox) := by
  have hangle : radians realMath (.ofRow turnedBox) = Real.pi / 4 := by
    show (45 : ℝ) * Real.pi / 180 = Real.pi / 4
    ring
  have hsin : 0 < Real.sin (Real.pi / 4) := by
    rw [Real.sin_pi_div_four]
    positivity
  rintro (hzero | ⟨hw, -⟩)
  · rw [hangle] at hzero
    exact hsin.ne' hzero
  · have hne : (300 : ℝ) ≠ 200 := by norm_num
    exact hne hw

/-- The label does not follow the photograph, and the detection does not follow it
back. -/
theorem turnedBox_not_follows :
    ∃ (im' : Img ℕ) (s : ImScale ℝ),
      Rescale.rescale cropOps photo (800 : ℝ) 2000 true = .ok (im', s) ∧
      rowCorners realBoxes (s.mulFirst4 turnedBox)
        ≠ (fun p => (s.x * p.1, s.y * p.2)) '' rowCorners realBoxes turnedBox ∧
      rowCorners realBoxes (unscale s turnedDetection).box
        ≠ (fun p => (p.1 / s.x, p.2 / s.y)) '' rowCorners realBoxes turnedDetection.box := by
  have hx : (0 : ℝ) < 33 / 20 := by norm_num
  have hy : (0 : ℝ) < 5 / 3 := by norm_num
  have hno : ¬((33 / 20 : ℝ) = 5 / 3 ∨ Upright realMath (.ofRow turnedBox)) :=
    not_or.mpr ⟨by norm_num, not_upright_turnedBox⟩
  refine ⟨_, _, rescale_photo, ?_, ?_⟩
  · rw [Ne, mulFirst4_follows_iff realBoxes_rotation realMath_circle hx hy]
    exact hno
  · rw [Ne, unscale, divFirst4_follows_iff realBoxes_rotation realMath_circle hx hy]
    exact hno

/-- The condition for the photograph. -/
theorem labels_follow_iff_photo :
    (∀ (n : ℕ) (row : Fin (n + 5) → ℝ),
      rowCorners realBoxes (ImScale.mulFirst4 ⟨33 / 20, 5 / 3⟩ row)
          = (fun p => (33 / 20 * p.1, 5 / 3 * p.2)) '' rowCorners realBoxes row ↔
        SameShare photo (800 : ℝ) 2000 true ∨ Upright realMath (.ofRow row)) ∧
      ∀ d : Detection ℝ,
        rowCorners realBoxes (unscale ⟨33 / 20, 5 / 3⟩ d).box
            = (fun p => (p.1 / (33 / 20), p.2 / (5 / 3))) '' rowCorners realBoxes d.box ↔
          SameShare photo (800 : ℝ) 2000 true ∨ Upright realMath (.ofRow d.box) :=
  labels_follow_iff realBoxes_rotation realMath_circle rescale_photo

end W2Net.Proofs.ScaledLabels
