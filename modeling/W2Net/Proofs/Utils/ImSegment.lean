import W2Net.Proofs.Utils.Rescale
import W2Net.Utils.ImSegment

/-!
# `W2Net.Proofs.Utils.ImSegment`: where the logits of a pixel are returned to

The padded image is larger than the resized one, and the logits of the whole padded image are
resized to the size of the image. So a location comes back to a smaller one in each direction
that has been padded. `imSegment_mapsBack_iff` says for which calls every location comes back
to itself.
-/

set_option autoImplicit false

namespace W2Net.Proofs.ImSegment

open W2Net.ImSegment
open W2Net.Letterbox (ResizeOps)

variable {K L : Type} [Field K] [LinearOrder K] [IsStrictOrderedRing K] [FloorRing K]

/-! ### The pads -/

/-- Nothing is padded exactly for the multiples of 32. -/
theorem padTo32_eq_zero_iff (size : ℤ) : padTo32 K size = 0 ↔ 32 ∣ size := by
  rw [padTo32, sub_eq_zero]
  constructor
  · intro h
    exact ⟨⌈(size : K) / 32⌉, by rw [mul_comm]; exact h.symm⟩
  · rintro ⟨k, rfl⟩
    have hquot : ((32 * k : ℤ) : K) / 32 = k := by
      push_cast
      exact mul_div_cancel_left₀ _ (by norm_num)
    rw [hquot, Int.ceil_intCast, mul_comm]

theorem padTo32_nonneg (size : ℤ) : 0 ≤ padTo32 K size := by
  have hceil : (size : K) / 32 ≤ ⌈(size : K) / 32⌉ := Int.le_ceil _
  have hcast : (size : K) ≤ (⌈(size : K) / 32⌉ * 32 : ℤ) := by
    push_cast
    rwa [div_le_iff₀ (by norm_num)] at hceil
  exact sub_nonneg.mpr (Int.cast_le.mp hcast)

/-! ### The resized sides -/

/-- The longer side after resizing. -/
def longSide (K : Type) [Field K] [LinearOrder K] [FloorRing K] (H0 W0 : ℕ) (targetSize : ℤ) : ℤ :=
  pyRound (((max H0 W0 : ℕ) : K) * ((targetSize : K) / (min H0 W0 : ℕ)))

/-- The shorter side is resized to the target, the longer one to `longSide`. -/
theorem sizes_eq_ok {H0 W0 : ℕ} {targetSize : ℤ} {s : Sizes} (h : sizes K H0 W0 targetSize = .ok s) :
    0 < H0 ∧ 0 < W0 ∧ s.ph = padTo32 K s.h ∧ s.pw = padTo32 K s.w ∧
      ((s.h = targetSize ∧ s.w = longSide K H0 W0 targetSize) ∨
        (s.w = targetSize ∧ s.h = longSide K H0 W0 targetSize)) := by
  obtain ⟨r, hdiv, h⟩ := bind_eq_ok h
  obtain ⟨hmin, rfl⟩ := pyDiv_eq_ok hdiv
  cases h
  have hmin' : min H0 W0 ≠ 0 := Nat.cast_ne_zero.mp hmin
  -- The shorter side times the ratio is the target, so rounding does not move it.
  have hshort : pyRound (((min H0 W0 : ℕ) : K) * ((targetSize : K) / (min H0 W0 : ℕ))) = targetSize := by
    rw [mul_div_cancel₀ _ hmin, pyRound_intCast]
  refine ⟨by omega, by omega, rfl, rfl, ?_⟩
  rcases le_total H0 W0 with hle | hle
  · rw [min_eq_left hle] at hshort
    refine Or.inl ⟨?_, ?_⟩
    · show pyRound ((H0 : K) * ((targetSize : K) / (min H0 W0 : ℕ))) = targetSize
      rw [min_eq_left hle, hshort]
    · rw [longSide, max_eq_right hle]
  · rw [min_eq_right hle] at hshort
    refine Or.inr ⟨?_, ?_⟩
    · show pyRound ((W0 : K) * ((targetSize : K) / (min H0 W0 : ℕ))) = targetSize
      rw [min_eq_right hle, hshort]
    · rw [longSide, max_eq_left hle]

omit [IsStrictOrderedRing K] in
theorem sizes_returns {H0 W0 : ℕ} (hH0 : 0 < H0) (hW0 : 0 < W0) (targetSize : ℤ) :
    ∃ s, sizes K H0 W0 targetSize = .ok s := by
  have hmin : ((min H0 W0 : ℕ) : K) ≠ 0 := Nat.cast_ne_zero.mpr (by omega)
  exact ⟨_, by rw [sizes, pyDiv, if_neg hmin, ok_bind]⟩

/-- The longer side stays the longer one. -/
theorem le_longSide {H0 W0 : ℕ} (hH0 : 0 < H0) (hW0 : 0 < W0) {targetSize : ℤ}
    (htarget : 0 ≤ targetSize) : targetSize ≤ longSide K H0 W0 targetSize := by
  have hmin : ((min H0 W0 : ℕ) : K) ≠ 0 := Nat.cast_ne_zero.mpr (by omega)
  have hle : ((min H0 W0 : ℕ) : K) ≤ (max H0 W0 : ℕ) := Nat.cast_le.mpr min_le_max
  have hratio : (0 : K) ≤ targetSize / (min H0 W0 : ℕ) :=
    div_nonneg (Int.cast_nonneg htarget) (Nat.cast_nonneg _)
  have hround := pyRound_mono (mul_le_mul_of_nonneg_right hle hratio)
  rwa [mul_div_cancel₀ _ hmin, pyRound_intCast] at hround

/-- OpenCV accepts both sides exactly for a positive target. -/
theorem sides_pos_iff {H0 W0 : ℕ} {targetSize : ℤ} {s : Sizes}
    (h : sizes K H0 W0 targetSize = .ok s) : (0 < s.h ∧ 0 < s.w) ↔ 0 < targetSize := by
  obtain ⟨hH0, hW0, -, -, hsides⟩ := sizes_eq_ok h
  constructor
  · rintro ⟨hh, hw⟩
    rcases hsides with ⟨heq, -⟩ | ⟨heq, -⟩ <;> omega
  · intro htarget
    have hlong := le_longSide (K := K) hH0 hW0 htarget.le
    rcases hsides with ⟨hh, hw⟩ | ⟨hw, hh⟩ <;> omega

/-- Both sides are padded to themselves when they are multiples of 32. -/
theorem unpadded_iff {H0 W0 : ℕ} {targetSize : ℤ} {s : Sizes}
    (h : sizes K H0 W0 targetSize = .ok s) :
    (s.ph = 0 ∧ s.pw = 0) ↔ 32 ∣ targetSize ∧ 32 ∣ longSide K H0 W0 targetSize := by
  obtain ⟨-, -, hph, hpw, hsides⟩ := sizes_eq_ok h
  rw [hph, hpw, padTo32_eq_zero_iff, padTo32_eq_zero_iff]
  rcases hsides with ⟨hh, hw⟩ | ⟨hw, hh⟩
  · rw [hh, hw]
  · rw [hh, hw, and_comm]

/-! ### Locations -/

omit [IsStrictOrderedRing K] in
/-- One coordinate comes back to itself only if its direction has no pad. -/
theorem coordinate_iff {size0 : ℕ} {size pad : ℤ} (hsize0 : 0 < size0) (hsize : 0 < size)
    (hpad : 0 ≤ pad) :
    (size0 : K) * size / size0 * size0 / ((size + pad : ℤ) : K) = size0 ↔ pad = 0 := by
  have h0 : (size0 : K) ≠ 0 := Nat.cast_ne_zero.mpr hsize0.ne'
  have hsum : ((size + pad : ℤ) : K) ≠ 0 := Int.cast_ne_zero.mpr (by omega)
  rw [mul_div_cancel_left₀ _ h0, div_eq_iff hsum, mul_comm (size0 : K), mul_left_inj' h0, Int.cast_inj]
  omega

/-- A location comes back to itself. -/
def MapsBack (H0 W0 : ℕ) (s : Sizes) (p : K × K) : Prop :=
  toOriginal H0 W0 s (toPadded (toResized H0 W0 s p)) = p

/-- All locations of the image come back exactly when nothing is padded. -/
theorem mapsBack_iff {H0 W0 : ℕ} {s : Sizes} (hH0 : 0 < H0) (hW0 : 0 < W0) (hh : 0 < s.h)
    (hw : 0 < s.w) (hph : 0 ≤ s.ph) (hpw : 0 ≤ s.pw) :
    (∀ p : K × K, 0 ≤ p.1 → p.1 ≤ H0 → 0 ≤ p.2 → p.2 ≤ W0 → MapsBack H0 W0 s p) ↔
      s.ph = 0 ∧ s.pw = 0 := by
  have hH0' : (H0 : K) ≠ 0 := Nat.cast_ne_zero.mpr hH0.ne'
  have hW0' : (W0 : K) ≠ 0 := Nat.cast_ne_zero.mpr hW0.ne'
  constructor
  · intro hall
    -- The last corner of the image.
    have hcorner := hall (H0, W0) (Nat.cast_nonneg _) le_rfl (Nat.cast_nonneg _) le_rfl
    rw [MapsBack, toOriginal, toPadded, toResized, rectMap, rectMap, Prod.mk.injEq] at hcorner
    exact ⟨(coordinate_iff hH0 hh hph).mp hcorner.1, (coordinate_iff hW0 hw hpw).mp hcorner.2⟩
  · rintro ⟨hph0, hpw0⟩ p - - - -
    have hh' : (s.h : K) ≠ 0 := Int.cast_ne_zero.mpr hh.ne'
    have hw' : (s.w : K) ≠ 0 := Int.cast_ne_zero.mpr hw.ne'
    rw [MapsBack, toOriginal, toPadded, toResized, rectMap, rectMap, hph0, hpw0, add_zero, add_zero]
    refine Prod.ext ?_ ?_ <;> field_simp

/-- What the network gets. -/
def networkInput (ops : ResizeOps (Rgb K)) (imRgb : Img (Rgb K)) (s : Sizes) : Img (Rgb K) :=
  (ops.linear (imRgb.map normalize) s.w.toNat s.h.toNat).copyMakeBorder 0 s.ph.toNat 0 s.pw.toNat 0

omit [IsStrictOrderedRing K] in
theorem imSegment_eq (ops : ResizeOps (Rgb K)) (interpolate : Img L → ℕ → ℕ → Img L)
    (model : Network K L) {imRgb : Img (Rgb K)} {targetSize : TargetSize} {target : ℤ} {s : Sizes}
    (htarget : targetSize.first = .ok target) (hs : sizes K imRgb.H imRgb.W target = .ok s) :
    imSegment ops interpolate model imRgb targetSize
      = if 0 < s.h ∧ 0 < s.w then
          (model.segLogits (networkInput ops imRgb s)).map fun logits =>
            interpolate logits imRgb.H imRgb.W
        else .error .cv2Error := by
  unfold imSegment
  rw [htarget, ok_bind, hs, ok_bind, Rescale.resize]
  by_cases hpos : 0 < s.h ∧ 0 < s.w
  · rw [if_pos hpos, if_neg (by omega), ok_bind]
    rfl
  · rw [if_neg hpos, if_pos (by omega)]
    rfl

/-- For every image with pixels and every target size: OpenCV refuses the target or the call
interpolates the logits of the padded image. Then all locations of the image come back to
themselves exactly when both resized sides are multiples of 32. -/
theorem imSegment_mapsBack_iff (ops : ResizeOps (Rgb K)) (interpolate : Img L → ℕ → ℕ → Img L)
    (model : Network K L) {imRgb : Img (Rgb K)} (hH : 0 < imRgb.H) (hW : 0 < imRgb.W)
    {targetSize : TargetSize} {target : ℤ} (htarget : targetSize.first = .ok target) :
    ∃ s, sizes K imRgb.H imRgb.W target = .ok s ∧
      (target ≤ 0 → imSegment ops interpolate model imRgb targetSize = .error .cv2Error) ∧
      (0 < target →
        imSegment ops interpolate model imRgb targetSize
            = (model.segLogits (networkInput ops imRgb s)).map (fun logits =>
                interpolate logits imRgb.H imRgb.W) ∧
          ((∀ p : K × K, 0 ≤ p.1 → p.1 ≤ imRgb.H → 0 ≤ p.2 → p.2 ≤ imRgb.W →
              MapsBack imRgb.H imRgb.W s p) ↔
            32 ∣ target ∧ 32 ∣ longSide K imRgb.H imRgb.W target)) := by
  obtain ⟨s, hs⟩ := sizes_returns (K := K) hH hW target
  obtain ⟨-, -, hph, hpw, -⟩ := sizes_eq_ok hs
  have hcall := imSegment_eq ops interpolate model htarget hs
  refine ⟨s, hs, fun hneg => ?_, fun hpos => ?_⟩
  · rw [hcall, if_neg]
    exact fun hsides => absurd ((sides_pos_iff hs).mp hsides) (not_lt.mpr hneg)
  · have hsides := (sides_pos_iff hs).mpr hpos
    refine ⟨hcall.trans (if_pos hsides), ?_⟩
    -- Without padding the locations are only scaled, there and back.
    rw [← unpadded_iff hs]
    exact mapsBack_iff hH hW hsides.1 hsides.2 (hph ▸ padTo32_nonneg s.h) (hpw ▸ padTo32_nonneg s.w)

/-! ### Two images -/

/-- The sizes for an image of 600 rows and 800 columns, and for one with 800 rows. -/
theorem sizes_photo : sizes ℚ 600 800 640 = .ok ⟨640, 853, 0, 11⟩ := by decide +kernel

theorem sizes_square : sizes ℚ 800 800 640 = .ok ⟨640, 640, 0, 0⟩ := by decide +kernel

/-- The last corner of a padded image comes back to the left of itself. -/
theorem photo_not_mapsBack :
    sizes ℚ 600 800 640 = .ok ⟨640, 853, 0, 11⟩ ∧
      toOriginal 600 800 ⟨640, 853, 0, 11⟩ (toPadded (toResized 600 800 ⟨640, 853, 0, 11⟩ (600, 800)))
        = ((600, 21325 / 27) : ℚ × ℚ) ∧
      ¬MapsBack 600 800 ⟨640, 853, 0, 11⟩ ((600, 800) : ℚ × ℚ) := by
  have hback : toOriginal 600 800 ⟨640, 853, 0, 11⟩
      (toPadded (toResized 600 800 ⟨640, 853, 0, 11⟩ (600, 800))) = ((600, 21325 / 27) : ℚ × ℚ) := by
    norm_num [toOriginal, toPadded, toResized, rectMap]
  refine ⟨sizes_photo, hback, fun h => ?_⟩
  rw [MapsBack, hback, Prod.mk.injEq] at h
  norm_num at h

/-- A network that returns a logit for each pixel, and images without content. -/
def plainNetwork : Network ℚ Unit := ⟨fun im => .ok (.dict (im.map fun _ => ())), none⟩

def plainOps : ResizeOps (Rgb ℚ) := ⟨fun _ w h => ⟨h, w, fun _ _ => 0⟩, fun _ w h => ⟨h, w, fun _ _ => 0⟩⟩

def plainInterpolate (logits : Img Unit) (h w : ℕ) : Img Unit := ⟨h, w, logits.px⟩

def squareImage : Img (Rgb ℚ) := ⟨800, 800, fun _ _ => 0⟩

/-- All locations of a square image come back when its side is resized to a multiple of 32. -/
theorem imSegment_mapsBack_iff_square :
    imSegment plainOps plainInterpolate plainNetwork squareImage (.list [640])
        = .ok ⟨800, 800, fun _ _ => ()⟩ ∧
      ∀ p : ℚ × ℚ, 0 ≤ p.1 → p.1 ≤ (800 : ℕ) → 0 ≤ p.2 → p.2 ≤ (800 : ℕ) →
        MapsBack 800 800 ⟨640, 640, 0, 0⟩ p := by
  obtain ⟨s, hs, -, hcall⟩ := imSegment_mapsBack_iff plainOps plainInterpolate plainNetwork
    (show 0 < squareImage.H by decide) (show 0 < squareImage.W by decide)
    (show TargetSize.first (.list [640]) = .ok 640 from rfl)
  obtain rfl : ⟨640, 640, 0, 0⟩ = s := Except.ok.inj (sizes_square.symm.trans hs)
  obtain ⟨hok, hiff⟩ := hcall (by decide)
  exact ⟨hok, hiff.mpr ⟨by decide, by decide +kernel⟩⟩

end W2Net.Proofs.ImSegment
