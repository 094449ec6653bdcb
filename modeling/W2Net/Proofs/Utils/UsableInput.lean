import W2Net.Proofs.Utils.ScaledLabels

/-!
# `W2Net.Proofs.Utils.UsableInput`: what `rescale` gives the network

With `keep_ratio`, both sides are scaled by one factor and rounded down to multiples of 32. The
longer side then fits into `max_size` (`flooredSize_le`). The shorter one is rounded down to 0
when the longer one decides the factor and the image is too long, and for a few sides also when
the target is 32, because `n * (32 / n)` can come out below 32 in double precision. OpenCV
refuses the result. `rescale_usable_iff` is the exact condition.
-/

set_option autoImplicit false

namespace W2Net.Proofs.UsableInput

open W2Net.Letterbox (ResizeOps)
open W2Net.Proofs.ScaledLabels (keptFactor)
open W2Net.Rescale

variable {K P : Type} [Field K] [LinearOrder K] [IsStrictOrderedRing K] [FloorRing K]

/-! ### One side -/

/-- A side is rounded down to 0 below 32. -/
theorem flooredSize_pos_iff {size : ℕ} {f : K} : 0 < flooredSize size f ↔ 32 ≤ double (size * f) := by
  have hmul : flooredSize size f = ⌊double (size * f) / multiple⌋ * 32 := rfl
  have hone : (1 : ℤ) ≤ ⌊double (size * f) / multiple⌋ ↔ 32 ≤ double (size * f) := by
    rw [Int.le_floor, Int.cast_one, le_div_iff₀ (by norm_num [multiple]), one_mul]
    norm_num [multiple]
  rw [hmul, ← hone]
  omega

theorem flooredSize_le_double (size : ℕ) (f : K) : (flooredSize size f : K) ≤ double (size * f) := by
  have hfloor := Int.floor_le (double (size * f) / multiple)
  rw [le_div_iff₀ (by norm_num [multiple])] at hfloor
  rw [flooredSize, Int.cast_mul]
  exact_mod_cast hfloor

omit [IsStrictOrderedRing K] in
theorem dvd_flooredSize (size : ℕ) (f : K) : 32 ∣ flooredSize size f := Dvd.intro_left _ rfl

theorem flooredSize_mono {size size' : ℕ} {f : K} (hf : 0 < f) (hsize : 0 < size)
    (h : size ≤ size') : flooredSize size f ≤ flooredSize size' f := by
  have hpos : (0 : K) < size * f := mul_pos (Nat.cast_pos.mpr hsize) hf
  have hle : double (size * f) / multiple ≤ double (size' * f) / multiple := by
    have hcast : (size : K) ≤ size' := Nat.cast_le.mpr h
    have hmultiple : (0 : K) ≤ multiple := Nat.cast_nonneg _
    have hround : double (size * f) ≤ double (size' * f) :=
      roundTo_mono (by decide) hpos (mul_le_mul_of_nonneg_right hcast hf.le)
    gcongr
  exact mul_le_mul_of_nonneg_right (Int.floor_mono hle) (by decide)

/-! ### The factor -/

section
variable {H W k maxSize : ℕ}

/-- The longer side decides the factor: scaled with the shorter side to the target `32 * k`, it
exceeds `max_size`. -/
def LongSideDecides (K : Type) [Field K] [LinearOrder K] [FloorRing K] (H W k maxSize : ℕ) : Prop :=
  ((maxSize : ℕ) : K)
    < pyRound (double (double (((32 * k : ℕ) : K) / (min H W : ℕ)) * (max H W : ℕ)))

/-- Then the shorter side does not reach 32 with the factor of the longer one. -/
def TooLong (K : Type) [Field K] [LinearOrder K] [FloorRing K] (H W maxSize : ℕ) : Prop :=
  double ((min H W : ℕ) * double ((maxSize : K) / (max H W : ℕ))) < 32

/-- In double precision, `32 / n` times `n` comes out below 32. -/
def FallsShort (K : Type) [Field K] [LinearOrder K] [FloorRing K] (n : ℕ) : Prop :=
  double (n * double ((32 : K) / n)) < 32

omit [IsStrictOrderedRing K] in
/-- The factor for a target of `32 * k`. -/
theorem keptFactor_cases (H W k maxSize : ℕ) :
    (LongSideDecides K H W k maxSize ∧
        keptFactor H W ((32 * k : ℕ) : K) maxSize = double ((maxSize : K) / (max H W : ℕ))) ∨
      (¬LongSideDecides K H W k maxSize ∧
        keptFactor H W ((32 * k : ℕ) : K) maxSize = double (((32 * k : ℕ) : K) / (min H W : ℕ))) := by
  by_cases h : LongSideDecides K H W k maxSize
  · exact Or.inl ⟨h, if_pos h⟩
  · exact Or.inr ⟨h, if_neg h⟩

theorem double_div_pos {m n : ℕ} (hm : 0 < m) (hn : 0 < n) : 0 < double ((m : K) / n) :=
  roundTo_pos (by decide) (div_pos (Nat.cast_pos.mpr hm) (Nat.cast_pos.mpr hn))

theorem keptFactor_pos (hH : 0 < H) (hW : 0 < W) (hk : 0 < k) (hmax : 0 < maxSize) :
    0 < keptFactor H W ((32 * k : ℕ) : K) maxSize := by
  rcases keptFactor_cases (K := K) H W k maxSize with ⟨-, heq⟩ | ⟨-, heq⟩
  · rw [heq]
    exact double_div_pos hmax (by omega)
  · rw [heq]
    exact double_div_pos (by omega) (by omega)

/-- Two roundings move the product by a small share of it. -/
theorem double_mul_double_bounds {m n : ℕ} (hn : 0 < n) :
    (m : K) - m / 2 ^ 52 ≤ double (n * double ((m : K) / n)) ∧
      double (n * double ((m : K) / n)) ≤ m + 2 * (m / 2 ^ 52) := by
  have hcast : (0 : K) < n := Nat.cast_pos.mpr hn
  have hm : (0 : K) ≤ m := Nat.cast_nonneg m
  have hquot : (0 : K) ≤ (m : K) / n := div_nonneg hm hcast.le
  have hmul : (n : K) * ((m : K) / n) = m := mul_div_cancel₀ _ hcast.ne'
  have hshare : (n : K) * ((m : K) / n / 2 ^ 53) = m / 2 ^ 53 := by rw [← mul_div_assoc, hmul]
  -- The product with the rounded quotient, and then its own rounding.
  have hlow := mul_le_mul_of_nonneg_left (le_roundTo 53 hquot) hcast.le
  have hhigh := mul_le_mul_of_nonneg_left (roundTo_le 53 hquot) hcast.le
  rw [mul_sub, hmul, hshare] at hlow
  rw [mul_add, hmul, hshare] at hhigh
  have hnonneg : (0 : K) ≤ n * roundTo 53 ((m : K) / n) := by
    refine le_trans ?_ hlow
    rw [sub_nonneg]
    exact div_le_self hm (one_le_pow₀ one_le_two)
  have hlow' := le_roundTo 53 hnonneg
  have hhigh' := roundTo_le 53 hnonneg
  rw [double, double]
  constructor <;> linarith

/-- The longer side fits. -/
theorem flooredSize_longer_le (hH : 0 < H) (hW : 0 < W) (hmax : maxSize < 2 ^ 51) :
    flooredSize (max H W) (keptFactor H W ((32 * k : ℕ) : K) maxSize) ≤ maxSize := by
  have hle := flooredSize_le_double (max H W) (keptFactor H W ((32 * k : ℕ) : K) maxSize)
  rcases keptFactor_cases (K := K) H W k maxSize with ⟨-, heq⟩ | ⟨hfits, heq⟩
  · -- The error stays below 1, and both are whole numbers.
    rw [heq] at hle ⊢
    have hround := (double_mul_double_bounds (K := K) (m := maxSize) (n := max H W) (by omega)).2
    have hcast : (maxSize : K) < 2 ^ 51 := by exact_mod_cast hmax
    have hlt : (flooredSize (max H W) (double ((maxSize : K) / (max H W : ℕ))) : K)
        < (maxSize : K) + 1 := by linarith
    exact Int.lt_add_one_iff.mp (by exact_mod_cast hlt)
  · -- An integer below the scaled side is below its rounding.
    rw [heq] at hle ⊢
    rw [mul_comm ((max H W : ℕ) : K)] at hle
    have hround := (pyRound_bounds
      (double (double (((32 * k : ℕ) : K) / (min H W : ℕ)) * (max H W : ℕ)))).1
    have hfloor := (Int.le_floor.mpr hle).trans hround
    have hfits' := (Int.cast_le.mpr hfloor).trans (not_lt.mp hfits)
    exact_mod_cast hfits'

theorem flooredSize_le (hH : 0 < H) (hW : 0 < W) (hk : 0 < k) (hpos : 0 < maxSize)
    (hmax : maxSize < 2 ^ 51) {size : ℕ} (hsize : 0 < size) (hle : size ≤ max H W) :
    flooredSize size (keptFactor H W ((32 * k : ℕ) : K) maxSize) ≤ maxSize :=
  (flooredSize_mono (keptFactor_pos hH hW hk hpos) hsize hle).trans
    (flooredSize_longer_le hH hW hmax)

/-- The shorter side is not rounded down to 0. -/
theorem shorter_pos_iff (hH : 0 < H) (hW : 0 < W) (hk : 0 < k) :
    0 < flooredSize (min H W) (keptFactor H W ((32 * k : ℕ) : K) maxSize) ↔
      ¬(LongSideDecides K H W k maxSize ∧ TooLong K H W maxSize) ∧
        ¬(¬LongSideDecides K H W k maxSize ∧ k = 1 ∧ FallsShort K (min H W)) := by
  rw [flooredSize_pos_iff]
  rcases keptFactor_cases (K := K) H W k maxSize with ⟨hdecides, heq⟩ | ⟨hfits, heq⟩
  · rw [heq, not_and, not_and]
    exact ⟨fun h => ⟨fun _ => not_lt.mpr h, fun h' => absurd hdecides h'⟩,
      fun h => not_lt.mp (h.1 hdecides)⟩
  · rw [heq]
    rcases hk.nat_succ_le.eq_or_lt with rfl | htwo
    · -- For the target 32 the two roundings decide.
      rw [not_and, not_and, not_and]
      exact ⟨fun h => ⟨fun h' => absurd h' hfits, fun _ _ => not_lt.mpr h⟩,
        fun h => not_lt.mp (h.2 hfits rfl)⟩
    · -- From 64 on they are too small to matter.
      have hround := (double_mul_double_bounds (K := K) (m := 32 * k) (n := min H W) (by omega)).1
      have hge : (64 : K) ≤ ((32 * k : ℕ) : K) := by exact_mod_cast (by omega : 64 ≤ 32 * k)
      refine iff_of_true (by linarith) ⟨fun h => hfits h.1, fun h => htwo.ne' h.2.1⟩

/-- Then the longer one is not either. -/
theorem both_pos_iff (hH : 0 < H) (hW : 0 < W) (hk : 0 < k) (hpos : 0 < maxSize) :
    (0 < flooredSize W (keptFactor H W ((32 * k : ℕ) : K) maxSize) ∧
        0 < flooredSize H (keptFactor H W ((32 * k : ℕ) : K) maxSize)) ↔
      0 < flooredSize (min H W) (keptFactor H W ((32 * k : ℕ) : K) maxSize) := by
  have hf : 0 < keptFactor H W ((32 * k : ℕ) : K) maxSize := keptFactor_pos hH hW hk hpos
  have hmin : 0 < min H W := by omega
  constructor
  · rintro ⟨hw, hh⟩
    rcases min_choice H W with h | h <;> rw [h] <;> assumption
  · intro h
    exact ⟨h.trans_le (flooredSize_mono hf hmin (min_le_right H W)),
      h.trans_le (flooredSize_mono hf hmin (min_le_left H W))⟩

end

/-! ### The call -/

/-- An input for the network: the sides are positive multiples of 32 that fit into `max_size`, and
the labels are scaled by factors other than 0. -/
structure Usable (maxSize : ℕ) (im : Img P) (s : ImScale K) : Prop where
  rows_pos : 0 < im.H
  columns_pos : 0 < im.W
  rows_dvd : 32 ∣ im.H
  columns_dvd : 32 ∣ im.W
  rows_le : im.H ≤ maxSize
  columns_le : im.W ≤ maxSize
  x : s.x ≠ 0
  y : s.y ≠ 0

/-- A side as OpenCV gets it. -/
theorem usable_side {n : ℤ} {maxSize : ℕ} (hpos : 0 < n) (hdvd : 32 ∣ n) (hle : n ≤ maxSize) :
    0 < n.toNat ∧ 32 ∣ n.toNat ∧ n.toNat ≤ maxSize := by
  omega

omit [IsStrictOrderedRing K] in
theorem ratio_returns {H W : ℕ} (hH : 0 < H) (hW : 0 < W) (targetSize maxSize : K) :
    ratio H W targetSize maxSize = .ok (keptFactor H W targetSize maxSize) := by
  have hshort : ((min H W : ℕ) : K) ≠ 0 := Nat.cast_ne_zero.mpr (by omega)
  have hlong : ((max H W : ℕ) : K) ≠ 0 := Nat.cast_ne_zero.mpr (by omega)
  have hdiv : ∀ {a b : K}, b ≠ 0 → double <$> pyDiv a b = .ok (double (a / b)) := by
    intro a b hb
    rw [pyDiv, if_neg hb]
    rfl
  rw [ratio, hdiv hshort, ok_bind, keptFactor]
  split
  · exact hdiv hlong
  · rfl

/-- `rescale` on an image with pixels. -/
theorem rescale_eq (ops : ResizeOps P) {im : Img P} (hH : 0 < im.H) (hW : 0 < im.W)
    (targetSize maxSize : K) :
    let f := keptFactor im.H im.W targetSize maxSize
    rescale ops im targetSize maxSize true
      = resize ops im (flooredSize im.W f) (flooredSize im.H f) >>= fun resized =>
          .ok (resized, ⟨flooredSize im.W f / im.W, flooredSize im.H f / im.H⟩) := by
  intro f
  have hx : (im.W : K) * (flooredSize im.W f / im.W) = flooredSize im.W f :=
    mul_div_cancel₀ _ (Nat.cast_ne_zero.mpr hW.ne')
  have hy : (im.H : K) * (flooredSize im.H f / im.H) = flooredSize im.H f :=
    mul_div_cancel₀ _ (Nat.cast_ne_zero.mpr hH.ne')
  unfold rescale
  rw [if_pos rfl, ratio_returns hH hW, ok_bind]
  simp only [f] at hx hy ⊢
  rw [hx, hy, pyRound_intCast, pyRound_intCast]

/-- For every image and every target that is a positive multiple of 32 and at most `max_size`: with
`keep_ratio` the result is usable unless the longer side decides the factor and scales the
shorter one below 32, or the target is 32 and the two roundings take the shorter side below it.
Below `2 ^ 51`, doubles tell a half from a whole. -/
theorem rescale_usable_iff {ops : ResizeOps P} (hops : ops.Sized) {im : Img P} (hH : 0 < im.H)
    (hW : 0 < im.W) {k maxSize : ℕ} (hk : 0 < k) (htarget : 32 * k ≤ maxSize)
    (hmax : maxSize < 2 ^ 51) :
    Returns (rescale ops im ((32 * k : ℕ) : K) maxSize true)
        (fun out => Usable maxSize out.1 out.2) ↔
      ¬(LongSideDecides K im.H im.W k maxSize ∧ TooLong K im.H im.W maxSize) ∧
        ¬(¬LongSideDecides K im.H im.W k maxSize ∧ k = 1 ∧ FallsShort K (min im.H im.W)) := by
  have hpos : 0 < maxSize := by omega
  rw [← shorter_pos_iff hH hW hk, ← both_pos_iff hH hW hk hpos, rescale_eq ops hH hW]
  have hwle := flooredSize_le (K := K) hH hW hk hpos hmax hW (le_max_right im.H im.W)
  have hhle := flooredSize_le (K := K) hH hW hk hpos hmax hH (le_max_left im.H im.W)
  -- Only the two sizes matter from here on, and both are multiples of 32.
  generalize keptFactor im.H im.W ((32 * k : ℕ) : K) maxSize = f at *
  constructor
  · -- `cv2.resize` raises on a side of 0.
    rintro ⟨out, hout, -⟩
    obtain ⟨resized, hresize, -⟩ := bind_eq_ok hout
    obtain ⟨hw, hh, -⟩ := Rescale.resize_eq_ok hresize
    exact ⟨hw, hh⟩
  · rintro ⟨hw, hh⟩
    have hpos : ¬(flooredSize im.W f ≤ 0 ∨ flooredSize im.H f ≤ 0) := by omega
    rw [resize, if_neg hpos, ok_bind]
    refine Returns.ok ?_
    have hsized := hops.linear im (flooredSize im.W f).toNat (flooredSize im.H f).toNat
    obtain ⟨hwpos, hwdvd, hwle⟩ := usable_side hw (dvd_flooredSize im.W f) hwle
    obtain ⟨hhpos, hhdvd, hhle⟩ := usable_side hh (dvd_flooredSize im.H f) hhle
    have hscale : ∀ {n : ℤ} {size : ℕ}, 0 < n → 0 < size → (n : K) / size ≠ 0 := fun hn hsize =>
      div_ne_zero (Int.cast_ne_zero.mpr hn.ne') (Nat.cast_ne_zero.mpr hsize.ne')
    rw [← hsized.1] at hhpos hhdvd hhle
    rw [← hsized.2] at hwpos hwdvd hwle
    exact ⟨hhpos, hwpos, hhdvd, hwdvd, hhle, hwle, hscale hw hW, hscale hh hH⟩

/-! ### A photo and a strip -/

/-- Operations that only set the size. -/
def plainOps : ResizeOps Unit := ⟨fun _ w h => ⟨h, w, fun _ _ => ()⟩, fun _ w h => ⟨h, w, fun _ _ => 0⟩⟩

theorem plainOps_sized : plainOps.Sized := ⟨fun _ _ _ => ⟨rfl, rfl⟩, fun _ _ _ => ⟨rfl, rfl⟩⟩

/-- A strip of 20 rows and 2000 columns: its rows are rounded down to 0. -/
theorem strip_refused :
    rescale plainOps ⟨20, 2000, fun _ _ => ()⟩ (640 : ℚ) 2000 true = .error .cv2Error := by
  have hrows : flooredSize 20 (keptFactor 20 2000 (640 : ℚ) 2000) = 0 := by decide +kernel
  rw [rescale_eq plainOps (by decide) (by decide)]
  show resize plainOps _ _ (flooredSize 20 (keptFactor 20 2000 (640 : ℚ) 2000)) >>= _ = _
  rw [hrows, resize, if_pos (Or.inr le_rfl)]
  rfl

/-- At the target 32, `49 * (32 / 49)` comes out below 32. -/
example : FallsShort ℚ 49 ∧ FallsShort ℚ 98 ∧ ¬FallsShort ℚ 50 := by
  unfold FallsShort
  decide +kernel

/-- A photo with 600 rows and 800 columns. -/
theorem rescale_usable_iff_photo :
    Returns (rescale plainOps ⟨600, 800, fun _ _ => ()⟩ ((32 * 20 : ℕ) : ℚ) (2000 : ℕ) true)
      fun out => Usable 2000 out.1 out.2 := by
  refine (rescale_usable_iff plainOps_sized (by decide)
    (by decide) (by decide) (by decide) (by decide)).mpr ⟨fun h => absurd h.2 ?_, fun h => ?_⟩
  · unfold TooLong
    decide +kernel
  · exact absurd h.2.1 (by decide)

end W2Net.Proofs.UsableInput
