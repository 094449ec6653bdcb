import Mathlib.Algebra.Order.Field.Rat
import Mathlib.Tactic.FieldSimp
import Mathlib.Tactic.NormNum
import W2Net.Utils.Letterbox

/-!
# `W2Net.Proofs.Utils.Letterbox`: the way to the target size and back

`letterbox_pair` scales both sides by the ratio of the side that limits them. That
side becomes exactly the target's, and the other one is not longer than the
target's, rounding included (`scaled_le`, `scaled_eq`). So the two pads of an axis
add up to what is missing, none of them is negative (`axisPads_eq`), and an axis has
none.

`unletterbox_map` cuts off the same pads. What is left is the window of the resized
image (`slice_window`, `slice_copyMakeBorder`), whatever the map holds, and
`letterbox_unletterbox` puts both functions together.
-/

set_option autoImplicit false

namespace W2Net.Proofs.Letterbox

open W2Net.Letterbox

/-! ### Windows -/

section
variable {P : Type}

/-- Two arrays of the same size with the same pixels. -/
structure SameImage (a b : Img P) : Prop where
  height : a.H = b.H
  width : a.W = b.W
  px : ∀ y < a.H, ∀ x < a.W, a.px y x = b.px y x

/-- The window of `h` rows and `w` columns from row `top` and column `left`. -/
def window (im : Img P) (top left h w : ℕ) : Img P := ⟨h, w, fun y x => im.px (top + y) (left + x)⟩

theorem sliceBound_natCast {n i : ℕ} (h : i ≤ n) : sliceBound n i = i := by
  rw [sliceBound, if_pos (Int.natCast_nonneg i), Int.toNat_natCast, Nat.min_eq_left h]

/-- A crop by the pads leaves the window between them. -/
theorem slice_window {im : Img P} {top bottom left right h w : ℕ} (hh : top + h + bottom = im.H)
    (hw : left + w + right = im.W) : probCropped im left right top bottom = window im top left h w := by
  have hrow : (im.H : ℤ) - bottom = (top + h : ℕ) := by omega
  have hcol : (im.W : ℤ) - right = (left + w : ℕ) := by omega
  simp only [probCropped, slice, hrow, hcol, sliceBound_natCast (show top ≤ im.H by omega),
    sliceBound_natCast (show top + h ≤ im.H by omega),
    sliceBound_natCast (show left ≤ im.W by omega),
    sliceBound_natCast (show left + w ≤ im.W by omega), Nat.add_sub_cancel_left, window]

/-- The window of a bordered image between its borders is the image. -/
theorem slice_copyMakeBorder (im : Img P) (top bottom left right : ℕ) (value : P) :
    SameImage (probCropped (im.copyMakeBorder top bottom left right value) left right top bottom)
      im := by
  have hwindow : probCropped (im.copyMakeBorder top bottom left right value) left right top bottom
      = window (im.copyMakeBorder top bottom left right value) top left im.H im.W :=
    slice_window rfl rfl
  rw [hwindow]
  refine ⟨rfl, rfl, fun y hy x hx => ?_⟩
  have hinside : top ≤ top + y ∧ top + y < top + im.H ∧ left ≤ left + x ∧ left + x < left + im.W :=
    ⟨by omega, Nat.add_lt_add_left hy top, by omega, Nat.add_lt_add_left hx left⟩
  show (if _ then _ else _) = _
  rw [if_pos hinside, Nat.add_sub_cancel_left, Nat.add_sub_cancel_left]

end

/-! ### Sides and pads -/

section
variable (K : Type) [Field K] [LinearOrder K] [FloorRing K]

/-- `r`, for an image of `h0` rows and `w0` columns. -/
def ratio (h0 w0 : ℕ) (newShape : ℕ × ℕ) : K :=
  min ((newShape.1 : K) / h0) ((newShape.2 : K) / w0)

/-- `new_unpad`: the resized sides, the columns first. -/
def newUnpad (h0 w0 : ℕ) (newShape : ℕ × ℕ) : ℤ × ℤ :=
  (pyRound ((w0 : K) * ratio K h0 w0 newShape), pyRound ((h0 : K) * ratio K h0 w0 newShape))

/-- `floor(d / 2)` and `ceil(d / 2)`, the pads of an axis on which `d` is missing. -/
def axisPads (d : ℤ) : ℤ × ℤ := (⌊(d : K) / 2⌋, ⌈(d : K) / 2⌉)

variable {K} [IsStrictOrderedRing K]

/-- A side that is scaled by the target's ratio or less is not longer than the target. -/
theorem scaled_le {n s : ℕ} (hs : 1 ≤ s) {r : K} (hr : r ≤ (n : K) / s) :
    pyRound ((s : K) * r) ≤ n := by
  have hpos : (0 : K) < s := Nat.cast_pos.mpr hs
  have hle : (s : K) * r ≤ (n : ℤ) := by
    rw [Int.cast_natCast, ← le_div_iff₀' hpos]
    exact hr
  exact (pyRound_mono hle).trans_eq (pyRound_intCast _)

/-- A side that is scaled by the target's ratio is the target's. -/
theorem scaled_eq {n s : ℕ} (hs : 1 ≤ s) : pyRound ((s : K) * ((n : K) / s)) = n := by
  have hne : (s : K) ≠ 0 := Nat.cast_ne_zero.mpr (by omega)
  rw [mul_div_cancel₀ _ hne, ← Int.cast_natCast]
  exact pyRound_intCast _

/-- The pads of an axis add up to what is missing. -/
theorem axisPads_eq (d : ℤ) : axisPads K d = (d / 2, (d + 1) / 2) := by
  have hdiv := Int.emod_two_eq_zero_or_one d
  obtain ⟨k, hk⟩ : ∃ k, k = d / 2 := ⟨_, rfl⟩
  rcases hdiv with heven | hodd
  · have hd : d = 2 * k := by omega
    have hhalf : (d : K) / 2 = (k : ℤ) := by
      rw [hd]
      push_cast
      ring
    rw [axisPads, hhalf, Int.floor_intCast, Int.ceil_intCast, Prod.mk.injEq]
    omega
  · have hd : d = 2 * k + 1 := by omega
    -- An odd number of pixels: the floor and the ceiling of the half differ by one.
    have hfloor : ⌊(d : K) / 2⌋ = k := by
      rw [Int.floor_eq_iff, hd]
      push_cast
      constructor <;> linarith
    have hceil : ⌈(d : K) / 2⌉ = k + 1 := by
      rw [Int.ceil_eq_iff, hd]
      push_cast
      constructor <;> linarith
    rw [axisPads, hfloor, hceil, Prod.mk.injEq]
    omega

/-- The resized sides fit into the target, and one of them fills it. -/
theorem newUnpad_le {h0 w0 : ℕ} (hh : 1 ≤ h0) (hw : 1 ≤ w0) (newShape : ℕ × ℕ) :
    (newUnpad K h0 w0 newShape).1 ≤ newShape.2 ∧ (newUnpad K h0 w0 newShape).2 ≤ newShape.1 ∧
      ((newUnpad K h0 w0 newShape).1 = newShape.2 ∨
        (newUnpad K h0 w0 newShape).2 = newShape.1) := by
  refine ⟨scaled_le hw (min_le_right _ _), scaled_le hh (min_le_left _ _), ?_⟩
  simp only [newUnpad, ratio]
  rcases le_total ((newShape.1 : K) / h0) ((newShape.2 : K) / w0) with hle | hle
  · right
    rw [min_eq_left hle]
    exact scaled_eq hh
  · left
    rw [min_eq_right hle]
    exact scaled_eq hw

end

/-! ### There and back -/

/-- What the code relies on of `cv2.resize`: for sides that are not empty, the result
has the requested size. -/
def ResizesTo {P : Type} (resize : Img P → ℕ → ℕ → Img P) : Prop :=
  ∀ im w h, 1 ≤ im.H → 1 ≤ im.W → 1 ≤ w → 1 ≤ h → (resize im w h).H = h ∧ (resize im w h).W = w

section
variable {K P Q : Type} [Field K] [LinearOrder K] [FloorRing K]

/-- What holds of a letterboxed image with its four pads, and of the way back from a
map of its size. The pads are the integers that the code computes, so that none of
these is negative. -/
structure FitsTogether (ops : ResizeOps P) (resize : Img Q → ℕ → ℕ → Img Q) (img : Img P)
    (mask : Img ℕ) (newShape : ℕ × ℕ) (lb : Letterboxed K P) (left right top bottom : ℕ) :
    Prop where
  pads : lb.pads = [left, right, top, bottom]
  columns : axisPads K (newShape.2 - (newUnpad K img.H img.W newShape).1)
    = ((left : ℤ), (right : ℤ))
  rows : axisPads K (newShape.1 - (newUnpad K img.H img.W newShape).2)
    = ((top : ℤ), (bottom : ℤ))
  unpadded : (left = 0 ∧ right = 0) ∨ (top = 0 ∧ bottom = 0)
  size : lb.img.H = newShape.1 ∧ lb.img.W = newShape.2
  maskSize : lb.mask.H = newShape.1 ∧ lb.mask.W = newShape.2
  crop : SameImage (probCropped lb.img left right top bottom)
    (ops.linear img (newUnpad K img.H img.W newShape).1.toNat
      (newUnpad K img.H img.W newShape).2.toNat)
  maskCrop : SameImage (probCropped lb.mask left right top bottom)
    (ops.nearest mask (newUnpad K img.H img.W newShape).1.toNat
      (newUnpad K img.H img.W newShape).2.toNat)
  back : ∀ prob : Img Q, prob.H = newShape.1 → prob.W = newShape.2 →
    ∃ out, unletterboxMap resize prob (img.H, img.W) lb.pads = .ok out ∧
      out = resize (window prob top left (newUnpad K img.H img.W newShape).2.toNat
        (newUnpad K img.H img.W newShape).1.toNat) img.W img.H ∧
      out.H = img.H ∧ out.W = img.W

/-- The letterboxed image for resized sides that fit: what is missing on each axis is
halved, the larger half behind the image. -/
theorem letterboxPair_eq (ops : ResizeOps P) (color : P) {img : Img P} (mask : Img ℕ)
    {newShape : ℕ × ℕ} {w h : ℕ} (hw : (newUnpad K img.H img.W newShape).1 = w)
    (hh : (newUnpad K img.H img.W newShape).2 = h) (hfitW : w ≤ newShape.2)
    (hfitH : h ≤ newShape.1) :
    letterboxPair (K := K) ops color img mask newShape =
      { img := (ops.linear img w h).copyMakeBorder ((newShape.1 - h) / 2)
          ((newShape.1 - h + 1) / 2) ((newShape.2 - w) / 2) ((newShape.2 - w + 1) / 2) color
        mask := (ops.nearest mask w h).copyMakeBorder ((newShape.1 - h) / 2)
          ((newShape.1 - h + 1) / 2) ((newShape.2 - w) / 2) ((newShape.2 - w + 1) / 2) 0
        r := ratio K img.H img.W newShape
        pads := [(newShape.2 - w) / 2, (newShape.2 - w + 1) / 2, (newShape.1 - h) / 2,
          (newShape.1 - h + 1) / 2] } := by
  -- The pads are integers in the source, and none of them is negative here.
  have hpads : ∀ {n s : ℕ}, s ≤ n → ((((n : ℤ) - s) / 2).toNat = (n - s) / 2) ∧
      (((n : ℤ) - s + 1) / 2).toNat = (n - s + 1) / 2 := by
    intro n s hle
    omega
  obtain ⟨hleft, hright⟩ := hpads hfitW
  obtain ⟨htop, hbottom⟩ := hpads hfitH
  have hroundW : pyRound ((img.W : K) * min ((newShape.1 : K) / img.H) ((newShape.2 : K) / img.W))
      = w := hw
  have hroundH : pyRound ((img.H : K) * min ((newShape.1 : K) / img.H) ((newShape.2 : K) / img.W))
      = h := hh
  simp only [letterboxPair, hroundW, hroundH, hleft, hright, htop, hbottom, Int.toNat_natCast,
    ratio]

/-- For every image and every target for which both resized sides are at least 1, the
letterboxed image and mask have the target's size, and the crop of `unletterbox_map` is
the window with the resized image. -/
theorem letterbox_unletterbox [IsStrictOrderedRing K] {ops : ResizeOps P}
    {resize : Img Q → ℕ → ℕ → Img Q} (hlinear : ResizesTo ops.linear)
    (hnearest : ResizesTo ops.nearest) (hresize : ResizesTo resize) (color : P) {img : Img P}
    {mask : Img ℕ} {newShape : ℕ × ℕ} (himg : 1 ≤ img.H ∧ 1 ≤ img.W)
    (hmask : 1 ≤ mask.H ∧ 1 ≤ mask.W) (hw : 1 ≤ (newUnpad K img.H img.W newShape).1)
    (hh : 1 ≤ (newUnpad K img.H img.W newShape).2) :
    ∃ left right top bottom, FitsTogether ops resize img mask newShape
      (letterboxPair (K := K) ops color img mask newShape) left right top bottom := by
  obtain ⟨hfitW, hfitH, hfill⟩ := newUnpad_le (K := K) himg.1 himg.2 newShape
  obtain ⟨w, hw'⟩ := Int.eq_ofNat_of_zero_le (by omega : 0 ≤ (newUnpad K img.H img.W newShape).1)
  obtain ⟨h, hh'⟩ := Int.eq_ofNat_of_zero_le (by omega : 0 ≤ (newUnpad K img.H img.W newShape).2)
  rw [hw'] at hfitW hfill hw
  rw [hh'] at hfitH hfill hh
  obtain ⟨hlinearH, hlinearW⟩ := hlinear img w h himg.1 himg.2 (by omega) (by omega)
  obtain ⟨hnearestH, hnearestW⟩ := hnearest mask w h hmask.1 hmask.2 (by omega) (by omega)
  refine ⟨(newShape.2 - w) / 2, (newShape.2 - w + 1) / 2, (newShape.1 - h) / 2,
    (newShape.1 - h + 1) / 2, ?_⟩
  rw [letterboxPair_eq ops color mask hw' hh' (by omega) (by omega)]
  constructor
  · rfl
  · rw [hw', axisPads_eq, Prod.mk.injEq]
    omega
  · rw [hh', axisPads_eq, Prod.mk.injEq]
    omega
  · omega
  · show _ + (ops.linear img w h).H + _ = _ ∧ _ + (ops.linear img w h).W + _ = _
    omega
  · show _ + (ops.nearest mask w h).H + _ = _ ∧ _ + (ops.nearest mask w h).W + _ = _
    omega
  · rw [hw', hh']
    exact slice_copyMakeBorder _ _ _ _ _ _
  · rw [hw', hh']
    exact slice_copyMakeBorder _ _ _ _ _ _
  · intro prob hprobH hprobW
    rw [hw', hh', Int.toNat_natCast, Int.toNat_natCast]
    -- The crop takes away what the border has added.
    have hcrop : probCropped prob ((newShape.2 - w) / 2) ((newShape.2 - w + 1) / 2)
        ((newShape.1 - h) / 2) ((newShape.1 - h + 1) / 2)
          = window prob ((newShape.1 - h) / 2) ((newShape.2 - w) / 2) h w :=
      slice_window (by omega) (by omega)
    refine ⟨_, ?_, rfl, hresize _ _ _ (by show 1 ≤ h; omega) (by show 1 ≤ w; omega) himg.2 himg.1⟩
    simp only [unletterboxMap, hcrop]

/-- A resizing that repeats pixels, for a run. -/
def repeatPixels (im : Img ℕ) (w h : ℕ) : Img ℕ :=
  ⟨h, w, fun y x => im.px (y * im.H / h) (x * im.W / w)⟩

/-- Three rows of 4 columns for a target of 6 rows and 5 columns: the resized image has
4 rows, since 3.75 is rounded up, and one row of padding above and below it. -/
theorem letterbox_unletterbox_flat :
    ∃ left right top bottom, FitsTogether ⟨repeatPixels, repeatPixels⟩ repeatPixels
      (Img.zeros 3 4) (Img.zeros 3 4) (6, 5)
      (letterboxPair (K := ℚ) ⟨repeatPixels, repeatPixels⟩ 114 (Img.zeros 3 4) (Img.zeros 3 4)
        (6, 5)) left right top bottom :=
  letterbox_unletterbox (fun _ _ _ _ _ _ _ => ⟨rfl, rfl⟩) (fun _ _ _ _ _ _ _ => ⟨rfl, rfl⟩)
    (fun _ _ _ _ _ _ _ => ⟨rfl, rfl⟩) 114 (by decide) (by decide) (by decide +kernel)
    (by decide +kernel)

end

end W2Net.Proofs.Letterbox
