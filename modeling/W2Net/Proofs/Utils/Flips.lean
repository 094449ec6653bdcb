import W2Net.Datasets.WakeDataset
import W2Net.Proofs.Utils.BoxCorners
import W2Net.Utils.Augment

/-!
# `W2Net.Proofs.Utils.Flips`: one mirror for image, mask and labels

The flips of `utils/augment.py` and of `WakeDataset` mirror the image at its middle
column or row. Each label format follows the same mirror, and of the masks all but the
`K × 2` arrays of points do:

* `hflipRow_hflipRow`, `vflipRow_vflipRow`, `hflipRow_vflipRow`: the label maps are
  involutions and commute.
* `labelCorners_hflipRow`, `labelCorners_vflipRow`: the corners of a flipped label are
  the mirrored corners.
* `movesPixels_fliplr`, `movesPixels_flipud`: so are the pixels of an image or a raster.
* `movesMask_hflipMask_iff`, `movesMask_vflipMask_iff`: a `K × 2` array of points has two
  dimensions and is flipped as a raster, which exchanges its columns or reverses its rows.
* `hflipInplace_shows`: the three formats of `WakeDataset`, whose angles are reduced to
  another interval, still show the same shapes.

`flips_follow_mirror_iff` is the principal result.
-/

set_option autoImplicit false

namespace W2Net.Proofs.Flips

open W2Net.Augment
open W2Net.Proofs.BoxCorners
open W2Net.Proofs.ScaledLabels (quadCorners realMath)
open W2Net.WakeDataset

/-! ### Maps of some columns -/

section
variable {α : Type}

/-- A row with column `a` mapped by `f` and column `b` by `g`. -/
def mapColumns {n : ℕ} (a b : Fin n) (f g : α → α) (row : Fin n → α) : Fin n → α :=
  fun j => if j = a then f (row a) else if j = b then g (row b) else row j

/-- A row with its even or its odd columns mapped by `f`. -/
def mapParity {n : ℕ} (r : ℕ) (f : α → α) (row : Fin n → α) : Fin n → α :=
  fun j => if j.val % 2 = r then f (row j) else row j

theorem mapColumns_twice {n : ℕ} {a b : Fin n} {f g : α → α} {row : Fin n → α} (hab : b ≠ a)
    (hf : f (f (row a)) = row a) (hg : g (g (row b)) = row b) :
    mapColumns a b f g (mapColumns a b f g row) = row := by
  funext j
  by_cases hja : j = a
  · subst hja
    simp [mapColumns, hf]
  · by_cases hjb : j = b
    · subst hjb
      simp [mapColumns, hja, hg]
    · simp [mapColumns, hja, hjb]

theorem mapColumns_comm {n : ℕ} {a c b : Fin n} {f f' g g' : α → α} {row : Fin n → α}
    (hac : a ≠ c) (hba : b ≠ a) (hbc : b ≠ c) (hg : g (g' (row b)) = g' (g (row b))) :
    mapColumns a b f g (mapColumns c b f' g' row)
      = mapColumns c b f' g' (mapColumns a b f g row) := by
  funext j
  by_cases hja : j = a
  · subst hja
    simp [mapColumns, hac, hba.symm]
  · by_cases hjb : j = b
    · subst hjb
      simp [mapColumns, hba, hbc, hg]
    · simp [mapColumns, hja, hjb, hac.symm, hbc.symm]

theorem mapParity_twice {n r : ℕ} {f : α → α} {row : Fin n → α} (hf : ∀ x, f (f x) = x) :
    mapParity r f (mapParity r f row) = row := by
  funext j
  by_cases hj : j.val % 2 = r
  · simp [mapParity, hj, hf]
  · simp [mapParity, hj]

theorem mapParity_comm {n r t : ℕ} {f g : α → α} {row : Fin n → α} (hrt : r ≠ t) :
    mapParity r f (mapParity t g row) = mapParity t g (mapParity r f row) := by
  funext j
  by_cases hj : j.val % 2 = r
  · simp [mapParity, hj, hrt]
  · simp [mapParity, hj]

end

variable {K : Type} [Field K]

/-! ### The label maps -/

section
variable [LinearOrder K] [FloorRing K]

/-- The angle of a label, if it has one, is in `[-180, 180)`. -/
def AngleInRange : (mode : BoxMode) → LabelRow K mode → Prop
  | .xywha, row => -180 ≤ row (4 : Fin 5) ∧ row (4 : Fin 5) < 180
  | .cxywha, row => -180 ≤ row (5 : Fin 6) ∧ row (5 : Fin 6) < 180
  | .xyxyxyxy, _ => True

theorem hflipRow_xywha (W : ℕ) :
    (hflipRow W .xywha : LabelRow K .xywha → LabelRow K .xywha)
      = mapColumns (0 : Fin 5) 4 ((W - 1 : K) - ·) fun a => wrap180 (180 - a) := rfl

theorem hflipRow_cxywha (W : ℕ) :
    (hflipRow W .cxywha : LabelRow K .cxywha → LabelRow K .cxywha)
      = mapColumns (1 : Fin 6) 5 ((W - 1 : K) - ·) fun a => wrap180 (180 - a) := rfl

theorem vflipRow_xywha (H : ℕ) :
    (vflipRow H .xywha : LabelRow K .xywha → LabelRow K .xywha)
      = mapColumns (1 : Fin 5) 4 ((H - 1 : K) - ·) fun a => wrap180 (-a) := rfl

theorem vflipRow_cxywha (H : ℕ) :
    (vflipRow H .cxywha : LabelRow K .cxywha → LabelRow K .cxywha)
      = mapColumns (2 : Fin 6) 5 ((H - 1 : K) - ·) fun a => wrap180 (-a) := rfl

variable [IsStrictOrderedRing K]

theorem hflipRow_hflipRow (W : ℕ) {mode : BoxMode} {row : LabelRow K mode}
    (h : AngleInRange mode row) : hflipRow W mode (hflipRow W mode row) = row := by
  cases mode with
  | xywha =>
      rw [hflipRow_xywha]
      exact mapColumns_twice (by decide) (sub_sub_cancel _ _) (wrap180_half_sub_twice h)
  | cxywha =>
      rw [hflipRow_cxywha]
      exact mapColumns_twice (by decide) (sub_sub_cancel _ _) (wrap180_half_sub_twice h)
  | xyxyxyxy => exact mapParity_twice fun _ => sub_sub_cancel _ _

theorem vflipRow_vflipRow (H : ℕ) {mode : BoxMode} {row : LabelRow K mode}
    (h : AngleInRange mode row) : vflipRow H mode (vflipRow H mode row) = row := by
  cases mode with
  | xywha =>
      rw [vflipRow_xywha]
      exact mapColumns_twice (by decide) (sub_sub_cancel _ _) (wrap180_neg_twice h)
  | cxywha =>
      rw [vflipRow_cxywha]
      exact mapColumns_twice (by decide) (sub_sub_cancel _ _) (wrap180_neg_twice h)
  | xyxyxyxy => exact mapParity_twice fun _ => sub_sub_cancel _ _

/-- The flips change different coordinates of the centre, and the angle in either order. -/
theorem hflipRow_vflipRow (W H : ℕ) (mode : BoxMode) (row : LabelRow K mode) :
    hflipRow W mode (vflipRow H mode row) = vflipRow H mode (hflipRow W mode row) := by
  cases mode with
  | xywha =>
      rw [hflipRow_xywha, vflipRow_xywha]
      exact mapColumns_comm (by decide) (by decide) (by decide) (wrap180_half_sub_neg _)
  | cxywha =>
      rw [hflipRow_cxywha, vflipRow_cxywha]
      exact mapColumns_comm (by decide) (by decide) (by decide) (wrap180_half_sub_neg _)
  | xyxyxyxy => exact mapParity_comm zero_ne_one

end

/-! ### The corners of a label -/

/-- The corners of a label. -/
def labelCorners (m : PyMath K) : (mode : BoxMode) → LabelRow K mode → Set (K × K)
  | .xywha, row => boxCorners m (rowOfLabel row)
  | .cxywha, row => boxCorners m (rowOfLabel fun j : Fin 5 => row (j.succ : Fin 6))
  | .xyxyxyxy, row => quadCorners row

theorem quadCorners_hflip (t : K) (q : QuadRow K) :
    quadCorners (fun j => if j.val % 2 = 0 then t - q j else q j)
      = mirrorX t '' quadCorners q := by
  simp [quadCorners, mirrorX, Set.image_insert_eq]

theorem quadCorners_vflip (t : K) (q : QuadRow K) :
    quadCorners (fun j => if j.val % 2 = 1 then t - q j else q j)
      = mirrorY t '' quadCorners q := by
  simp [quadCorners, mirrorY, Set.image_insert_eq]

section
variable [LinearOrder K] [FloorRing K] [IsStrictOrderedRing K]

theorem boxCorners_hflip {m : PyMath K} (hm : m.TrigLaws) (t : K) (r : RowXywha K) :
    boxCorners m { r with cx := t - r.cx, a := wrap180 (180 - r.a) }
      = mirrorX t '' boxCorners m r := by
  rw [boxCorners_eq, boxCorners_eq, mirrorX_cornersAt, hm.unitDeg_wrap180, hm.unitDeg_half_sub]
  rfl

theorem boxCorners_vflip {m : PyMath K} (hm : m.TrigLaws) (t : K) (r : RowXywha K) :
    boxCorners m { r with cy := t - r.cy, a := wrap180 (-r.a) } = mirrorY t '' boxCorners m r := by
  rw [boxCorners_eq, boxCorners_eq, mirrorY_cornersAt, hm.unitDeg_wrap180, hm.unitDeg_neg]
  rfl

theorem labelCorners_hflipRow {m : PyMath K} (hm : m.TrigLaws) (W : ℕ) (mode : BoxMode)
    (row : LabelRow K mode) :
    labelCorners m mode (hflipRow W mode row)
      = mirrorX ((W : K) - 1) '' labelCorners m mode row := by
  cases mode with
  | xywha => exact boxCorners_hflip hm _ (rowOfLabel row)
  | cxywha => exact boxCorners_hflip hm _ (rowOfLabel fun j : Fin 5 => row (j.succ : Fin 6))
  | xyxyxyxy => exact quadCorners_hflip _ row

theorem labelCorners_vflipRow {m : PyMath K} (hm : m.TrigLaws) (H : ℕ) (mode : BoxMode)
    (row : LabelRow K mode) :
    labelCorners m mode (vflipRow H mode row)
      = mirrorY ((H : K) - 1) '' labelCorners m mode row := by
  cases mode with
  | xywha => exact boxCorners_vflip hm _ (rowOfLabel row)
  | cxywha => exact boxCorners_vflip hm _ (rowOfLabel fun j : Fin 5 => row (j.succ : Fin 6))
  | xyxyxyxy => exact quadCorners_vflip _ row

end

/-! ### The pixels of an image -/

section
variable {P : Type}

/-- Each pixel of `a` is in `b` where `f` takes it. The pixel in row `y` and column `x`
is the point `(x, y)`. -/
def MovesPixels (f : K × K → K × K) (a b : Img P) : Prop :=
  (b.H = a.H ∧ b.W = a.W) ∧ ∀ y x, y < a.H → x < a.W →
    ∃ y' x', (y' < a.H ∧ x' < a.W) ∧ ((x' : K), (y' : K)) = f (x, y) ∧ b.px y' x' = a.px y x

theorem movesPixels_fliplr (im : Img P) : MovesPixels (mirrorX ((im.W : K) - 1)) im im.fliplr := by
  refine ⟨⟨rfl, rfl⟩, ?_⟩
  intro y x hy hx
  refine ⟨y, im.W - 1 - x, ⟨hy, by omega⟩, ?_, ?_⟩
  · rw [mirrorX, Nat.sub_sub, Nat.cast_sub (by omega), Nat.cast_add, Nat.cast_one, sub_sub]
  · show im.px y (im.W - 1 - (im.W - 1 - x)) = im.px y x
    rw [Nat.sub_sub_self (by omega)]

theorem movesPixels_flipud (im : Img P) : MovesPixels (mirrorY ((im.H : K) - 1)) im im.flipud := by
  refine ⟨⟨rfl, rfl⟩, ?_⟩
  intro y x hy hx
  refine ⟨im.H - 1 - y, x, ⟨by omega, hx⟩, ?_, ?_⟩
  · rw [mirrorY, Nat.sub_sub, Nat.cast_sub (by omega), Nat.cast_add, Nat.cast_one, sub_sub]
  · show im.px (im.H - 1 - (im.H - 1 - y)) x = im.px y x
    rw [Nat.sub_sub_self (by omega)]

/-- A mask after the map: the pixels of a raster, or each point. -/
def MovesMask (f : K × K → K × K) : SegMask K → SegMask K → Prop
  | .raster a, .raster b => MovesPixels f a b
  | .pointRows pts, .pointRows pts' => pts' = pts.map f
  | .points pts, .points pts' => pts' = pts.map f
  | _, _ => False

/-- A raster has the size of the image. -/
def MaskFits (im : Img P) : SegMask K → Prop
  | .raster a => a.H = im.H ∧ a.W = im.W
  | _ => True

/-- The points of a `K × 2` array are where exchanged columns do no harm. -/
def CentredRows (W : ℕ) : SegMask K → Prop
  | .pointRows pts => ∀ p ∈ pts, p = (((W : K) - 1) / 2, ((W : K) - 1) / 2)
  | _ => True

/-- A `K × 2` array read backwards is its own mirror image. -/
def SymmetricRows (H : ℕ) : SegMask K → Prop
  | .pointRows pts => pts.reverse = pts.map (mirrorY ((H : K) - 1))
  | _ => True

/-- The parts of `s'` are the parts of `s`, moved by `f`. -/
structure Follows (m : PyMath K) (f : K × K → K × K) {mode : BoxMode} (s s' : Sample K P mode) :
    Prop where
  img : MovesPixels f s.img s'.img
  labels : s'.labels.map (labelCorners m mode) = s.labels.map fun row => f '' labelCorners m mode row
  segMask : Option.Rel (MovesMask f) s.segMask s'.segMask

/-- A flip that moves the image and the labels follows when it moves the mask. -/
theorem follows_iff {m : PyMath K} {f : K × K → K × K} {mode : BoxMode} {s : Sample K P mode}
    {im : Img P} {row' : LabelRow K mode → LabelRow K mode} {mask' : SegMask K → SegMask K}
    (himg : MovesPixels f s.img im)
    (hrow : ∀ row, labelCorners m mode (row' row) = f '' labelCorners m mode row) :
    Follows m f s ⟨im, s.labels.map row', s.segMask.map mask'⟩ ↔
      ∀ mask ∈ s.segMask, MovesMask f mask (mask' mask) := by
  constructor
  · intro h mask hmask
    -- A sample without a mask has nothing to follow.
    have hrel : Option.Rel (MovesMask f) s.segMask (s.segMask.map mask') := h.segMask
    rw [Option.mem_def.mp hmask] at hrel
    cases hrel with
    | some hmoves => exact hmoves
  · intro hmask
    refine ⟨himg, ?_, ?_⟩
    · show (s.labels.map row').map (labelCorners m mode) = _
      rw [List.map_map]
      exact List.map_congr_left fun row _ => hrow row
    · show Option.Rel (MovesMask f) s.segMask (s.segMask.map mask')
      cases hseg : s.segMask with
      | none => exact Option.Rel.none
      | some mask => exact Option.Rel.some (hmask mask hseg)

omit [Field K] in
/-- A call returns the one sample that its triple shows. -/
theorem exists_triple_iff {mode : BoxMode} {s : Sample K P mode} {q : Sample K P mode → Prop} :
    (∃ s', s.triple = s'.triple ∧ q s') ↔ q s := by
  constructor
  · rintro ⟨s', heq, hq⟩
    have hsame : s = s' := by
      cases s
      cases s'
      cases heq
      rfl
    exact hsame ▸ hq
  · intro hq
    exact ⟨s, rfl, hq⟩

theorem movesMask_vflipMask_iff {im : Img P} {mask : SegMask K} (h : MaskFits im mask) :
    MovesMask (mirrorY ((im.H : K) - 1)) mask (vflipMask im.H mask) ↔
      SymmetricRows im.H mask := by
  cases mask with
  | raster a =>
      refine iff_of_true ?_ trivial
      rw [← h.1]
      exact movesPixels_flipud a
  | pointRows pts => exact Iff.rfl
  | points pts => exact iff_of_true rfl trivial

variable [LinearOrder K] [IsStrictOrderedRing K]

theorem swap_eq_mirrorX_iff {t : K} {p : K × K} :
    p.swap = mirrorX t p ↔ p = (t / 2, t / 2) := by
  rw [mirrorX, Prod.ext_iff, Prod.ext_iff]
  constructor
  · rintro ⟨hx, hy⟩
    have hx : p.2 = t - p.1 := hx
    have hy : p.1 = p.2 := hy
    exact ⟨by show p.1 = t / 2; linarith, by show p.2 = t / 2; linarith⟩
  · rintro ⟨hx, hy⟩
    have hx : p.1 = t / 2 := hx
    have hy : p.2 = t / 2 := hy
    exact ⟨by show p.2 = t - p.1; linarith, by show p.1 = p.2; linarith⟩

/-- `np.fliplr` moves a raster, and a `K × 2` array only by chance. -/
theorem movesMask_hflipMask_iff {im : Img P} {mask : SegMask K} (h : MaskFits im mask) :
    MovesMask (mirrorX ((im.W : K) - 1)) mask (hflipMask im.W mask) ↔
      CentredRows im.W mask := by
  cases mask with
  | raster a =>
      refine iff_of_true ?_ trivial
      rw [← h.2]
      exact movesPixels_fliplr a
  | pointRows pts =>
      show pts.map Prod.swap = pts.map (mirrorX ((im.W : K) - 1)) ↔ ∀ p ∈ pts, _
      rw [List.map_inj_left]
      exact forall₂_congr fun p _ => swap_eq_mirrorX_iff
  | points pts => exact iff_of_true rfl trivial

variable [FloorRing K]

/-- `HorizontalFlip` follows the mirror unless the mask is a `K × 2` array. -/
theorem horizontalFlipCall_follows_iff {m : PyMath K} (hm : m.TrigLaws) {mode : BoxMode}
    {s : Sample K P mode} (hmask : ∀ mask ∈ s.segMask, MaskFits s.img mask) {p : K}
    {draws : Draws K} (hdraw : draws.head < p) :
    (∃ s' : Sample K P mode, (horizontalFlipCall p s draws).1 = s'.triple ∧
        Follows m (mirrorX ((s.img.W : K) - 1)) s s') ↔
      ∀ mask ∈ s.segMask, CentredRows s.img.W mask := by
  have hcall : (horizontalFlipCall p s draws).1 = Sample.triple ⟨s.img.fliplr,
      s.labels.map (hflipRow s.img.W mode), s.segMask.map (hflipMask s.img.W)⟩ := by
    rw [horizontalFlipCall, if_neg (not_le.mpr hdraw)]
    rfl
  rw [hcall, exists_triple_iff, follows_iff (movesPixels_fliplr s.img)
    (labelCorners_hflipRow hm s.img.W mode)]
  exact forall₂_congr fun mask h => movesMask_hflipMask_iff (hmask mask h)

theorem verticalFlipCall_follows_iff {m : PyMath K} (hm : m.TrigLaws) {mode : BoxMode}
    {s : Sample K P mode} (hmask : ∀ mask ∈ s.segMask, MaskFits s.img mask) {p : K}
    {draws : Draws K} (hdraw : draws.head < p) :
    (∃ s' : Sample K P mode, (verticalFlipCall p s draws).1 = s'.triple ∧
        Follows m (mirrorY ((s.img.H : K) - 1)) s s') ↔
      ∀ mask ∈ s.segMask, SymmetricRows s.img.H mask := by
  have hcall : (verticalFlipCall p s draws).1 = Sample.triple ⟨s.img.flipud,
      s.labels.map (vflipRow s.img.H mode), s.segMask.map (vflipMask s.img.H)⟩ := by
    rw [verticalFlipCall, if_neg (not_le.mpr hdraw)]
    rfl
  rw [hcall, exists_triple_iff, follows_iff (movesPixels_flipud s.img)
    (labelCorners_vflipRow hm s.img.H mode)]
  exact forall₂_congr fun mask h => movesMask_vflipMask_iff (hmask mask h)

end

/-! ### The wake dataset -/

/-- The cosine and the sine of an angle in the unit. -/
def direction (m : PyMath K) : AngleUnit → K → K × K
  | .radian => m.unitRad
  | .degree => m.unitDeg

/-- The corners of a row `[cx, cy, w, h, angle]`. -/
def wakeCorners (m : PyMath K) (unit : AngleUnit) (r : RowXywha K) : Set (K × K) :=
  cornersAt (r.cx, r.cy) (direction m unit r.a) (r.w / 2, r.h / 2)

/-- The loader's corners of a box in radians. -/
theorem quadCorners_rboxToPoly (m : PyMath K) (r : RowXywha K) :
    quadCorners (rboxToPoly m r) = wakeCorners m .radian r := by
  let q := rboxToPoly m r
  let o := cornerOffset (m.cos r.a) (m.sin r.a) (r.w / 2)
  obtain ⟨⟨h0, h1⟩, h2, h3⟩ : ((q 0, q 1) = (r.cx, r.cy) + -o (r.h / 2) ∧
      (q 2, q 3) = (r.cx, r.cy) + o (-(r.h / 2))) ∧
      (q 4, q 5) = (r.cx, r.cy) + o (r.h / 2) ∧ (q 6, q 7) = (r.cx, r.cy) + -o (-(r.h / 2)) := by
    refine ⟨⟨?_, ?_⟩, ?_, ?_⟩ <;> apply Prod.ext <;>
      simp [q, o, rboxToPoly, cornerOffset] <;> ring
  show {(q 0, q 1), (q 2, q 3), (q 4, q 5), (q 6, q 7)} = _
  rw [h0, h1, h2, h3, wakeCorners, cornersAt, cornerOffsets, Set.image_insert_eq,
    Set.image_insert_eq, Set.image_insert_eq, Set.image_singleton]
  ext p
  simp only [Set.mem_insert_iff, Set.mem_singleton_iff]
  show _ ↔ p = (r.cx, r.cy) + o (r.h / 2) ∨ p = (r.cx, r.cy) + o (-(r.h / 2)) ∨
    p = (r.cx, r.cy) + -o (r.h / 2) ∨ p = (r.cx, r.cy) + -o (-(r.h / 2))
  tauto

theorem isLeast_of_four {L : Type} [LinearOrder L] (a b c d : L) :
    IsLeast {a, b, c, d} (min (min a b) (min c d)) := by
  rw [min_assoc]
  exact (isLeast_singleton.insert c |>.insert b |>.insert a)

theorem isGreatest_of_four {L : Type} [LinearOrder L] (a b c d : L) :
    IsGreatest {a, b, c, d} (max (max a b) (max c d)) := by
  rw [max_assoc]
  exact (isGreatest_singleton.insert c |>.insert b |>.insert a)

section
variable [LinearOrder K]

/-- The upright box around a set of points, each side of which touches a point. -/
structure Encloses (b : Aabb K) (points : Set (K × K)) : Prop where
  x1 : IsLeast (Prod.fst '' points) b.x1
  y1 : IsLeast (Prod.snd '' points) b.y1
  x2 : IsGreatest (Prod.fst '' points) b.x2
  y2 : IsGreatest (Prod.snd '' points) b.y2

omit [Field K] in
theorem encloses_polyToAabb (q : QuadRow K) : Encloses (polyToAabb q) (quadCorners q) := by
  have hfst : Prod.fst '' quadCorners q = {q 0, q 2, q 4, q 6} := by
    simp [quadCorners, Set.image_insert_eq]
  have hsnd : Prod.snd '' quadCorners q = {q 1, q 3, q 5, q 7} := by
    simp [quadCorners, Set.image_insert_eq]
  exact {
    x1 := hfst ▸ isLeast_of_four _ _ _ _
    y1 := hsnd ▸ isLeast_of_four _ _ _ _
    x2 := hfst ▸ isGreatest_of_four _ _ _ _
    y2 := hsnd ▸ isGreatest_of_four _ _ _ _ }

/-- The boxes show the shapes, in their format. -/
def Shows (m : PyMath K) (unit : AngleUnit) (shapes : List (Set (K × K))) : Boxes K → Prop
  | .rbox rows => rows.map (wakeCorners m unit) = shapes
  | .poly rows => rows.map quadCorners = shapes
  | .aabb rows => List.Forall₂ Encloses rows shapes

/-- The loader's boxes show the same shapes in the three formats. -/
theorem shows_loaded (m : PyMath K) (rows : List (RowXywha K)) :
    let shapes := rows.map (wakeCorners m .radian)
    Shows m .radian shapes (.rbox rows) ∧ Shows m .radian shapes (.poly (rows.map (rboxToPoly m))) ∧
      Shows m .radian shapes (.aabb (rows.map fun r => polyToAabb (rboxToPoly m r))) := by
  intro shapes
  refine ⟨rfl, ?_, ?_⟩
  · show (rows.map (rboxToPoly m)).map quadCorners = rows.map _
    rw [List.map_map]
    exact List.map_congr_left fun r _ => quadCorners_rboxToPoly m r
  · show List.Forall₂ Encloses (rows.map _) (rows.map _)
    rw [List.forall₂_map_left_iff, List.forall₂_map_right_iff, List.forall₂_same]
    intro r _
    rw [← quadCorners_rboxToPoly]
    exact encloses_polyToAabb _

variable [IsStrictOrderedRing K]

theorem encloses_hflipAabb {b : Aabb K} {points : Set (K × K)} (h : Encloses b points) (W : ℕ) :
    Encloses (hflipAabb W b) (mirrorX ((W : K) - 1) '' points) := by
  -- The mirror exchanges the least and the greatest column, and keeps the rows.
  have hanti : Antitone fun x : K => ((W : K) - 1) - x := fun _ _ hxy => sub_le_sub_left hxy _
  have hfst : Prod.fst '' (mirrorX ((W : K) - 1) '' points)
      = (fun x => ((W : K) - 1) - x) '' (Prod.fst '' points) := by
    rw [Set.image_image, Set.image_image]
    rfl
  have hsnd : Prod.snd '' (mirrorX ((W : K) - 1) '' points) = Prod.snd '' points := by
    rw [Set.image_image]
    rfl
  exact {
    x1 := hfst ▸ hanti.map_isGreatest h.x2
    y1 := hsnd ▸ h.y1
    x2 := hfst ▸ hanti.map_isLeast h.x1
    y2 := hsnd ▸ h.y2 }

variable [FloorRing K]

/-- The angle is only moved by full turns. -/
theorem direction_normalizeAngle {m : PyMath K} (hm : m.TrigLaws) (hpi : 0 < m.pi)
    (unit : AngleUnit) (a : K) :
    direction m unit (normalizeAngle m a unit) = direction m unit a := by
  cases unit with
  | radian =>
      obtain ⟨-, k, hk⟩ := wrapLoops_spec hpi a
      show m.unitRad (wrapLoops m.pi a) = m.unitRad a
      rw [hk, hm.unitRad_add_turns]
  | degree =>
      -- A turn of the loops is `2 * 180`, and one of `unitDeg_add_turns` is 360.
      obtain ⟨-, k, hk⟩ := wrapLoops_spec (show (0 : K) < 180 by norm_num) a
      show m.unitDeg (wrapLoops 180 a) = m.unitDeg a
      rw [hk, ← hm.unitDeg_add_turns a k]
      congr 2
      norm_num

theorem wakeCorners_hflipRbox {m : PyMath K} (hm : m.TrigLaws) (hpi : 0 < m.pi)
    (unit : AngleUnit) (W : ℕ) (r : RowXywha K) :
    wakeCorners m unit (hflipRbox m unit W r)
      = mirrorX ((W : K) - 1) '' wakeCorners m unit r := by
  have hhalf : direction m unit (unit.half m - r.a)
      = (-(direction m unit r.a).1, (direction m unit r.a).2) := by
    cases unit with
    | radian => exact hm.unitRad_pi_sub r.a
    | degree => exact hm.unitDeg_half_sub r.a
  rw [wakeCorners, wakeCorners, mirrorX_cornersAt, ← hhalf,
    ← direction_normalizeAngle hm hpi unit (unit.half m - r.a)]
  rfl

/-- The flip of the dataset, in each format. -/
theorem hflipInplace_shows {P : Type} {m : PyMath K} (hm : m.TrigLaws) (hpi : 0 < m.pi)
    (unit : AngleUnit) (image : Img P) {shapes : List (Set (K × K))} {boxes : Boxes K}
    (h : Shows m unit shapes boxes) :
    Shows m unit (shapes.map (mirrorX ((image.W : K) - 1) '' ·))
      (hflipInplace m unit image boxes).2 := by
  cases boxes with
  | rbox rows =>
      show (rows.map _).map _ = _
      rw [← show rows.map (wakeCorners m unit) = shapes from h, List.map_map, List.map_map]
      exact List.map_congr_left fun r _ => wakeCorners_hflipRbox hm hpi unit image.W r
  | poly rows =>
      show (rows.map _).map _ = _
      rw [← show rows.map quadCorners = shapes from h, List.map_map, List.map_map]
      exact List.map_congr_left fun q _ => quadCorners_hflip _ q
  | aabb rows =>
      show List.Forall₂ Encloses (rows.map _) (shapes.map _)
      -- An axis-parallel box encloses its shape only, so the relation is carried row by row.
      rw [List.forall₂_map_left_iff, List.forall₂_map_right_iff]
      exact h.imp fun b points hb => encloses_hflipAabb hb image.W

theorem map_map_self {α : Type} {f : α → α} {l : List α} (h : ∀ x ∈ l, f (f x) = x) :
    (l.map f).map f = l := by
  rw [List.map_map]
  exact (List.map_congr_left h).trans (List.map_id l)

/-- The label maps are involutions that commute, and the flip of `WakeDataset` moves the
shapes of each return format by the mirror. The two augmentations move the image, the labels
and the mask by it as well, except a mask that is a `K × 2` array of points, which they flip
as a raster. -/
theorem flips_follow_mirror_iff {m : PyMath K} (hm : m.TrigLaws) (hpi : 0 < m.pi) :
    (∀ (W H : ℕ) (mode : BoxMode) (labels : List (LabelRow K mode)),
      (∀ row ∈ labels, AngleInRange mode row) →
        (labels.map (hflipRow W mode)).map (hflipRow W mode) = labels ∧
        (labels.map (vflipRow H mode)).map (vflipRow H mode) = labels ∧
        (labels.map (vflipRow H mode)).map (hflipRow W mode)
          = (labels.map (hflipRow W mode)).map (vflipRow H mode)) ∧
    (∀ (P : Type) (mode : BoxMode) (s : Sample K P mode) (p : K) (draws : Draws K),
      (∀ mask ∈ s.segMask, MaskFits s.img mask) → draws.head < p →
        ((∃ s' : Sample K P mode, (horizontalFlipCall p s draws).1 = s'.triple ∧
            Follows m (mirrorX ((s.img.W : K) - 1)) s s') ↔
          ∀ mask ∈ s.segMask, CentredRows s.img.W mask) ∧
        ((∃ s' : Sample K P mode, (verticalFlipCall p s draws).1 = s'.triple ∧
            Follows m (mirrorY ((s.img.H : K) - 1)) s s') ↔
          ∀ mask ∈ s.segMask, SymmetricRows s.img.H mask)) ∧
    ∀ (P : Type) (unit : AngleUnit) (image : Img P) (shapes : List (Set (K × K)))
      (boxes : Boxes K), Shows m unit shapes boxes →
        MovesPixels (mirrorX ((image.W : K) - 1)) image (hflipInplace m unit image boxes).1 ∧
        Shows m unit (shapes.map (mirrorX ((image.W : K) - 1) '' ·))
          (hflipInplace m unit image boxes).2 := by
  refine ⟨?_, ?_, ?_⟩
  · intro W H mode labels hrange
    refine ⟨?_, ?_, ?_⟩
    · -- A second flip brings an angle back that is in its range.
      exact map_map_self fun row hrow => hflipRow_hflipRow W (hrange row hrow)
    · exact map_map_self fun row hrow => vflipRow_vflipRow H (hrange row hrow)
    · rw [List.map_map, List.map_map]
      exact List.map_congr_left fun row _ => hflipRow_vflipRow W H mode row
  · intro P mode s p draws hmask hdraw
    exact ⟨horizontalFlipCall_follows_iff hm hmask hdraw,
      verticalFlipCall_follows_iff hm hmask hdraw⟩
  · intro P unit image shapes boxes h
    refine ⟨?_, hflipInplace_shows hm hpi unit image h⟩
    cases boxes <;> exact movesPixels_fliplr image

end

/-! ### An image of 100 columns -/

/-- A box that is turned by 30 degrees. -/
noncomputable def tiltedRow : LabelRow ℝ .xywha :=
  labelOfRow ⟨10, 20, 4, 2, 30⟩

/-- An image of 50 rows and 100 columns. -/
def wideImage : Img ℕ := ⟨50, 100, fun y x => y + x⟩

/-- The draws that are all 0. -/
def zeroDraws : Draws ℝ := ⟨fun _ => 0, fun _ => le_rfl, fun _ => one_pos⟩

/-- The box flipped back and forth, its sample without a mask, and its shape in the dataset, also
as the loader's upright box around it. -/
theorem flips_follow_mirror_iff_tiltedRow :
    ([tiltedRow].map (hflipRow 100 .xywha)).map (hflipRow 100 .xywha) = [tiltedRow] ∧
      ((∃ s' : Sample ℝ ℕ .xywha,
          (horizontalFlipCall 1 ⟨wideImage, [tiltedRow], none⟩ zeroDraws).1 = s'.triple ∧
          Follows realMath (mirrorX ((100 : ℕ) - 1)) ⟨wideImage, [tiltedRow], none⟩ s') ↔
        ∀ mask ∈ (none : Option (SegMask ℝ)), CentredRows 100 mask) ∧
      Shows realMath .degree
        ([wakeCorners realMath .degree ⟨10, 20, 4, 2, 30⟩].map (mirrorX (((100 : ℕ) : ℝ) - 1) '' ·))
        (hflipInplace realMath .degree wideImage (.rbox [⟨10, 20, 4, 2, 30⟩])).2 ∧
      Shows realMath .radian
        ([wakeCorners realMath .radian ⟨10, 20, 4, 2, 1⟩].map (mirrorX (((100 : ℕ) : ℝ) - 1) '' ·))
        (hflipInplace realMath .radian wideImage
          (.aabb [polyToAabb (rboxToPoly realMath ⟨10, 20, 4, 2, 1⟩)])).2 := by
  obtain ⟨hmaps, hcalls, hwake⟩ := flips_follow_mirror_iff realMath_trigLaws Real.pi_pos
  refine ⟨?_, ?_, ?_, ?_⟩
  · refine (hmaps 100 50 .xywha [tiltedRow] ?_).1
    intro row hrow
    rw [List.mem_singleton.mp hrow]
    show (-180 : ℝ) ≤ 30 ∧ (30 : ℝ) < 180
    norm_num
  · exact (hcalls ℕ .xywha ⟨wideImage, [tiltedRow], none⟩ 1 zeroDraws (by simp) one_pos).1
  · exact (hwake ℕ .degree wideImage _ (.rbox [⟨10, 20, 4, 2, 30⟩]) rfl).2
  · have hloaded := (shows_loaded realMath [⟨10, 20, 4, 2, 1⟩]).2.2
    exact (hwake ℕ .radian wideImage _ _ hloaded).2

/-- A sample with the one point `(10, 20)` as a mask of one row. -/
def pointSample : Sample ℝ ℕ .xywha := ⟨wideImage, [], some (.pointRows [(10, 20)])⟩

/-- `HorizontalFlip` turns the point into `(20, 10)` instead of `(89, 20)`, and `VerticalFlip`
leaves it where it is. -/
theorem pointRows_not_mirrored :
    (¬∃ s' : Sample ℝ ℕ .xywha,
        (horizontalFlipCall 1 pointSample zeroDraws).1 = s'.triple ∧
        Follows realMath (mirrorX ((pointSample.img.W : ℝ) - 1)) pointSample s') ∧
      ¬∃ s' : Sample ℝ ℕ .xywha,
        (verticalFlipCall 1 pointSample zeroDraws).1 = s'.triple ∧
        Follows realMath (mirrorY ((pointSample.img.H : ℝ) - 1)) pointSample s' := by
  have hfits : ∀ mask ∈ pointSample.segMask, MaskFits pointSample.img mask := by
    intro mask hmask
    cases hmask
    trivial
  constructor
  · rw [horizontalFlipCall_follows_iff realMath_trigLaws hfits one_pos]
    intro h
    have hpoint : ((10, 20) : ℝ × ℝ) = _ := h _ rfl (10, 20) List.mem_cons_self
    rw [Prod.mk.injEq] at hpoint
    linarith
  · rw [verticalFlipCall_follows_iff realMath_trigLaws hfits one_pos]
    intro h
    have hpoint : [((10, 20) : ℝ × ℝ)] = [mirrorY (((50 : ℕ) : ℝ) - 1) (10, 20)] := h _ rfl
    simp only [mirrorY, List.cons.injEq, Prod.mk.injEq] at hpoint
    norm_num at hpoint

end W2Net.Proofs.Flips
