import Mathlib.Data.Fin.VecNotation
import W2Net.Datasets.Collater
import W2Net.Models.Losses
import W2Net.Proofs.Utils.Rescale

/-!
# `W2Net.Proofs.Datasets.Collater`: padding and dropping the padding

The collater pads the boxes of an image with rows of -1, and the loss drops the
rows whose class is -1 (`dropPadded_padBoxes`). The canvas has room for every
image of the batch (`le_maxSize`), and a mask is resized to the size of its own
resized image, so both cover the same part of their canvases (`Placed`).

`call_holds` follows one sample through both passes over the batch.
-/

set_option autoImplicit false

namespace W2Net.Proofs.Collater

open W2Net.Collater
open W2Net.Letterbox (ResizeOps)
open W2Net.Losses (dropPadded)
open W2Net.Proofs.Rescale

variable {P Q K : Type} [Field K] [LinearOrder K]

/-! ### The boxes -/

theorem dropPadded_append (rows rows' : List (Fin 6 → K)) :
    dropPadded (rows ++ rows') = dropPadded rows ++ dropPadded rows' := List.filter_append _ _

/-- Dropping the padding restores rows with a class. -/
theorem dropPadded_padBoxes (maxNumBoxes : ℕ) {rows : List (Fin 6 → K)}
    (h : ∀ row ∈ rows, row 5 ≠ -1) : dropPadded (padBoxes maxNumBoxes rows) = rows := by
  have hrows : dropPadded rows = rows := by
    rw [dropPadded, List.filter_eq_self]
    intro row hrow
    exact decide_eq_true (h row hrow)
  have hpad : ∀ k, dropPadded (List.replicate k fun _ => (-1 : K)) = [] := by
    intro k
    rw [dropPadded, List.filter_eq_nil_iff]
    intro row hrow
    rw [List.eq_of_mem_replicate hrow]
    simp
  rw [padBoxes, dropPadded_append, hrows, hpad, List.append_nil]

omit [LinearOrder K] in
/-- The scale changes the first four columns only. -/
theorem scaleBoxes_class {s : ImScale K} {boxes : List (Fin 6 → K)}
    (h : ∀ row ∈ boxes, row 5 ≠ -1) : ∀ row ∈ scaleBoxes s boxes, row 5 ≠ -1 := by
  intro row hrow
  obtain ⟨row', hrow', rfl⟩ := List.mem_map.mp hrow
  exact h row' hrow'

/-! ### The canvas -/

/-- The image is at the top left of the canvas, with the background elsewhere. -/
structure Placed (canvas im : Img Q) (background : Q) : Prop where
  rows : im.H ≤ canvas.H
  columns : im.W ≤ canvas.W
  inside : ∀ y x, y < im.H → x < im.W → canvas.px y x = im.px y x
  outside : ∀ y x, ¬(y < im.H ∧ x < im.W) → canvas.px y x = background

theorem placed_paste {H W : ℕ} {im : Img Q} (background : Q) (hH : im.H ≤ H) (hW : im.W ≤ W) :
    Placed ((Img.full H W background).paste im) im background where
  rows := hH
  columns := hW
  inside _ _ hy hx := if_pos ⟨hy, hx⟩
  outside _ _ h := if_neg h

theorem maxSizeStep_le (m : ℤ × ℤ) (hw : ℕ × ℕ) :
    (m.1 ≤ (maxSizeStep m hw).1 ∧ m.2 ≤ (maxSizeStep m hw).2) ∧
      (hw.2 : ℤ) ≤ (maxSizeStep m hw).1 ∧ (hw.1 : ℤ) ≤ (maxSizeStep m hw).2 := by
  simp only [maxSizeStep]
  split <;> split <;> omega

theorem le_foldl_maxSizeStep (sizes : List (ℕ × ℕ)) (m : ℤ × ℤ) :
    (m.1 ≤ (sizes.foldl maxSizeStep m).1 ∧ m.2 ≤ (sizes.foldl maxSizeStep m).2) ∧
      ∀ hw ∈ sizes, (hw.2 : ℤ) ≤ (sizes.foldl maxSizeStep m).1 ∧
        (hw.1 : ℤ) ≤ (sizes.foldl maxSizeStep m).2 := by
  induction sizes generalizing m with
  | nil => exact ⟨⟨le_refl _, le_refl _⟩, fun hw hhw => nomatch hhw⟩
  | cons hw sizes ih =>
      obtain ⟨hm, hhw⟩ := maxSizeStep_le m hw
      obtain ⟨ihm, ihs⟩ := ih (maxSizeStep m hw)
      refine ⟨⟨hm.1.trans ihm.1, hm.2.trans ihm.2⟩, fun hw' hhw' => ?_⟩
      rcases List.mem_cons.mp hhw' with rfl | hmem
      · exact ⟨hhw.1.trans ihm.1, hhw.2.trans ihm.2⟩
      · exact ihs hw' hmem

/-- The maxima bound every size of the batch. -/
theorem le_maxSize {sizes : List (ℕ × ℕ)} {hw : ℕ × ℕ} (h : hw ∈ sizes) :
    (hw.2 : ℤ) ≤ (maxSize sizes).1 ∧ (hw.1 : ℤ) ≤ (maxSize sizes).2 :=
  (le_foldl_maxSizeStep sizes (-1, -1)).2 hw h

/-! ### One sample -/

section
variable [FloorRing K] {cfg : Settings} {ops : Ops P Q} {scale : ℤ} {H W maxNumBoxes : ℕ}
  {hasMask : Bool} {sample : Sample P K 6} {im : Img P} {s : ImScale K}

/-- The row of a sample in the three arrays, for the resized image `im` and its
scale `s`. -/
structure Collated (ops : Ops P Q) (hasMask : Bool) (sample : Sample P K 6) (im : Img P)
    (s : ImScale K) (row : Img Q × List (Fin 6 → K) × Img ℕ) : Prop where
  boxes : dropPadded row.2.1 = sample.boxes.map s.mulFirst4
  image : Placed row.1 (im.map ops.transform) ops.zero
  mask : hasMask = true → ∃ mask resized, sample.mask = some mask ∧
    resized = ops.resize.nearest mask im.W im.H ∧ resized.H = im.H ∧ resized.W = im.W ∧
      Placed row.2.2 resized 0

theorem fillSample_collated (hsized : ops.resize.Sized)
    (hcls : ∀ row ∈ sample.boxes, row 5 ≠ -1) (hmask : hasMask = true → sample.mask.isSome)
    (hres : rescale cfg ops scale sample.image = .ok (im, s)) (hH : im.H ≤ H) (hW : im.W ≤ W)
    {row : Img Q × List (Fin 6 → K) × Img ℕ}
    (h : fillSample cfg ops scale H W maxNumBoxes hasMask sample = .ok row) :
    Collated ops hasMask sample im s row ∧ (row.1.H = H ∧ row.1.W = W) ∧
      row.2.2.H = H ∧ row.2.2.W = W := by
  have hboxes := dropPadded_padBoxes maxNumBoxes (scaleBoxes_class (s := s) hcls)
  unfold fillSample at h
  rw [hres, ok_bind] at h
  cases hasMask with
  | false =>
      cases h
      exact ⟨⟨hboxes, placed_paste ops.zero hH hW, fun hm => nomatch hm⟩, ⟨rfl, rfl⟩, rfl, rfl⟩
  | true =>
      cases hm : sample.mask with
      | none =>
          have hsome := hmask rfl
          rw [hm] at hsome
          cases hsome
      | some mask =>
          rw [hm] at h
          obtain ⟨resized, hresize, h⟩ := bind_eq_ok h
          -- A mask is resized to its image, so it is pasted where the image is.
          unfold resizeMask at hresize
          split at hresize
          · cases hresize
          · cases hresize
            cases h
            obtain ⟨hh, hw⟩ := hsized.nearest mask im.W im.H
            refine ⟨⟨hboxes, placed_paste ops.zero hH hW, fun _ => ?_⟩, ⟨rfl, rfl⟩, rfl, rfl⟩
            exact ⟨mask, _, hm, rfl, hh, hw, placed_paste 0 (hh.le.trans hH) (hw.le.trans hW)⟩

end

/-! ### The batch -/

section
variable [FloorRing K] {cfg : Settings} {ops : Ops P Q} {ind : ℕ} {batch : List (Sample P K 6)}

/-- All samples have a mask. -/
def hasMask (batch : List (Sample P K 6)) : Bool := batch.all fun sample => sample.mask.isSome

/-- The sizes that the first pass collects. -/
def sizes (first : List (Img P × ImScale K)) : List (ℕ × ℕ) := first.map fun r => (r.1.H, r.1.W)

/-- The second pass. -/
def fillAll (cfg : Settings) (ops : Ops P Q) (scale : ℤ) (first : List (Img P × ImScale K))
    (batch : List (Sample P K 6)) : PyM (List (Img Q × List (Fin 6 → K) × Img ℕ)) :=
  batch.mapM (fillSample cfg ops scale (maxSize (sizes first)).2.toNat
    (maxSize (sizes first)).1.toNat
    ((batch.map fun sample => sample.boxes.length).foldl max 0) (hasMask batch))

/-- `call` by its two passes. -/
theorem call_eq {scale : ℤ} {first : List (Img P × ImScale K)}
    (hind : cfg.scales[ind]? = some scale)
    (hfirst : batch.mapM (fun sample => rescale cfg ops scale sample.image) = .ok first) :
    call cfg ops ind batch
      = if (maxSize (sizes first)).1 < 0 ∨ (maxSize (sizes first)).2 < 0 then .error .runtimeError
        else (fillAll cfg ops scale first batch).map fun rows =>
          { image := rows.map fun r => r.1
            boxes := rows.map fun r => r.2.1
            mask := if hasMask batch then some (rows.map fun r => r.2.2) else none } := by
  unfold call
  rw [getOrIndexError_eq_ok.mpr hind, ok_bind, hfirst, ok_bind]
  rfl

/-- The batch `b` holds every sample at its place. -/
def Holds (cfg : Settings) (ops : Ops P Q) (ind : ℕ) (batch : List (Sample P K 6))
    (b : Batch Q K 6) : Prop :=
  ∃ (scale : ℤ) (H W : ℕ), cfg.scales[ind]? = some scale ∧
    ∀ (i : ℕ) (sample : Sample P K 6), batch[i]? = some sample → ∃ im s row,
      rescale cfg ops scale sample.image = .ok (im, s) ∧
      b.image[i]? = some row.1 ∧ b.boxes[i]? = some row.2.1 ∧
      (hasMask batch = true → ∃ masks, b.mask = some masks ∧ masks[i]? = some row.2.2) ∧
      (row.1.H = H ∧ row.1.W = W) ∧ (row.2.2.H = H ∧ row.2.2.W = W) ∧
      Collated ops (hasMask batch) sample im s row

/-- Every sample of the batch is found again in its rows of the three arrays. -/
theorem call_holds (hsized : ops.resize.Sized)
    (hcls : ∀ sample ∈ batch, ∀ row ∈ sample.boxes, row 5 ≠ -1) {b : Batch Q K 6}
    (h : call cfg ops ind batch = .ok b) : Holds cfg ops ind batch b := by
  obtain ⟨scale, hind, hrest⟩ := bind_eq_ok h
  obtain ⟨first, hfirst, -⟩ := bind_eq_ok hrest
  have hind' : cfg.scales[ind]? = some scale := getOrIndexError_eq_ok.mp hind
  rw [call_eq hind' hfirst] at h
  split at h
  · cases h
  · cases hrows : fillAll cfg ops scale first batch with
    | error e =>
        rw [hrows] at h
        cases h
    | ok rows =>
        rw [hrows] at h
        cases h
        refine ⟨scale, (maxSize (sizes first)).2.toNat, (maxSize (sizes first)).1.toNat, hind',
          fun i sample hi => ?_⟩
        -- What each pass returned for this sample.
        obtain ⟨⟨im, s⟩, hfi, hres⟩ := forall₂_getElem? (forall₂_of_mapM_eq_ok hfirst) hi
        obtain ⟨row, hri, hfill⟩ := forall₂_getElem? (forall₂_of_mapM_eq_ok hrows) hi
        have hmem := List.mem_of_getElem? hi
        have hmask : hasMask batch = true → sample.mask.isSome :=
          fun hall => List.all_eq_true.mp hall sample hmem
        -- The canvas has room for the resized image.
        have hle : (im.W : ℤ) ≤ (maxSize (sizes first)).1 ∧ (im.H : ℤ) ≤ (maxSize (sizes first)).2 :=
          le_maxSize (List.mem_map.mpr ⟨(im, s), List.mem_of_getElem? hfi, rfl⟩ :
            (im.H, im.W) ∈ sizes first)
        obtain ⟨hrow, himage, hcanvas⟩ := fillSample_collated hsized (hcls sample hmem) hmask hres
          (by omega) (by omega) hfill
        refine ⟨im, s, row, hres, ?_, ?_, fun hall => ⟨_, if_pos hall, ?_⟩, himage, hcanvas, hrow⟩
        all_goals
          rw [List.getElem?_map, hri]
          rfl

/-- The call returns when `rescale` does for every image, and no mask is empty. -/
theorem call_returns {scale : ℤ} (hind : cfg.scales[ind]? = some scale) (hne : batch ≠ [])
    (hres : ∀ sample ∈ batch, ∃ r : Img P × ImScale K, rescale cfg ops scale sample.image = .ok r)
    (hmask : ∀ sample ∈ batch, ∀ mask, sample.mask = some mask → mask.H ≠ 0 ∧ mask.W ≠ 0) :
    ∃ b, call cfg ops ind batch = .ok b := by
  obtain ⟨first, hfirst⟩ := exists_mapM hres
  rw [call_eq hind hfirst, if_neg]
  · -- No sample fails: its image has a scale, and a mask without pixels is excluded.
    have hfill : ∃ rows, fillAll cfg ops scale first batch = .ok rows := by
      refine exists_mapM fun sample hmem => ?_
      obtain ⟨r, hr⟩ := hres sample hmem
      unfold fillSample
      rw [hr, ok_bind]
      cases hasMask batch with
      | false => exact ⟨_, rfl⟩
      | true =>
          cases hsome : sample.mask with
          | none => exact ⟨_, rfl⟩
          | some mask =>
              obtain ⟨hH, hW⟩ := hmask sample hmem mask hsome
              simp only [resizeMask]
              rw [if_neg (by simp [hH, hW])]
              exact ⟨_, rfl⟩
    obtain ⟨rows, hrows⟩ := hfill
    rw [hrows]
    exact ⟨_, rfl⟩
  · -- The first image has a size.
    obtain ⟨sample, rest, rfl⟩ := List.exists_cons_of_ne_nil hne
    obtain ⟨r, hr, -⟩ := forall₂_getElem? (i := 0) (forall₂_of_mapM_eq_ok hfirst) rfl
    have hle : (r.1.W : ℤ) ≤ (maxSize (sizes first)).1 ∧ (r.1.H : ℤ) ≤ (maxSize (sizes first)).2 :=
      le_maxSize (List.mem_map.mpr ⟨r, List.mem_of_getElem? hr, rfl⟩ :
        (r.1.H, r.1.W) ∈ sizes first)
    omega

/-- The collater and the loss are inverse on the boxes of a batch, image and mask
share their place, and a batch that can be resized is collated. -/
theorem call_roundTrip (cfg : Settings) (ops : Ops P Q) (hsized : ops.resize.Sized) (ind : ℕ)
    (batch : List (Sample P K 6)) (hcls : ∀ sample ∈ batch, ∀ row ∈ sample.boxes, row 5 ≠ -1) :
    (∀ b, call cfg ops ind batch = .ok b → Holds cfg ops ind batch b) ∧
      (∀ scale, cfg.scales[ind]? = some scale → batch ≠ [] →
        (∀ sample ∈ batch, ∃ r : Img P × ImScale K,
          rescale cfg ops scale sample.image = .ok r) →
        (∀ sample ∈ batch, ∀ mask, sample.mask = some mask → mask.H ≠ 0 ∧ mask.W ≠ 0) →
        ∃ b, call cfg ops ind batch = .ok b) :=
  ⟨fun _ h => call_holds hsized hcls h, fun _ hind hne hres hmask =>
    call_returns hind hne hres hmask⟩

end

/-! ### A batch of two images -/

/-- `cv2.resize` that keeps the pixels, and a normalization that keeps the values. -/
def keepOps : Ops ℕ ℕ :=
  ⟨⟨fun im w h => ⟨h, w, im.px⟩, fun im w h => ⟨h, w, im.px⟩⟩, id, 0⟩

theorem keepOps_sized : keepOps.resize.Sized := ⟨fun _ _ _ => ⟨rfl, rfl⟩, fun _ _ _ => ⟨rfl, rfl⟩⟩

/-- Images of two sizes, the second one without boxes. -/
def twoSamples : List (Sample ℕ ℚ 6) :=
  [⟨.full 64 96 7, [![8, 16, 40, 48, 30, 0]], some (.full 64 96 1)⟩,
    ⟨.full 64 64 5, [], some (.full 64 64 1)⟩]

/-- The smallest size that can be configured. -/
def oneScale : Settings := ⟨[32], true⟩

/-- The two samples are collated and found again. -/
theorem call_roundTrip_twoSamples :
    ∃ b, call oneScale keepOps 0 twoSamples = .ok b ∧
      Holds oneScale keepOps 0 twoSamples b := by
  have h := call_roundTrip oneScale keepOps keepOps_sized 0 twoSamples (by decide +kernel)
  have hreturn : ∀ sample ∈ twoSamples,
      ((rescale (K := ℚ) oneScale keepOps 32 sample.image).toOption.isSome) := by
    decide +kernel
  obtain ⟨b, hb⟩ := h.2 32 rfl (by decide) (fun sample hmem => by
      have hsome := hreturn sample hmem
      cases hr : rescale (K := ℚ) oneScale keepOps 32 sample.image with
      | ok r => exact ⟨r, rfl⟩
      | error e =>
          rw [hr] at hsome
          cases hsome)
    (by
      intro sample hmem mask hsome
      rcases List.mem_pair.mp hmem with rfl | rfl <;> cases hsome <;> decide)
  exact ⟨b, hb, h.1 b hb⟩

end W2Net.Proofs.Collater
