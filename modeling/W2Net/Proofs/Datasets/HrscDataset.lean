import W2Net.Proofs.Utils.Augment

/-!
# `W2Net.Proofs.Datasets.HrscDataset`: the boxes of a sample

`objects` are the annotated objects that are not background, with their angle
wrapped and their sides positive, and `acceptedRows` are the rows that a sample
should have: those of the objects that `mask_valid_boxes` accepts.

The array is allocated with one row for each object and filled from the accepted
ones. So it has one row for each object whenever it is returned
(`gtBoxesOf_length`), and the rows are right exactly when nothing was rejected
(`gtBoxesOf_eq_iff`). `getItem_boxes_iff` adds the two other cases in which no
array is returned: no annotated box, and a target size for the letterbox. With
augmentation, no sample is returned at all (`getItem_augment`).
-/

set_option autoImplicit false

namespace W2Net.Proofs.HrscDataset

open W2Net.HrscDataset
open W2Net.Augment (Draws)

/-! ### Assignments to columns -/

section
variable {K : Type}


theorem assignBoxes_length {gt out : List (GtRow K)} {bboxes : List (RowXywha K)}
    (h : assignBoxes gt bboxes = .ok out) : out.length = gt.length := by
  unfold assignBoxes at h
  cases hrows : npAssignRows (gt.map fun g => (⟨g 0, g 1, g 2, g 3, g 4⟩ : RowXywha K)) bboxes with
  | error e => rw [hrows] at h; cases h
  | ok rows =>
      rw [hrows] at h
      cases h
      have hlen := npAssignRows_length hrows
      rw [List.length_map] at hlen
      rw [List.length_zipWith, hlen, min_self]

theorem assignColumn_length {j : Fin 6} {gt out : List (GtRow K)} {vals : List K}
    (h : assignColumn j gt vals = .ok out) : out.length = gt.length := by
  unfold assignColumn at h
  cases hcol : npAssignRows (gt.map fun g => g j) vals with
  | error e => rw [hcol] at h; cases h
  | ok col =>
      rw [hcol] at h
      cases h
      have hlen := npAssignRows_length hcol
      rw [List.length_map] at hlen
      rw [List.length_zipWith, hlen, min_self]

theorem assignClasses_length [Field K] (gt : List (GtRow K)) (cls : List ℕ) :
    (assignClasses gt cls).length = gt.length := by
  rw [assignClasses, List.length_mapIdx]

/-- One column is written, over rows and values given by functions. -/
theorem assignColumn_map {α : Type} (j : Fin 6) (l : List α) (row : α → GtRow K) (val : α → K) :
    assignColumn j (l.map row) (l.map val)
      = .ok (l.map fun x => Function.update (row x) j (val x)) := by
  unfold assignColumn
  rw [npAssignRows_of_length_eq (by simp only [List.length_map])]
  show Except.ok _ = _
  rw [List.zipWith_map, List.zipWith_self]

end

/-! ### The array of boxes -/

section
variable {K : Type} [Field K]

/-- The row of an object: `(x1, y1, x2, y2, angle, class)`. -/
def gtRow (p : RowXywha K × ℕ) : GtRow K := fun j =>
  if j = 0 then (toXyxya p.1).x1
  else if j = 1 then (toXyxya p.1).y1
  else if j = 2 then (toXyxya p.1).x2
  else if j = 3 then (toXyxya p.1).y2
  else if j = 4 then (toXyxya p.1).a
  else p.2

/-- The first five columns of the array, before the overwriting. -/
def boxRow (p : RowXywha K × ℕ) : GtRow K := fun j =>
  if j = 0 then p.1.cx else if j = 1 then p.1.cy else if j = 2 then p.1.w
  else if j = 3 then p.1.h else if j = 4 then p.1.a else 0

theorem assignBoxes_zeros (objs : List (RowXywha K × ℕ)) :
    assignBoxes (List.replicate objs.length 0) (objs.map Prod.fst) = .ok (objs.map boxRow) := by
  unfold assignBoxes
  rw [npAssignRows_of_length_eq (by simp only [List.length_map, List.length_replicate])]
  show Except.ok _ = _
  rw [← List.map_const', List.zipWith_map, List.zipWith_self]
  rfl

theorem assignClasses_map (objs : List (RowXywha K × ℕ)) (row : RowXywha K × ℕ → GtRow K) :
    assignClasses (objs.map row) (objs.map Prod.snd)
      = objs.map fun p => Function.update (row p) 5 (p.2 : K) := by
  refine List.ext_getElem? fun i => ?_
  rw [assignClasses, List.getElem?_mapIdx, List.getElem?_map, List.getElem?_map,
    List.getElem?_map]
  cases objs[i]? with
  | none => rfl
  | some p => rfl

/-- After the overwriting, a row is `(x1, y1, x2, y2, angle, class)`. -/
theorem update_boxRow (p : RowXywha K × ℕ) :
    Function.update (Function.update (Function.update (Function.update
      (Function.update (boxRow p) 5 (p.2 : K)) 0 (toXyxya p.1).x1) 1 (toXyxya p.1).y1)
      2 (toXyxya p.1).x2) 3 (toXyxya p.1).y2 = gtRow p := by
  funext j
  match j with
  | 0 => rfl
  | 1 => rfl
  | 2 => rfl
  | 3 => rfl
  | 4 => rfl
  | 5 => rfl

variable [LinearOrder K] [FloorRing K]

/-- `mask_valid_boxes` accepts the object. -/
def accepted (p : RowXywha K × ℕ) : Bool := Bbox.maskValidBoxes p.1

/-- The array has one row for each object, also when boxes were rejected. -/
theorem gtBoxesOf_length {n : ℕ} {bboxes : List (RowXywha K)} {cls : List ℕ}
    {out : List (GtRow K)} (h : gtBoxesOf n bboxes cls = .ok out) : out.length = n := by
  unfold gtBoxesOf at h
  dsimp only at h
  obtain ⟨gt, hgt, h⟩ := bind_eq_ok h
  have hlen := assignBoxes_length hgt
  rw [List.length_replicate] at hlen
  split at h
  · cases h
    rw [assignClasses_length, hlen]
  · -- Four columns are overwritten, and no row is added or removed.
    obtain ⟨gt0, h0, h⟩ := bind_eq_ok h
    obtain ⟨gt1, h1, h⟩ := bind_eq_ok h
    obtain ⟨gt2, h2, h⟩ := bind_eq_ok h
    rw [assignColumn_length h, assignColumn_length h2, assignColumn_length h1,
      assignColumn_length h0, assignClasses_length, hlen]

/-- The array when nothing is rejected. -/
theorem gtBoxesOf_of_all_accepted (objs : List (RowXywha K × ℕ))
    (h : ∀ p ∈ objs, accepted p = true) :
    gtBoxesOf objs.length (objs.map Prod.fst) (objs.map Prod.snd) = .ok (objs.map gtRow) := by
  have hzip : (objs.map Prod.fst).zip (objs.map Prod.snd) = objs := by
    rw [List.zip_map', List.map_id']
  have hfilter : (objs.filter fun p => Bbox.maskValidBoxes p.1) = objs :=
    List.filter_eq_self.mpr h
  cases hobjs : objs with
  | nil => rfl
  | cons p rest =>
      have hne : ¬ (objs.map Prod.fst).length = 0 := by rw [hobjs]; exact Nat.succ_ne_zero _
      rw [← hobjs]
      unfold gtBoxesOf
      simp only [hzip, hfilter, assignBoxes_zeros, bind, Except.bind, assignClasses_map,
        if_neg hne, List.map_map, assignColumn_map, Function.comp_apply]
      -- The columns are overwritten one after the other.
      simp only [update_boxRow]

/-- The array holds the rows of the accepted objects exactly when none is
rejected. -/
theorem gtBoxesOf_eq_iff (objs : List (RowXywha K × ℕ)) :
    gtBoxesOf objs.length (objs.map Prod.fst) (objs.map Prod.snd)
        = .ok ((objs.filter accepted).map gtRow) ↔
      ∀ p ∈ objs, accepted p = true := by
  constructor
  · intro h
    have hlen := gtBoxesOf_length h
    rw [List.length_map] at hlen
    exact List.length_filter_eq_length_iff.mp hlen
  · intro h
    rw [gtBoxesOf_of_all_accepted objs h, List.filter_eq_self.mpr h]

/-! ### The objects of a sample -/

omit [LinearOrder K] [FloorRing K] in
/-- The pairs of entries at `gt_inds` are the pairs whose class is not
background. -/
theorem map_gtInds (roidb : Roidb K) :
    (gtInds roidb).map (fun i => (roidb.boxes.getD i ⟨0, 0, 0, 0, 0⟩, roidb.gtClasses.getD i 0))
      = (roidb.boxes.zip roidb.gtClasses).filter fun p => p.2 ≠ 0 := by
  have hzip : roidb.boxes.zip roidb.gtClasses = (List.range roidb.gtClasses.length).map
      fun i => (roidb.boxes.getD i ⟨0, 0, 0, 0, 0⟩, roidb.gtClasses.getD i 0) := by
    have hlen := roidb.length_eq
    refine List.ext_getElem ?_ fun i hi _ => ?_
    · rw [List.length_zip, List.length_map, List.length_range, hlen, min_self]
    · rw [List.length_zip, hlen, min_self] at hi
      simp [hi, hlen]
  rw [hzip, List.filter_map]
  rfl

/-- The objects that are not background. -/
def objects (roidb : Roidb K) : List (RowXywha K × ℕ) :=
  ((roidb.boxes.zip roidb.gtClasses).filter fun p => p.2 ≠ 0).map fun p => (normalizeRow p.1, p.2)

/-- The rows that a sample should have. -/
def acceptedRows (roidb : Roidb K) : List (GtRow K) :=
  ((objects roidb).filter accepted).map gtRow

theorem length_gtInds (roidb : Roidb K) : (gtInds roidb).length = (objects roidb).length := by
  rw [objects, List.length_map, ← map_gtInds, List.length_map]

/-- The boxes at `gt_inds`, normalized, are those of the objects. -/
theorem boxes_gtInds (roidb : Roidb K) :
    ((gtInds roidb).map fun i => roidb.boxes.getD i ⟨0, 0, 0, 0, 0⟩).map normalizeRow
      = (objects roidb).map Prod.fst := by
  rw [objects, ← map_gtInds]
  simp only [List.map_map, Function.comp_def]

/-- The classes at `gt_inds` are those of the objects. -/
theorem classes_gtInds (roidb : Roidb K) :
    ((gtInds roidb).map fun i => roidb.gtClasses.getD i 0)
      = (objects roidb).map Prod.snd := by
  rw [objects, ← map_gtInds]
  simp only [List.map_map, Function.comp_def]

/-! ### `__getitem__` -/

section
variable {P : Type} {cfg : Settings} {ops : Ops K P} {im : Img P} {file : AnnotationFile K}
  {maskFile : MaskFile} {roidb : Roidb K}

/-- A target size for the letterbox ends the call: four pads do not unpack into
two names. -/
theorem letterboxStep_of_some (x : Img P × List (RowXywha K) × Img ℕ) {size : ℕ × ℕ}
    (h : cfg.imgSize = some size) : letterboxStep cfg ops x = .error .valueError := by
  rw [letterboxStep, h]
  rfl

/-- A mask file that can be read gives a mask. -/
theorem exists_loadMask (cfg : Settings) (resize : Img ℕ → ℕ → ℕ → Img ℕ) (h : maskFile ≠ .unreadable) (H W : ℕ) :
    ∃ mask, loadMask cfg resize maskFile H W = .ok mask := by
  cases maskFile with
  | absent => exact ⟨_, rfl⟩
  | unreadable => exact absurd rfl h
  | image m =>
      rw [loadMask]
      split
      · exact ⟨_, rfl⟩
      · exact ⟨_, rfl⟩

/-- Without augmentation, a call returns an item exactly when there is a box, no
target size, and an array of boxes, which is the one of the item. -/
theorem getItem_eq_ok_iff (draws : Draws K) (haug : cfg.augment = false)
    (hann : loadAnnotationFile ops.math cfg.level file = .ok roidb)
    (hmask : maskFile ≠ .unreadable) (boxes : List (GtRow K)) :
    (∃ item, getItem cfg ops (some im) file maskFile draws = .ok item ∧ item.boxes = boxes) ↔
      roidb.boxes ≠ [] ∧ cfg.imgSize = none ∧
        gtBoxesOf (objects roidb).length ((objects roidb).map Prod.fst)
          ((objects roidb).map Prod.snd) = .ok boxes := by
  obtain ⟨mask, hload⟩ := exists_loadMask cfg ops.resize.nearest hmask im.H im.W
  have hstep : ∀ x : Img P × List (RowXywha K) × Img ℕ, augmentStep cfg ops draws x = .ok x := by
    intro x
    rw [augmentStep, haug]
    rfl
  by_cases hempty : roidb.boxes.length = 0
  · -- `gt_boxes` is not bound.
    have hnil : roidb.boxes = [] := List.length_eq_zero_iff.mp hempty
    simp [getItem, hann, hload, hnil, bind, Except.bind]
  · have hne : roidb.boxes ≠ [] := fun h => hempty (by rw [h]; rfl)
    cases hsize : cfg.imgSize with
    | some size =>
        -- The letterbox step raises for every size.
        simp [getItem, hann, hload, hempty, hstep, letterboxStep_of_some _ hsize, bind,
          Except.bind]
    | none =>
        have hletter : ∀ x : Img P × List (RowXywha K) × Img ℕ,
            letterboxStep cfg ops x = .ok x := by
          intro x
          rw [letterboxStep, hsize]
        simp only [getItem, hann, hload, bind, Except.bind, if_neg hempty, hstep, hletter,
          boxes_gtInds, classes_gtInds, length_gtInds]
        cases hgt : gtBoxesOf (objects roidb).length ((objects roidb).map Prod.fst)
            ((objects roidb).map Prod.snd) with
        | error e => simp
        | ok gt => simp [hne]

/-- Without augmentation, a sample has the rows of the accepted boxes exactly
when there is an annotated box, `mask_valid_boxes` accepts every box that is not
background, and no target size is set. -/
theorem getItem_boxes_iff (draws : Draws K) (haug : cfg.augment = false)
    (hann : loadAnnotationFile ops.math cfg.level file = .ok roidb)
    (hmask : maskFile ≠ .unreadable) :
    (∃ item, getItem cfg ops (some im) file maskFile draws = .ok item ∧
        item.boxes = acceptedRows roidb) ↔
      roidb.boxes ≠ [] ∧ cfg.imgSize = none ∧ ∀ p ∈ objects roidb, accepted p = true := by
  rw [getItem_eq_ok_iff draws haug hann hmask, acceptedRows, gtBoxesOf_eq_iff]

/-! ### Augmentation -/

/-- The pipeline of the dataset ends in the exception of `HSV`. -/
theorem transform_call (ops : Ops K P) (s : Augment.Sample K P .xywha) (draws : Draws K) :
    transform.call ops.math ops.image s draws = .error .valueError :=
  Augment.callOfList_cons ops.math ops.image _ _ s draws

/-- Three keywords are refused, and the fourth one runs the pipeline, whose
`ValueError` is not caught. -/
theorem augmentSample_eq (ops : Ops K P) (s : Augment.Sample K P .xywha) (draws : Draws K) :
    augmentSample ops s draws = .error .valueError := by
  have hmask : W2Net.Augment.callSignature.bind 2 ["mask"] = .error .typeError := by decide
  have hmasks : W2Net.Augment.callSignature.bind 2 ["masks"] = .error .typeError := by decide
  have hseg : W2Net.Augment.callSignature.bind 2 ["seg"] = .error .typeError := by decide
  have hsegMask : W2Net.Augment.callSignature.bind 2 ["seg_mask"] = .ok () := by decide
  have hkeys : tryKeywords ops s draws ["mask", "masks", "seg", "seg_mask"]
      = .error .valueError := by
    simp [tryKeywords, hmask, hmasks, hseg, hsegMask, transform_call, bind, Except.bind]
  rw [augmentSample, hkeys]
  rfl

/-- With augmentation, no call returns an item. -/
theorem getItem_augment (draws : Draws K) (haug : cfg.augment = true) (imread : Option (Img P))
    (item : Item K P) : getItem cfg ops imread file maskFile draws ≠ .ok item := by
  intro h
  cases imread with
  | none => cases h
  | some im =>
      rw [getItem] at h
      obtain ⟨roidb, -, h⟩ := bind_eq_ok h
      dsimp only at h
      obtain ⟨mask, -, h⟩ := bind_eq_ok h
      split at h
      · cases h
      · obtain ⟨x, hx, -⟩ := bind_eq_ok h
        rw [augmentStep, if_pos haug, augmentSample_eq] at hx
        cases hx

end

end

/-! ### Two annotated boxes -/

/-- The settings of the dataset without augmentation. -/
def plainSettings : Settings := ⟨.one, false, none, true, [255]⟩

/-- Operations that do nothing. -/
def idleOps : Ops ℚ ℕ where
  math := PyMath.rat
  image := Augment.idleOps
  resize := ⟨fun im _ _ => im, fun im _ _ => im⟩
  color := 114

/-- A wake of the given size at `(20, 20)`, with angle 0. -/
def wake (w h : ℚ) : HrscObject ℚ :=
  ⟨false, "1", "0", some 20, some 20, some w, some h, some 0⟩

/-- The parsed annotation of wakes of the given sizes. -/
def wakeRoidb (sizes : List (ℚ × ℚ)) : Roidb ℚ :=
  .ofObjects (sizes.map fun s => (⟨20, 20, s.1, s.2, 0 * 180 / PyMath.rat.pi⟩, 1))

theorem loadAnnotationFile_wakes (sizes : List (ℚ × ℚ)) :
    loadAnnotationFile idleOps.math plainSettings.level
        (.hrsc (sizes.map fun s => wake s.1 s.2)) = .ok (wakeRoidb sizes) := by
  have hmap : (sizes.map fun s => wake s.1 s.2).mapM (parseHrscObject PyMath.rat .one)
      = .ok (sizes.map fun s => some (⟨20, 20, s.1, s.2, 0 * 180 / PyMath.rat.pi⟩, 1)) := by
    induction sizes with
    | nil => rfl
    | cons s sizes ih =>
        rw [List.map_cons, List.mapM_cons, ih]
        rfl
  show (_ >>= _) = _
  rw [show idleOps.math = PyMath.rat from rfl, show plainSettings.level = .one from rfl, hmap]
  show Except.ok _ = Except.ok _
  rw [List.filterMap_map]
  simp [wakeRoidb]

/-- An image of 40 rows and columns. -/
def blankImage : Img ℕ := ⟨40, 40, fun _ _ => 0⟩

/-- One wake of a valid size: the sample has its row. -/
theorem getItem_oneWake :
    ∃ item, getItem plainSettings idleOps (some blankImage) (.hrsc [wake 10 5]) .absent
        Augment.halfDraws = .ok item ∧
      item.boxes = acceptedRows (wakeRoidb [(10, 5)]) :=
  (getItem_boxes_iff Augment.halfDraws rfl (loadAnnotationFile_wakes [(10, 5)])
    (by simp)).mpr ⟨by simp [wakeRoidb, Roidb.ofObjects], rfl, by decide +kernel⟩

/-- The aspect ratio 30 is too long. -/
example : accepted ((⟨20, 20, 90, 3, 0⟩ : RowXywha ℚ), 1) = false := by decide +kernel

/-- Two wakes, the second too small. The sample has two rows, and only one of
them belongs to an accepted box. -/
theorem getItem_smallWake :
    ¬ ∃ item, getItem plainSettings idleOps (some blankImage) (.hrsc [wake 10 5, wake 1 1])
        .absent Augment.halfDraws = .ok item ∧
      item.boxes = acceptedRows (wakeRoidb [(10, 5), (1, 1)]) := by
  intro h
  have hboxes := ((getItem_eq_ok_iff Augment.halfDraws rfl (loadAnnotationFile_wakes [(10, 5), (1, 1)])
    (by simp) _).mp h).2.2
  have hlen := gtBoxesOf_length hboxes
  revert hlen
  decide +kernel

end W2Net.Proofs.HrscDataset
