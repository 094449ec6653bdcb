import W2Net.Lib.Text
import W2Net.Utils.Augment
import W2Net.Utils.Letterbox

/-!
# `W2Net.Datasets.HrscDataset`: samples of the HRSC dataset

The model of `datasets/hrsc_dataset.py`: `_load_annotation` with its two parsers
and `class_mapping`, `_load_mask`, and `__getitem__`.

Reading a file is the part that stays outside. An annotation file is the list of
its objects with their fields (`AnnotationFile`); a number that does not parse
is `none`. An image file is its pixels, or `none` when it cannot be read.

`gtBoxesOf` is the part of `__getitem__` that builds the array of boxes. It
follows numpy's rules for assignments between arrays of different lengths.
-/

set_option autoImplicit false

namespace W2Net.HrscDataset

open W2Net.Augment (Draws Sample Aug Pipeline LabelRow ImageOps)

/-! ### Annotations -/

/-- The `level` of the dataset. Any other level is refused by `__init__`. -/
inductive Level where
  | one
  | two
  | three
  deriving Repr, DecidableEq

/-- `self.classes`. -/
def classes : Level → List String
  | .one => ["__background__", "wake"]
  | .two => ["__background__", "ship", "air.", "war.", "mer."]
  | .three =>
      ["__background__", "ship", "air.", "war.", "mer.", "Nim.", "Ent.", "Arl.", "Whi.", "Per.",
        "San.", "Tic.", "Aus.", "Tar.", "Con.", "Com.A", "Car.A", "Con.A", "Med.", "Car.B"]

/-- `self.class_to_ind`. -/
def classToInd (level : Level) (name : String) : Option ℕ := (classes level).idxOf? name

/-- `class_ID.index(cls_id)`: an unknown id raises `ValueError`. -/
def indexOrError (classID : List String) (clsId : String) : PyM ℕ :=
  match classID.idxOf? clsId with
  | some i => .ok i
  | none => .error .valueError

/-- `class_mapping`. The replacements are made one after the other. -/
def classMapping (clsId : String) : Level → PyM ℕ
  | .one => .ok 1
  | .two =>
      let clsId :=
        if ["100000005", "100000006", "100000012", "100000013", "100000016",
          "10000032"].contains clsId then "100000002" else clsId
      let clsId :=
        if ["100000007", "100000008", "100000009", "100000010", "100000011", "10000015",
          "10000017", "10000019", "10000028", "10000029"].contains clsId then "100000003"
        else clsId
      let clsId :=
        if ["100000018", "100000020", "100000024", "100000025", "100000026",
          "10000030"].contains clsId then "100000004" else clsId
      indexOrError ["bg", "100000001", "100000002", "100000003", "100000004"] clsId
  | .three =>
      let clsId :=
        if ["1000000012", "1000000013", "1000000032"].contains clsId then "100000002" else clsId
      let clsId := if ["100000017", "100000028"].contains clsId then "100000003" else clsId
      let clsId := if ["100000024", "100000026"].contains clsId then "100000004" else clsId
      indexOrError
        ["bg", "100000001", "100000002", "100000003", "100000004", "100000005", "100000006",
          "100000007", "100000008", "100000009", "1000000010", "1000000011", "100000015",
          "1000000016", "100000018", "100000019", "100000020", "100000025", "100000029",
          "100000030"] clsId

/-- The text after one `<HRSC_Object>`, with its fields. -/
structure HrscObject (K : Type) where
  blank : Bool
  clsId : String
  difficult : String
  cx : Option K
  cy : Option K
  w : Option K
  h : Option K
  ang : Option K

/-- The children of a `robndbox` element. -/
structure RobndBox (K : Type) where
  cx : Option K
  cy : Option K
  w : Option K
  h : Option K
  ang : Option K

/-- An `object` element. -/
structure VocObject (K : Type) where
  difficult : Option String
  name : Option String
  rbox : Option (RobndBox K)

/-- An annotation file, by the tag that decides how it is parsed. -/
inductive AnnotationFile (K : Type) where
  | missing
  | hrsc (objects : List (HrscObject K))
  | voc (objects : List (VocObject K))
  | other

/-- What `_load_annotation` returns: as many classes as boxes. -/
structure Roidb (K : Type) where
  boxes : List (RowXywha K)
  gtClasses : List ℕ
  length_eq : gtClasses.length = boxes.length

/-- The two arrays of a list of parsed objects. -/
def Roidb.ofObjects {K : Type} (objects : List (RowXywha K × ℕ)) : Roidb K where
  boxes := objects.map Prod.fst
  gtClasses := objects.map Prod.snd
  length_eq := by rw [List.length_map, List.length_map]

section
variable {K : Type} [Field K]

/-- `float(self._sub(obj, …))`: a text that is not a number raises
`ValueError`. -/
def floatOrError (x : Option K) : PyM K :=
  match x with
  | some x => .ok x
  | none => .error .valueError

/-- One object of `_parse_hrsc_xml`, `none` when it is skipped. -/
def parseHrscObject (m : PyMath K) (level : Level) (obj : HrscObject K) :
    PyM (Option (RowXywha K × ℕ)) :=
  if obj.blank then .ok none
  else if ["100000027", "100000022"].contains obj.clsId || obj.difficult == "1" then .ok none
  else do
    let cx ← floatOrError obj.cx
    let cy ← floatOrError obj.cy
    let w ← floatOrError obj.w
    let h ← floatOrError obj.h
    let ang ← floatOrError obj.ang
    let cls ← classMapping obj.clsId level
    .ok (some (⟨cx, cy, w, h, ang * 180 / m.pi⟩, cls))

/-- One object of `_parse_voc_obb_xml`, `none` when it is skipped. -/
def parseVocObject (m : PyMath K) (level : Level) (obj : VocObject K) :
    Option (RowXywha K × ℕ) :=
  if obj.difficult.map (fun diff => Text.strip diff.toList) = some ['1'] then none
  else do
    let name ← obj.name
    if name = "" then none
    else do
      let rbox ← obj.rbox
      let cx ← rbox.cx
      let cy ← rbox.cy
      let w ← rbox.w
      let h ← rbox.h
      let ang ← rbox.ang
      let cls ← classToInd level name
      some (⟨cx, cy, w, h, ang * 180 / m.pi⟩, cls)

/-- `_load_annotation`. -/
def loadAnnotationFile (m : PyMath K) (level : Level) : AnnotationFile K → PyM (Roidb K)
  | .missing => .ok (.ofObjects [])
  | .hrsc objects => do
      let parsed ← objects.mapM (parseHrscObject m level)
      .ok (.ofObjects (parsed.filterMap id))
  | .voc objects => .ok (.ofObjects (objects.filterMap (parseVocObject m level)))
  | .other => .ok (.ofObjects [])

end

/-! ### Masks -/

/-- The mask file of an image. -/
inductive MaskFile where
  | absent
  | unreadable
  | image (m : Img ℕ)

/-- The settings of a dataset object. `imgSize` is the attribute `img_size`,
`none` when it is missing or falsy. -/
structure Settings where
  level : Level
  augment : Bool
  imgSize : Option (ℕ × ℕ)
  maskBinary : Bool
  maskPositiveValues : List ℕ

/-- `cv2.resize` of a mask to `H` rows and `W` columns, when it has another
size. -/
def matchSize (resize : Img ℕ → ℕ → ℕ → Img ℕ) (m : Img ℕ) (H W : ℕ) : Img ℕ :=
  if m.H ≠ H ∨ m.W ≠ W then resize m W H else m

/-- `_load_mask`. -/
def loadMask (cfg : Settings) (resize : Img ℕ → ℕ → ℕ → Img ℕ) (file : MaskFile) (H W : ℕ) :
    PyM (Img ℕ) :=
  match file with
  | .absent => .ok (Img.zeros H W)
  | .unreadable => .error .fileNotFoundError
  | .image m =>
      let m := matchSize resize m H W
      if cfg.maskBinary then
        .ok (m.map fun v => if cfg.maskPositiveValues.contains v then 1 else 0)
      else .ok m

/-- `(seg_mask > 0).astype(np.uint8)`. -/
def binarize (m : Img ℕ) : Img ℕ := m.map fun v => if 0 < v then 1 else 0

/-! ### The array of boxes -/

/-- A row of `gt_boxes`. -/
abbrev GtRow (K : Type) : Type := Fin 6 → K

section
variable {K : Type} [Field K] [LinearOrder K] [FloorRing K]

/-- `_wrap_to_180`. -/
def wrapTo180 (aDeg : K) : K := pyMod (aDeg + 180) 360 - 180

/-- The angle is wrapped, and the sides lose their sign. -/
def normalizeRow (r : RowXywha K) : RowXywha K :=
  { r with a := wrapTo180 r.a, w := |r.w|, h := |r.h| }

/-- `(x1, y1, x2, y2, angle)` of a row. -/
def toXyxya (r : RowXywha K) : RBox K where
  x1 := r.cx - 1 / 2 * r.w
  y1 := r.cy - 1 / 2 * r.h
  x2 := r.cx + 1 / 2 * r.w
  y2 := r.cy + 1 / 2 * r.h
  a := r.a

/-- `gt_boxes[:, :-1] = bboxes`. -/
def assignBoxes (gt : List (GtRow K)) (bboxes : List (RowXywha K)) : PyM (List (GtRow K)) := do
  let rows ← npAssignRows (gt.map fun g => (⟨g 0, g 1, g 2, g 3, g 4⟩ : RowXywha K)) bboxes
  .ok (List.zipWith (fun g r j =>
    if j = 0 then r.cx else if j = 1 then r.cy else if j = 2 then r.w
    else if j = 3 then r.h else if j = 4 then r.a else g j) gt rows)

/-- `gt_boxes[:, j] = vals`. -/
def assignColumn (j : Fin 6) (gt : List (GtRow K)) (vals : List K) : PyM (List (GtRow K)) := do
  let col ← npAssignRows (gt.map fun g => g j) vals
  .ok (List.zipWith (fun g v => Function.update g j v) gt col)

/-- `for i in range(len(bboxes)): gt_boxes[i, 5] = classes[i]`. -/
def assignClasses (gt : List (GtRow K)) (cls : List ℕ) : List (GtRow K) :=
  gt.mapIdx fun i g =>
    match cls[i]? with
    | some c => Function.update g 5 (c : K)
    | none => g

/-- From the filter to `gt_boxes`, for the boxes of `n = len(gt_inds)` objects.
The array is allocated with `n` rows, and `bboxes` may have fewer after the
filter. -/
def gtBoxesOf (n : ℕ) (bboxes : List (RowXywha K)) (cls : List ℕ) : PyM (List (GtRow K)) := do
  let kept := (bboxes.zip cls).filter fun p => Bbox.maskValidBoxes p.1
  let bboxes := kept.map Prod.fst
  let cls := kept.map Prod.snd
  let gt ← assignBoxes (List.replicate n 0) bboxes
  let gt := assignClasses gt cls
  if bboxes.length = 0 then .ok gt
  else do
    let gt ← assignColumn 0 gt (bboxes.map fun r => (toXyxya r).x1)
    let gt ← assignColumn 1 gt (bboxes.map fun r => (toXyxya r).y1)
    let gt ← assignColumn 2 gt (bboxes.map fun r => (toXyxya r).x2)
    assignColumn 3 gt (bboxes.map fun r => (toXyxya r).y2)

/-! ### `__getitem__` -/

variable {P : Type}

/-- The operations of OpenCV and imgaug, and the border colour of
`letterbox_pair`. -/
structure Ops (K P : Type) where
  math : PyMath K
  image : ImageOps K P
  resize : Letterbox.ResizeOps P
  color : P

/-- The pipeline of `__getitem__`. -/
def transform : Pipeline K .xywha :=
  .ofList [.hsv (1 / 2) (1 / 2) (1 / 2), .horizontalFlip (1 / 2), .verticalFlip (1 / 2),
    .affine 10 (1 / 10) (1 / 10) 0 (1 / 2)]

/-- The attempts to pass the mask by keyword. A `TypeError` goes to the next
keyword, and `none` means that no keyword was accepted. -/
def tryKeywords (ops : Ops K P) (s : Sample K P .xywha) (draws : Draws K) :
    List String → PyM (Option (Sample K P .xywha))
  | [] => .ok none
  | k :: ks =>
      match (do Augment.callSignature.bind 2 [k]; transform.call ops.math ops.image s draws) with
      | .ok (s, _) => .ok (some s)
      | .error .typeError => tryKeywords ops s draws ks
      | .error e => .error e

/-- The augmentation of a sample: with the mask by keyword, else without the
mask, into two names. -/
def augmentSample (ops : Ops K P) (s : Sample K P .xywha) (draws : Draws K) :
    PyM (Sample K P .xywha) := do
  let applied ← tryKeywords ops s draws ["mask", "masks", "seg", "seg_mask"]
  match applied with
  | some s => .ok s
  | none => do
      let (r, _) ← transform.call ops.math ops.image { s with segMask := none } draws
      let (img, labels) ← unpackTwo (Augment.Sample.triple r)
      .ok { s with img := img, labels := labels }

/-- The mask of a sample that was built from an array. -/
def rasterOr (m : Img ℕ) : Option (Augment.SegMask K) → Img ℕ
  | some (.raster m) => m
  | _ => m

/-- The augmentation step of `__getitem__`. -/
def augmentStep (cfg : Settings) (ops : Ops K P) (draws : Draws K)
    (x : Img P × List (RowXywha K) × Img ℕ) : PyM (Img P × List (RowXywha K) × Img ℕ) :=
  if cfg.augment then do
    let s ← augmentSample ops ⟨x.1, x.2.1.map Augment.labelOfRow, some (.raster x.2.2)⟩ draws
    .ok (s.img, s.labels.map Augment.rowOfLabel, rasterOr x.2.2 s.segMask)
  else .ok x

/-- The letterbox step of `__getitem__`. The four pads are unpacked into
`(dw, dh)`. -/
def letterboxStep (cfg : Settings) (ops : Ops K P) (x : Img P × List (RowXywha K) × Img ℕ) :
    PyM (Img P × List (RowXywha K) × Img ℕ) :=
  match cfg.imgSize with
  | none => .ok x
  | some newShape => do
      let lb : Letterbox.Letterboxed K P :=
        Letterbox.letterboxPair ops.resize ops.color x.1 x.2.2 newShape
      let (dw, dh) ← unpackPair lb.pads
      .ok (lb.img, x.2.1.map fun r =>
        { r with cx := r.cx * lb.r + dw, cy := r.cy * lb.r + dh, w := r.w * lb.r, h := r.h * lb.r },
        lb.mask)

/-- What `__getitem__` returns, without the path. -/
structure Item (K P : Type) where
  image : Img P
  boxes : List (GtRow K)
  mask : Img ℕ

/-- `gt_inds`: the indices of the objects that are not background. -/
def gtInds (roidb : Roidb K) : List ℕ :=
  (List.range roidb.gtClasses.length).filter fun i => roidb.gtClasses.getD i 0 ≠ 0

/-- `__getitem__`. Without a box the name `gt_boxes` is never bound. -/
def getItem (cfg : Settings) (ops : Ops K P) (imread : Option (Img P))
    (file : AnnotationFile K) (maskFile : MaskFile) (draws : Draws K) : PyM (Item K P) :=
  match imread with
  | none => .error .fileNotFoundError
  | some im => do
      let roidb ← loadAnnotationFile ops.math cfg.level file
      let inds := gtInds roidb
      let mask ← loadMask cfg ops.resize.nearest maskFile im.H im.W
      let mask := matchSize ops.resize.nearest (binarize mask) im.H im.W
      if roidb.boxes.length = 0 then .error .unboundLocalError
      else do
        let bboxes := inds.map fun i => roidb.boxes.getD i ⟨0, 0, 0, 0, 0⟩
        let cls := inds.map fun i => roidb.gtClasses.getD i 0
        let (im, bboxes, mask) ← augmentStep cfg ops draws (im, bboxes, mask)
        let (im, bboxes, mask) ← letterboxStep cfg ops (im, bboxes.map normalizeRow, mask)
        let boxes ← gtBoxesOf inds.length bboxes cls
        .ok ⟨im, boxes, matchSize ops.resize.nearest (binarize mask) im.H im.W⟩

end

end W2Net.HrscDataset
