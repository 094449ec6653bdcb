import W2Net.Datasets.AnnotationXml
import W2Net.Datasets.WakeDataset
import W2Net.Lib.TextLines

/-!
# `W2Net.Datasets.WakeObjects`: what the wake dataset reads

The model of `WakeDataset._parse_objects` of `datasets/wake_dataset.py` on the objects of an
annotation file, in the three return formats, and of the list of images that `__init__` reads.

A rotated box is read from `robndbox`, and a straight one from `bndbox` when there is no rotated
one. A number that is missing or does not parse stops the reading. An element without a text has
the text `None`, which is the empty text here.
-/

set_option autoImplicit false

namespace W2Net.WakeDataset

open W2Net.AnnotationXml

/-- How Python reads the texts of an element: the numbers, `int(text)`, and `text.lower()`. -/
structure PyTexts (K : Type) extends PyNumbers K where
  int : String → Option ℤ
  lower : String → String

/-- An element that is missing has no attribute `text`, and `None` is no text. A text that is no
number is a wrong value. -/
inductive ReadError where
  | attributeError
  | typeError
  | valueError
  deriving DecidableEq

/-- `return_format`. -/
inductive ReturnFormat where
  | rbox
  | poly
  | aabb
  deriving DecidableEq

/-- The element that an object is read from. -/
inductive ObjectBox (K : Type) where
  | robnd (r : RowXywha K)
  | bnd (b : Aabb K)

section
variable {K : Type} (txt : PyTexts K)

/-- `float(node.find(tag).text)`. -/
def floatOf (node : Child) (tag : String) : Except ReadError K :=
  match node.findtext tag with
  | none => .error .attributeError
  | some text =>
      if text = "" then .error .typeError
      else
        match txt.float text with
        | none => .error .valueError
        | some x => .ok x

/-- The five numbers of `robndbox`. -/
def readRobnd (robnd : Child) : Except ReadError (RowXywha K) := do
  let cx ← floatOf txt robnd "cx"
  let cy ← floatOf txt robnd "cy"
  let w ← floatOf txt robnd "w"
  let h ← floatOf txt robnd "h"
  let angle ← floatOf txt robnd "angle"
  .ok ⟨cx, cy, w, h, angle⟩

/-- The four numbers of `bndbox`. -/
def readBnd (bnd : Child) : Except ReadError (Aabb K) := do
  let xmin ← floatOf txt bnd "xmin"
  let ymin ← floatOf txt bnd "ymin"
  let xmax ← floatOf txt bnd "xmax"
  let ymax ← floatOf txt bnd "ymax"
  .ok ⟨xmin, ymin, xmax, ymax⟩

/-- `int(diff_tag.text) == 1`; a text that is no integer does not count. -/
def isDifficult (o : ObjectElement) : Bool :=
  match o.findtext "difficult" with
  | some text => text != "" && txt.int text == some 1
  | none => false

/-- `name`, which is `wake` when there is none. -/
def objectName (o : ObjectElement) : Except ReadError String :=
  match o.findtext "name" with
  | some text =>
      if text = "" then .error .attributeError
      else .ok (String.ofList (Text.strip (txt.lower text).toList))
  | none => .ok "wake"

/-- `class_to_ind`: of two equal classes the last one counts. -/
def classToInd (classes : List String) (name : String) : Option ℕ :=
  (classes.zipIdx.reverse.find? fun p => p.1 = name).map Prod.snd

/-- The box of an object: `robndbox` goes first, and an object may have none. -/
def readBox (o : ObjectElement) : Except ReadError (Option (ObjectBox K)) :=
  match o.find "robndbox" with
  | some robnd => (readRobnd txt robnd).map fun r => some (.robnd r)
  | none =>
      match o.find "bndbox" with
      | some bnd => (readBnd txt bnd).map fun b => some (.bnd b)
      | none => .ok none

/-- The body of the loop over the objects. -/
def parseObject (classes : List String) (o : ObjectElement) :
    Except ReadError (Option (ObjectBox K × ℕ)) :=
  if isDifficult txt o then .ok none
  else do
    let name ← objectName txt o
    match classToInd classes name with
    | none => .ok none
    | some clsId => (readBox txt o).map (Option.map fun box => (box, clsId))

/-- The boxes and the labels, before they are put into the return format. -/
def readObjects (classes : List String) (objects : List ObjectElement) :
    Except ReadError (List (ObjectBox K × ℕ)) :=
  (objects.mapM (parseObject txt classes)).map fun parsed => parsed.filterMap id

end

section
variable {K : Type} [Field K] [LinearOrder K] (m : PyMath K)

/-- A row in the format `rbox`: a straight box has the angle 0. -/
def ObjectBox.rbox : ObjectBox K → RowXywha K
  | .robnd r => r
  | .bnd b => ⟨(b.x1 + b.x2) / 2, (b.y1 + b.y2) / 2, |b.x2 - b.x1|, |b.y2 - b.y1|, 0⟩

/-- A row in the format `poly`. -/
def ObjectBox.poly : ObjectBox K → QuadRow K
  | .robnd r => rboxToPoly m r
  | .bnd b => ![b.x1, b.y1, b.x2, b.y1, b.x2, b.y2, b.x1, b.y2]

/-- A row in the format `aabb`. -/
def ObjectBox.aabb : ObjectBox K → Aabb K
  | .robnd r => polyToAabb (rboxToPoly m r)
  | .bnd b => b

/-- `WakeDataset._parse_objects`. -/
def parseObjects (txt : PyTexts K) (classes : List String) (format : ReturnFormat)
    (objects : List ObjectElement) : Except ReadError (Boxes K × List ℕ) := do
  let read ← readObjects txt classes objects
  let boxes := read.map Prod.fst
  let labels := read.map Prod.snd
  match format with
  | .rbox => .ok (.rbox (boxes.map ObjectBox.rbox), labels)
  | .poly => .ok (.poly (boxes.map (ObjectBox.poly m)), labels)
  | .aabb => .ok (.aabb (boxes.map (ObjectBox.aabb m)), labels)

end

/-- `self.image_ids` from the content of the list file. -/
def imageIds (content : Text) : List Text :=
  ((Text.readlines content).map Text.strip).filter (· ≠ [])

end W2Net.WakeDataset
