import Mathlib.Data.Char
import Mathlib.Data.List.Lex
import W2Net.Datasets.WakeObjects
import W2Net.Lib.FirstKey

/-!
# `W2Net.Datasets.Wake2voc`: annotation files in the VOC format

The model of `datasets/wake2voc.py`: what `main` makes of one annotation file whose image has
`W × H` pixels, with `set_or_make`, `clip_box` and `write_voc_bndbox`, and the lists of images
that it writes in the end.

An annotation is the elements in front of its objects and the objects. Their order among each
other is left out: the elements are found by their tags, and no other element has the tag
`object`. The text `None` of an element is the empty text.
-/

set_option autoImplicit false

namespace W2Net.Wake2voc

open W2Net.AnnotationXml
open W2Net.WakeDataset (PyTexts isDifficult readRobnd readBnd)

/-- An annotation file. -/
structure Annotation where
  header : List Child
  objects : List ObjectElement

/-! ### Elements -/

/-- `set_or_make(parent, tag, text)` on the leaves of `parent`. -/
def setLeaf (tag text : String) (leaves : List Leaf) : List Leaf :=
  updateFirst Leaf.tag tag (fun l => { l with text := text }) ⟨tag, "", ""⟩ leaves

/-- `node.text = text`. -/
def setText (text : String) : Child → Child
  | .leaf l => .leaf { l with text := text }
  | .group tag _ leaves tail => .group tag text leaves tail

/-- A change of the leaves of an element. A leaf that gets leaves is a group. -/
def onLeaves (f : List Leaf → List Leaf) : Child → Child
  | .leaf l => .group l.tag l.text (f []) l.tail
  | .group tag text leaves tail => .group tag text (f leaves) tail

/-- `set_or_make(root, tag, text)`. -/
def setChild (tag text : String) (children : List Child) : List Child :=
  updateFirst Child.tag tag (setText text) (.leaf ⟨tag, "", ""⟩) children

section
variable {K : Type} [Field K] [LinearOrder K]

/-! ### Boxes -/

/-- `rbox_to_poly`, with `ANGLE_UNIT` set to `radian`: the corners are those of the dataset. -/
def rboxToPoly (m : PyMath K) (r : RowXywha K) : QuadRow K := WakeDataset.rboxToPoly m r

/-- `poly_to_aabb`. -/
def polyToAabb (poly : QuadRow K) : Aabb K := WakeDataset.polyToAabb poly

/-- `clip_box`. -/
def clipBox (b : Aabb K) (W H : ℕ) : Aabb K :=
  let xmin := max 0 (min b.x1 (W - 1))
  let ymin := max 0 (min b.y1 (H - 1))
  let xmax := max 0 (min b.x2 (W - 1))
  let ymax := max 0 (min b.y2 (H - 1))
  ⟨xmin, ymin, if xmax < xmin then xmin else xmax, if ymax < ymin then ymin else ymax⟩

variable [FloorRing K]

/-- `str(int(round(x)))`. -/
def intText (x : K) : String := toString (pyRound x)

/-- The leaves of `bndbox`. -/
def bndboxLeaves (b : Aabb K) (leaves : List Leaf) : List Leaf :=
  setLeaf "ymax" (intText b.y2) <| setLeaf "xmax" (intText b.x2) <|
    setLeaf "ymin" (intText b.y1) <| setLeaf "xmin" (intText b.x1) leaves

/-- `write_voc_bndbox`. -/
def writeVocBndbox (o : ObjectElement) (b : Aabb K) : ObjectElement :=
  { o with
    children := updateFirst Child.tag "bndbox" (onLeaves (bndboxLeaves b))
      (.group "bndbox" "" [] "") o.children }

/-! ### The conversion -/

/-- The body of the loop over the objects: `none` for an object that does not count, which stays
as it is. -/
def convertObject (m : PyMath K) (txt : PyTexts K) (W H : ℕ) (o : ObjectElement) :
    Option ObjectElement :=
  if isDifficult txt o then none
  else
    match o.find "robndbox" with
    | some robnd =>
        (readRobnd txt robnd).toOption.map fun r =>
          writeVocBndbox o (clipBox (polyToAabb (rboxToPoly m r)) W H)
    | none =>
        match o.find "bndbox" with
        | some bnd => (readBnd txt bnd).toOption.map fun b => writeVocBndbox o (clipBox b W H)
        | none => none

/-- The elements in front of the objects: `folder`, `filename`, `path` and `size`. -/
def convertHeader (filename path : String) (W H : ℕ) (header : List Child) : List Child :=
  let header := setChild "folder" "JPEGImages" header
  let header := setChild "filename" filename header
  let header := setChild "path" path header
  updateFirst Child.tag "size"
    (onLeaves fun leaves =>
      setLeaf "depth" "3" <| setLeaf "height" (toString H) <| setLeaf "width" (toString W) leaves)
    (.group "size" "" [] "") header

/-- The annotation that is written, `none` when the file is skipped: it has no object, or none that
counts. -/
def convertXml (m : PyMath K) (txt : PyTexts K) (filename path : String) (W H : ℕ)
    (a : Annotation) : Option Annotation :=
  let header := convertHeader filename path W H a.header
  if a.objects.length = 0 then none
  else
    let validObj := a.objects.countP fun o => (convertObject m txt W H o).isSome
    if validObj = 0 then none
    else some ⟨header, a.objects.map fun o => (convertObject m txt W H o).getD o⟩

end

/-! ### The lists of images -/

/-- The texts of `train.txt`, `val.txt` and `trainval.txt`. -/
structure ImageSets where
  train : Text
  val : Text
  trainval : Text

/-- `sorted(list(set(ok_ids)))`. -/
def sortedIds (okIds : List Text) : List Text :=
  okIds.dedup.mergeSort fun a b => decide (a ≤ b)

/-- `int(TRAIN_RATIO * n)`, for `TRAIN_RATIO = 0.8`. -/
def trainCount (n : ℕ) : ℕ := (pyTrunc (4 / 5 * n : ℚ)).toNat

/-- The split of the shuffled ids. -/
def splitIds (ids : List Text) : List Text × List Text :=
  (ids.take (trainCount ids.length), ids.drop (trainCount ids.length))

/-- The three lists, where `shuffle` is `random.shuffle` with the seed of the file. -/
def imageSets (shuffle : List Text → List Text) (okIds : List Text) : ImageSets :=
  let ids := shuffle (sortedIds okIds)
  let (trainIds, valIds) := splitIds ids
  ⟨Text.unlines trainIds, Text.unlines valIds, Text.unlines ids⟩

end W2Net.Wake2voc
