import W2Net.Datasets.AnnotationXml
import W2Net.Lib.Argsort
import W2Net.Lib.Path
import W2Net.Lib.Replace

/-!
# `W2Net.Datasets.Wake2gt`: ground truth from annotation files

The model of `datasets/wake2gt.py`: `rbox_2_quad`, `sort_corners`, what
`convert_swim_gt` writes for one annotation file, and the name of the file it writes to. The fields of an object are cut out of its
text at the first tags with their names.

A line of the ground truth is its name, its eight printed numbers and the mark
`difficult`. An error stops the conversion.
-/

set_option autoImplicit false

namespace W2Net.Wake2gt

variable {K : Type} [Field K] [LinearOrder K]

/-- The functions behind the corners: `math` and `cv2.boxPoints`, `numpy.arccos` and
`numpy.argsort`. -/
structure CornerOps (K : Type) [LinearOrder K] where
  math : PyMath K
  arccos : K → K
  argsort : Argsort K
  boxes : Cv2Boxes K

variable (ops : CornerOps K)

/-! ### Corners -/

/-- `rbox_2_quad`. -/
def rbox2Quad (rbox : RowXywha K) : QuadRow K :=
  ops.boxes.boxPoints ⟨rbox.cx, rbox.cy, rbox.w, rbox.h, rbox.a⟩

/-- The entry of `thetas` for a corner seen from the centre. -/
def theta (p : K × K) : K :=
  let cosine := p.1 / ops.math.sqrt (p.1 ^ 2 + p.2 ^ 2)
  let theta := ops.arccos (min (max cosine (-1)) 1) / ops.math.pi * 180
  if 0 < p.2 then 360 - theta else theta

/-- The slope of a diagonal, with `np.iinfo(np.int32).max` for a vertical one. -/
def slope (p q : K × K) : K := if q.1 - p.1 ≠ 0 then (q.2 - p.2) / (q.1 - p.1) else 2147483647

/-- The first of two opposite corners with the indices `i` and `j`. -/
def firstOf (p q : K × K) (i j : ℕ) : ℕ :=
  if p.1 < q.1 then i
  else if p.1 = q.1 then (if p.2 < q.2 then i else j)
  else j

/-- `first_idx` for the corners in the order of their angles. -/
def firstIdx (p : ℕ → K × K) : ℕ :=
  if slope (p 1) (p 3) < slope (p 0) (p 2) then firstOf (p 0) (p 2) 0 2
  else firstOf (p 1) (p 3) 1 3

/-- `sort_corners` on one row. -/
def sortCorners (q : QuadRow K) : QuadRow K :=
  let centers : K × K := ((q 0 + q 2 + q 4 + q 6) / 4, (q 1 + q 3 + q 5 + q 7) / 4)
  let corners := [(q 0, q 1), (q 2, q 3), (q 4, q 5), (q 6, q 7)].map fun p => p - centers
  let thetas := corners.map (theta ops)
  let corners := corners.map fun p => p + centers
  let sorted := (ops.argsort.order thetas).reverse.map fun i => corners.getD i 0
  let p := fun i => sorted.getD i 0
  let first := firstIdx p
  fun j =>
    let corner := p ((first + j / 2) % 4)
    if (j : ℕ) % 2 = 0 then corner.1 else corner.2

/-! ### Lines -/

/-- A line of a ground-truth file. -/
structure GtLine where
  name : String
  corners : Fin 8 → ℤ
  difficult : Bool

variable [FloorRing K]

/-- The sorted corners of a box, each printed with `{:.0f}`. -/
def printedCorners (rbox : RowXywha K) : Fin 8 → ℤ :=
  fun j => pyRound (sortCorners ops (rbox2Quad ops rbox) j)

/-- `obj[obj.find('<name>') + k : obj.find('</name>')]`. -/
def field (obj : Text) (name : String) (k : ℕ) : String := String.ofList (Text.cut obj name.toList k)

/-- The body of the loop for the text of one object. -/
def objectLine (num : PyNumbers K) (evalDifficult : Bool) (obj : Text) : PyM GtLine :=
  if obj = [] then .error .assertionError
  else do
    let difficulty := field obj "difficult" 11
    let cx ← num.eval (field obj "cx" 4)
    let cy ← num.eval (field obj "cy" 4)
    let w ← num.eval (field obj "w" 3)
    let h ← num.eval (field obj "h" 3)
    let a ← num.eval (field obj "angle" 7)
    let corners := printedCorners ops
      ⟨(pyRound cx : K), (pyRound cy : K), (pyRound w : K), (pyRound h : K),
        a / ops.math.pi * 180⟩
    if evalDifficult then .ok ⟨"wake", corners, false⟩
    else if difficulty = "0" then .ok ⟨"wake", corners, false⟩
    else if difficulty = "1" then .ok ⟨"wake", corners, true⟩
    else .error .runtimeError

/-- What `convert_swim_gt` writes for an annotation file with this content. -/
def convertFile (num : PyNumbers K) (evalDifficult : Bool) (content : Text) : PyM (List GtLine) :=
  ((Text.split content (Text.tagText "object".toList)).drop 1).mapM (objectLine ops num evalDifficult)

/-! ### File names -/

/-- `files`: the annotation file of a line of the image list. -/
def annotationFile (line : Text) : Text :=
  Text.replace (Text.replace (Text.strip line) ".jpg".toList ".xml".toList) "JPEGImages".toList
    "Annotations".toList

/-- `x.replace('.xml', '.txt')` in `dst_gt`: the name of the ground-truth file of a line. -/
def gtName (line : Text) : Text :=
  Text.replace (Path.basename (annotationFile line)) ".xml".toList ".txt".toList

end W2Net.Wake2gt
