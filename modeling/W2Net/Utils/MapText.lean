import W2Net.Eval
import W2Net.Lib.Decimal
import W2Net.Lib.TextLines

/-!
# `W2Net.Utils.MapText`: the text files between the model and its evaluation

The model of the texts that `W2Net.Utils.Map` and `W2Net.Eval` have in parsed form: the lines
that `data_evaluate` of `eval.py` and `convert_swim_gt` of `datasets/wake2gt.py` write, and how
`eval_mAP` of `utils/map.py` reads a line of a detection file and of a ground-truth file.

A file is a `TxtFile` of characters. `float` is a parameter. The lines are read in front of the
loops of `eval_mAP` that use them, and so are the numbers of a line.
-/

set_option autoImplicit false

namespace W2Net

open W2Net.Map (TxtFile GtLine DrLine evalAP)

/-! ### Reading -/

namespace Map

/-- `file_lines_to_list`. -/
def fileLinesToList (content : Text) : List Text := (Text.readlines content).map Text.strip

/-- The words of a detection line. `error` stops the program for another number of words. -/
def unpackDr (line : Text) : PyM (DrLine (List Text) Text) :=
  match Text.words line with
  | [className, confidence, x1, y1, x2, y2, x3, y3, x4, y4] =>
      .ok ⟨String.ofList className, confidence, [x1, y1, x2, y2, x3, y3, x4, y4]⟩
  | _ => .error .systemExit

/-- The words of a ground-truth line. A line that contains `difficult` has one more word. -/
def unpackGt (line : Text) : PyM (GtLine (List Text)) :=
  if (Text.indexOf "difficult".toList line).isSome then
    match Text.words line with
    | [className, x1, y1, x2, y2, x3, y3, x4, y4, _] =>
        .ok ⟨String.ofList className, [x1, y1, x2, y2, x3, y3, x4, y4], true⟩
    | _ => .error .systemExit
  else
    match Text.words line with
    | [className, x1, y1, x2, y2, x3, y3, x4, y4] =>
        .ok ⟨String.ofList className, [x1, y1, x2, y2, x3, y3, x4, y4], false⟩
    | _ => .error .systemExit

variable {K : Type} (float : Text → PyM K)

/-- A detection line with its numbers. -/
def readDrLine (line : Text) : PyM (DrLine (List K) K) := do
  let d ← unpackDr line
  let confidence ← float d.confidence
  let bbox ← d.bbox.mapM float
  .ok ⟨d.className, confidence, bbox⟩

/-- A ground-truth line with its numbers. -/
def readGtLine (line : Text) : PyM (GtLine (List K)) := do
  let d ← unpackGt line
  let bbox ← d.bbox.mapM float
  .ok ⟨d.className, bbox, d.difficult⟩

/-- A file, with each of its lines read. -/
def readFile {L : Type} (readLine : Text → PyM L) (file : TxtFile Char) : PyM (TxtFile L) := do
  let lines ← (fileLinesToList file.lines).mapM readLine
  .ok ⟨file.stem, lines⟩

end Map

/-! ### Writing -/

section
variable {K : Type} [Field K] [LinearOrder K] [FloorRing K]

/-- `'{} {:.0f} … {:.0f}\n'` without the line feed, and with `difficult` at the end. -/
def Wake2gt.formatLine (name : String) (pt : Fin 8 → K) (difficult : Bool) : Text :=
  Text.unwords (name.toList :: (List.ofFn pt).map (fixed 0)
    ++ if difficult then ["difficult".toList] else [])

namespace Eval

/-- `'{} {:.2f} {:.0f} … {:.0f}\n'` without the line feed. -/
def formatLine (name : String) (score : K) (res : Fin 8 → K) : Text :=
  Text.unwords (name.toList :: fixed 2 score :: (List.ofFn res).map (fixed 0))

variable (returnClass : ℕ → PyM String)

/-- The text file of an image. -/
def writeText (image : ImageDets (Fin 8 → K) K) : PyM (TxtFile Char) := do
  let lines ← image.dets.mapM fun d => do
    let name ← returnClass d.cls
    .ok (formatLine name d.score d.corners)
  .ok ⟨image.base, Text.unlines lines⟩

/-- `data_evaluate` through the text files, up to the AP of each class. -/
def dataEvaluateText (float : Text → PyM K) (overlap : List K → List K → PyM (K × K)) (thres : K)
    (gtTexts : List (TxtFile Char)) (images : List (ImageDets (Fin 8 → K) K)) :
    PyM (List (String × K)) := do
  let drTexts ← images.mapM (writeText returnClass)
  let gtFiles ← gtTexts.mapM (Map.readFile (Map.readGtLine float))
  let drFiles ← (onDisk drTexts).mapM (Map.readFile (Map.readDrLine float))
  evalAP overlap thres gtFiles drFiles

end Eval

end

end W2Net
