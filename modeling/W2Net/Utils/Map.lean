import Mathlib.Data.List.Sort
import Mathlib.Data.String.Basic
import W2Net.Lib.Counter
import W2Net.Lib.FirstClaim
import W2Net.Lib.Path
import W2Net.Lib.Python
import W2Net.Lib.Replace

/-!
# `W2Net.Utils.Map`: the evaluation of detections

The model of `eval_mAP` of `utils/map.py`, up to the files and plots it writes:

* `loadGroundTruth`: the ground-truth objects of each image, with the counters
  of objects and of images for each class.
* `classDetections`: the detections of one class, sorted by confidence.
* `assign`, `assignAll`: the loop that assigns detections to ground-truth
  objects. The `.json` file of an image, which the loop reads at each detection
  and writes after a match, is an entry of `Store`.
* `classCurve`: the cumulative sums, the recall and the precision.
* `evalClasses`, `evalCurves`: all classes, one after the other, on one store.
* `vocAp`, `evalAP`: the AP of each class.
* `logAverageMissRate`, `evalMAP`: the miss rate of each class, and the mean of the APs.

A text file is the list of its parsed lines, so the type `B` of the corners
stays abstract. `skewiou` takes the areas that shapely computes from `Shapely`;
the loop takes any overlap function. The values that `eval_mAP` fixes at its
start (`ignore = []`, no class with its own minimum overlap) are those of the
model. The folder `images-optional` does not exist, so there is no animation.

`evalMAP` follows the paths of the files. `evalCurves` and `evalAP` are for a
`root_dir` without a `.txt` in it and class names without a slash, where the id
of a file is that of its stem and every class has a `_dr.json` of its own.
-/

set_option autoImplicit false

namespace W2Net.Map

/-! ### Overlaps -/

section
variable {B K : Type} [Field K] [LinearOrder K]

/-- What shapely says about the convex hulls of two quadrilaterals. -/
structure Shapely (B K : Type) where
  isValid : B → Bool
  area : B → K
  intersection : B → B → K

/-- `skewiou`: the IoU and the area of the intersection. For an invalid hull the
code returns a bare 0, which its caller cannot unpack. -/
def skewiou (sh : Shapely B K) (box1 box2 : B) : PyM (K × K) :=
  if !sh.isValid box1 || !sh.isValid box2 then .error .typeError
  else if sh.area box1 = 0 ∨ sh.area box2 = 0 then .ok (0, 0)
  else
    let inter := sh.intersection box1 box2
    let union := sh.area box1 + sh.area box2 - inter
    if union = 0 then .ok (0, 0) else .ok (inter / union, inter)

end

/-! ### Files -/

/-- A `.txt` file: its name without the extension, and its parsed lines. -/
structure TxtFile (L : Type) where
  stem : String
  lines : List L

/-- The characters in front of the first `.txt`. -/
def uptoTxt : List Char → List Char
  | '.' :: 't' :: 'x' :: 't' :: _ => []
  | c :: cs => c :: uptoTxt cs
  | [] => []

/-- `txt_file.split(".txt", 1)[0]`, for the base name `stem + ".txt"`. -/
def fileId (stem : String) : String := String.ofList (uptoTxt stem.toList)

/-- `os.path.exists` of `id + ".txt"` in the directory that holds `files`. -/
def fileExists {L : Type} (files : List (TxtFile L)) (id : String) : Bool :=
  files.any fun f => f.stem = id

/-- The directories of `eval_mAP` below `root_dir`. -/
def gtPath (rootDir : Text) : Text := Path.join rootDir "ground-truth".toList

def drPath (rootDir : Text) : Text := Path.join rootDir "detection-results".toList

/-- `glob.glob(dir + '/*.txt')` for a directory with these names. -/
def globFiles (dir : Text) (names : List Text) : List Text :=
  (names.filter Path.globTxt).map fun name => dir ++ '/' :: name

/-- `file_id` of the path of a text file. -/
def pathId (txtFile : Text) : Text :=
  Path.basename (Path.normpath (Text.beforeFirst ".txt".toList txtFile))

/-- `file_id` of the file `stem + ".txt"` in a directory. -/
def idIn (dir : Text) (stem : String) : String :=
  String.ofList (pathId (dir ++ '/' :: (stem.toList ++ ".txt".toList)))

/-- The stem of a name that `glob` does not skip. -/
def Visible (stem : String) : Prop :=
  stem.toList ≠ [] ∧ '/' ∉ stem.toList ∧ ¬['.'] <+: stem.toList

/-- A directory of text files: those that `glob` lists, sorted by their names, and the stems of
the hidden ones. -/
structure TxtDir (L : Type) where
  files : List (TxtFile L)
  hidden : List String
  visible_of_mem : ∀ f ∈ files, Visible f.stem
  not_visible : ∀ stem ∈ hidden, ¬Visible stem

/-- `os.path.exists` of `id + ".txt"` in the directory. -/
def TxtDir.has {L : Type} (dir : TxtDir L) (id : String) : Bool :=
  fileExists dir.files id || dir.hidden.contains id

/-- The checks of `eval_mAP` on the names in its two directories: `temp_path` exists for each
file. -/
def counterpartsFound (rootDir : Text) (gtNames drNames : List Text) : Bool :=
  let found (files : List Text) (dir : Text) (names : List Text) : Bool :=
    files.all fun txtFile =>
      (names.map (Path.join dir)).contains (Path.join dir (pathId txtFile ++ ".txt".toList))
  found (globFiles (gtPath rootDir) gtNames) (drPath rootDir) drNames &&
    found (globFiles (drPath rootDir) drNames) (gtPath rootDir) gtNames

/-! ### Ground truth -/

section
variable {B : Type}

/-- A line of a ground-truth file: a class, four corners, and possibly the word
`difficult`. -/
structure GtLine (B : Type) where
  className : String
  bbox : B
  difficult : Bool

/-- An object in a `_ground_truth.json` file. The key `difficult` is present or
absent. -/
structure GtObject (B : Type) where
  className : String
  bbox : B
  used : Bool
  difficult : Bool

/-- The `_ground_truth.json` files: the objects of each file id. -/
abbrev Store (B : Type) : Type := String → Option (List (GtObject B))

/-- What is loaded from the ground-truth files. -/
structure GroundTruth (B : Type) where
  store : Store B
  gtCounterPerClass : Counter String
  counterImagesPerClass : Counter String

/-- The variables of the loop over the lines of one file. -/
structure FileScan (B : Type) where
  boundingBoxes : List (GtObject B)
  gtCounterPerClass : Counter String
  counterImagesPerClass : Counter String
  alreadySeenClasses : List String

/-- One line. A difficult object is stored but not counted. -/
def scanLine (st : FileScan B) (line : GtLine B) : FileScan B :=
  if line.difficult then
    { st with
      boundingBoxes := st.boundingBoxes ++ [⟨line.className, line.bbox, false, true⟩] }
  else
    let seen := line.className ∈ st.alreadySeenClasses
    { boundingBoxes := st.boundingBoxes ++ [⟨line.className, line.bbox, false, false⟩]
      gtCounterPerClass := st.gtCounterPerClass.incr line.className
      counterImagesPerClass :=
        if seen then st.counterImagesPerClass else st.counterImagesPerClass.incr line.className
      alreadySeenClasses :=
        if seen then st.alreadySeenClasses else st.alreadySeenClasses ++ [line.className] }

section
variable (ident : String → String)

/-- One file: its objects are dumped under its id, over an earlier dump of the
same id. `ident` takes the stem of a file to its id. -/
def loadFileBy (gt : GroundTruth B) (file : TxtFile (GtLine B)) : GroundTruth B :=
  let st := file.lines.foldl scanLine ⟨[], gt.gtCounterPerClass, gt.counterImagesPerClass, []⟩
  { store := Function.update gt.store (ident file.stem) (some st.boundingBoxes)
    gtCounterPerClass := st.gtCounterPerClass
    counterImagesPerClass := st.counterImagesPerClass }

/-- The loop over the ground-truth files. -/
def loadFilesBy (files : List (TxtFile (GtLine B))) : GroundTruth B :=
  files.foldl (loadFileBy ident) ⟨fun _ => none, [], []⟩

end

/-- The loop for a `root_dir` without a `.txt` in it. -/
def loadFiles (files : List (TxtFile (GtLine B))) : GroundTruth B := loadFilesBy fileId files

/-- The ground truth, for the files in the order of their names. `error` stops
the program when there is no file, or no detection file for one of them. -/
def loadGroundTruth {L : Type} (gtFiles : List (TxtFile (GtLine B))) (drFiles : List (TxtFile L)) :
    PyM (GroundTruth B) :=
  if gtFiles.isEmpty then .error .systemExit
  else if !(gtFiles.all fun f => fileExists drFiles (fileId f.stem)) then .error .systemExit
  else .ok (loadFiles gtFiles)

/-- `gt_classes`: the classes with a counted object, sorted. -/
def GroundTruth.gtClasses (gt : GroundTruth B) : List String :=
  gt.gtCounterPerClass.keys.insertionSort (· ≤ ·)

end

/-! ### Detections -/

section
variable {B K : Type}

/-- A line of a detection file. -/
structure DrLine (B K : Type) where
  className : String
  confidence : K
  bbox : B

/-- A detection in a `_dr.json` file. -/
structure Detection (B K : Type) where
  confidence : K
  fileId : String
  bbox : B

/-- The check that every detection file has a ground-truth file. It is made for
the first class only. -/
def checkDetectionFiles {L : Type} (gtFiles : List (TxtFile L))
    (drFiles : List (TxtFile (DrLine B K))) (gtClasses : List String) : PyM Unit :=
  if gtClasses.isEmpty || (drFiles.all fun f => fileExists gtFiles (fileId f.stem)) then .ok ()
  else .error .systemExit

/-- The detections of one class, by decreasing confidence. Python's sort is
stable, also with `reverse=True`. -/
def classDetectionsBy [LinearOrder K] (ident : String → String)
    (drFiles : List (TxtFile (DrLine B K))) (className : String) : List (Detection B K) :=
  let boundingBoxes := drFiles.flatMap fun file =>
    (file.lines.filter fun line => line.className = className).map fun line =>
      ⟨line.confidence, ident file.stem, line.bbox⟩
  boundingBoxes.insertionSort fun a b => b.confidence ≤ a.confidence

/-- The detections for a `root_dir` without a `.txt` in it. -/
def classDetections [LinearOrder K] (drFiles : List (TxtFile (DrLine B K))) (className : String) :
    List (Detection B K) :=
  classDetectionsBy fileId drFiles className

/-- What the file system makes of the names of the classes. Without a slash in it, a name denotes
a file of its own that can be written. -/
structure ClassFiles where
  /-- `<class_name>_dr.json` below `.temp_files`, `none` if it cannot be opened. -/
  drFile : String → Option String
  /-- `<class_name>.png` can be saved, or there is no matplotlib to draw it. -/
  plotted : String → Bool

/-- `json.dump` of the detections of a class: its file and what is in it. -/
def dumpDetections (locate : String → Option String) (detections : String → List (Detection B K))
    (className : String) : PyM (String × List (Detection B K)) :=
  match locate className with
  | some drFile => .ok (drFile, detections className)
  | none => .error .fileNotFoundError

/-- The `_dr.json` files: every class writes its own, and all are read back behind that. -/
def tempDetections (locate : String → Option String) (detections : String → List (Detection B K))
    (classes : List String) : PyM (String → List (Detection B K)) := do
  let written ← classes.mapM (dumpDetections locate detections)
  .ok fun className =>
    ((written.reverse.find? fun file => some file.1 = locate className).map Prod.snd).getD []

end

/-! ### Assignment of detections to objects -/

section
variable {B K : Type} [Field K] [LinearOrder K]
variable (overlap : B → B → PyM (K × K)) (thres : K) (className : String)

/-- The loop over the objects of an image, from the object with index `i` on:
`ovmax` and `gt_match` are kept unless the object has the class, meets the box,
and has a strictly greater IoU. `gt_match` is the object with its index. -/
def bestMatchFrom (bb : B) : List (GtObject B) → ℕ → K × Option (ℕ × GtObject B) →
    PyM (K × Option (ℕ × GtObject B))
  | [], _, best => .ok best
  | obj :: rest, i, best =>
      if obj.className = className then do
        let ov ← overlap obj.bbox bb
        if ov.2 ≠ 0 ∧ best.1 < ov.1 then
          bestMatchFrom bb rest (i + 1) (ov.1, some (i, obj))
        else bestMatchFrom bb rest (i + 1) best
      else bestMatchFrom bb rest (i + 1) best

/-- `ovmax` and `gt_match`, which both start at -1. -/
def bestMatch (bb : B) (groundTruthData : List (GtObject B)) :
    PyM (K × Option (ℕ × GtObject B)) :=
  bestMatchFrom overlap className bb groundTruthData 0 (-1, none)

/-- One detection: its entries in `tp` and `fp`, and the `.json` files after it.
The file of its image must exist. When the minimum overlap is reached without a
match, `"difficult" not in gt_match` raises `TypeError`. -/
def assign (store : Store B) (detection : Detection B K) : PyM (Marks × Store B) :=
  match store detection.fileId with
  | none => .error .fileNotFoundError
  | some groundTruthData => do
      let best ← bestMatch overlap className detection.bbox groundTruthData
      if thres ≤ best.1 then
        match best.2 with
        | none => .error .typeError
        | some (i, obj) =>
            if obj.difficult then .ok (⟨0, 0⟩, store)
            else if obj.used then .ok (⟨0, 1⟩, store)
            else
              -- `gt_match` is the object itself, so the dump has its new flag.
              .ok (⟨1, 0⟩, Function.update store detection.fileId
                (some (groundTruthData.set i { obj with used := true })))
      else .ok (⟨0, 1⟩, store)

/-- The loop over the detections of a class. -/
def assignAll (store : Store B) : List (Detection B K) → PyM (List Marks × Store B)
  | [] => .ok ([], store)
  | detection :: rest => do
      let step ← assign overlap thres className store detection
      let out ← assignAll step.2 rest
      .ok (step.1 :: out.1, out.2)

end

/-! ### Precision and recall -/

section
variable {B K : Type} [Field K] [LinearOrder K]

/-- The lists of one class after the cumulative sums. -/
structure Curve (K : Type) where
  fp : List ℕ
  tp : List ℕ
  recalls : List K
  prec : List K

/-- The cumulative sums, the recall and the precision of a class. -/
def classCurve (gt : GroundTruth B) (className : String) (marks : List Marks) : PyM (Curve K) :=
  match gt.gtCounterPerClass.get? className with
  | none => .error .keyError
  | some n => do
      let fp := cumsum 0 (marks.map Marks.fp)
      let tp := cumsum 0 (marks.map Marks.tp)
      let recalls ← tp.mapM fun (t : ℕ) => pyDiv (t : K) n
      let prec ← (tp.zip fp).mapM fun (p : ℕ × ℕ) =>
        pyDiv (p.1 : K) (p.2 + p.1 + 1 / 10 ^ 6)
      .ok ⟨fp, tp, recalls, prec⟩

/-- What is computed for one class. `marks` holds `tp` and `fp` before the
cumulative sums. -/
structure ClassResult (B K : Type) where
  className : String
  detections : List (Detection B K)
  marks : List Marks
  curve : Curve K

variable (overlap : B → B → PyM (K × K)) (thres : K)

/-- The loop over the classes. The flags `used` stay in the `.json` files from
one class to the next. -/
def evalClasses (gt : GroundTruth B) (detections : String → List (Detection B K))
    (store : Store B) : List String → PyM (List (ClassResult B K) × Store B)
  | [] => .ok ([], store)
  | className :: rest => do
      let assigned ← assignAll overlap thres className store (detections className)
      let curve ← classCurve gt className assigned.1
      let out ← evalClasses gt detections assigned.2 rest
      .ok (⟨className, detections className, assigned.1, curve⟩ :: out.1, out.2)

/-- The backward sweep over `mpre`: each entry becomes the maximum from it on. -/
def envelope : List K → List K
  | [] => []
  | p :: ps =>
      match envelope ps with
      | [] => [p]
      | q :: qs => max p q :: q :: qs

/-- The `ap` of `voc_ap` with `use_07_metric=False`: the area under the envelope of the
precision, summed where the recall changes. -/
def vocAp (recalls prec : List K) : K :=
  let mrec := 0 :: recalls ++ [1]
  let mpre := envelope (0 :: prec ++ [0])
  (((mrec.zip mrec.tail).zip mpre.tail).map fun e =>
    if e.1.2 ≠ e.1.1 then (e.1.2 - e.1.1) * e.2 else 0).sum

/-- `eval_mAP`, up to the precision and the recall of each class. -/
def evalCurves (gtFiles : List (TxtFile (GtLine B))) (drFiles : List (TxtFile (DrLine B K))) :
    PyM (List (ClassResult B K)) := do
  let gt ← loadGroundTruth gtFiles drFiles
  checkDetectionFiles gtFiles drFiles gt.gtClasses
  let out ← evalClasses overlap thres gt (classDetections drFiles) gt.store gt.gtClasses
  .ok out.1

/-- `ap_dictionary`: the AP of each class. -/
def evalAP (gtFiles : List (TxtFile (GtLine B))) (drFiles : List (TxtFile (DrLine B K))) :
    PyM (List (String × K)) := do
  let results ← evalCurves overlap thres gtFiles drFiles
  .ok (results.map fun r => (r.className, vocAp r.curve.recalls r.curve.prec))

end

/-! ### Miss rate and mean -/

/-- `np.exp`, `np.log`, and the points of `np.logspace(-2.0, 0.0, num=9)`, which are
positive. -/
structure NpLog (K : Type) [Zero K] [LT K] where
  exp : K → K
  log : K → K
  logspace : Fin 9 → K
  logspace_pos : ∀ i, 0 < logspace i

section
variable {B K : Type} [Field K] [LinearOrder K]

/-- `x <= r` for a float `x` and a number `r`. -/
def leNumber (r : K) : NpFloat K → Bool
  | .finite x => decide (x ≤ r)
  | .posInf => false
  | .negInf => true
  | .nan => false

/-- `np.where(xs <= r)[-1][-1]`. -/
def lastIndexLe (xs : List (NpFloat K)) (r : K) : PyM ℕ :=
  match ((List.range xs.length).filter fun j => xs[j]?.any (leNumber r)).getLast? with
  | some j => .ok j
  | none => .error .indexError

/-- The body of the loop over the reference points: `mr_tmp[j]` for the last `j` with
`fppi_tmp <= ref_i`. -/
def missRateAt (fppiTmp : List (NpFloat K)) (mrTmp : List K) (refI : K) : PyM K := do
  let j ← lastIndexLe fppiTmp refI
  getOrIndexError mrTmp j

/-- What `log_average_miss_rate` returns. -/
structure MissRate (K : Type) where
  lamr : K
  mr : List K
  fppi : List (NpFloat K)

/-- `log_average_miss_rate`. Without a detection of the class `mr` and `fppi` are the numbers
1 and 0, here lists of one entry. -/
def logAverageMissRate (np : NpLog K) (precision : List K) (fpCumsum : List ℕ) (numImages : ℕ) :
    PyM (MissRate K) :=
  if precision.length = 0 then .ok ⟨0, [1], [.finite 0]⟩
  else do
    let fppi := fpCumsum.map fun (fp : ℕ) => npDiv (fp : K) numImages
    let mr := precision.map fun p => 1 - p
    let fppiTmp := .finite (-1) :: fppi
    let mrTmp := 1 :: mr
    let ref ← (List.ofFn np.logspace).mapM (missRateAt fppiTmp mrTmp)
    let logs := ref.map fun r => np.log (max (1 / 10 ^ 10) r)
    .ok ⟨np.exp (logs.sum / logs.length), mr, fppi⟩

variable (np : NpLog K) (overlap : B → B → PyM (K × K)) (thres : K)

/-- The loop over the classes, with `sum_AP`, and the miss rate and the plot of each class. -/
def sumAPLoop (plotted : String → Bool) (gt : GroundTruth B)
    (detections : String → List (Detection B K)) (sumAP : K) (store : Store B) : List String → PyM K
  | [] => .ok sumAP
  | className :: rest => do
      let assigned ← assignAll overlap thres className store (detections className)
      let curve ← classCurve gt className assigned.1
      let ap := vocAp curve.recalls curve.prec
      match gt.counterImagesPerClass.get? className with
      | none => .error .keyError
      | some nImages => do
          let _ ← logAverageMissRate np curve.recalls curve.fp nImages
          if plotted className then sumAPLoop plotted gt detections (sumAP + ap) assigned.2 rest
          else .error .fileNotFoundError

/-- `eval_mAP` on the directories below `root_dir`: the mean of the APs over `gt_classes`. An id
is cut from the whole path of its file. `root_dir` is taken to have none of the wildcards of
`glob`. -/
def evalMAP (rootDir : Text) (names : ClassFiles) (gtDir : TxtDir (GtLine B))
    (drDir : TxtDir (DrLine B K)) : PyM K :=
  let gtId := idIn (gtPath rootDir)
  let drId := idIn (drPath rootDir)
  if gtDir.files.isEmpty then .error .systemExit
  else if !(gtDir.files.all fun f => drDir.has (gtId f.stem)) then .error .systemExit
  else do
    let gt := loadFilesBy gtId gtDir.files
    let nClasses := gt.gtClasses.length
    -- The check for the first class.
    if !gt.gtClasses.isEmpty && !(drDir.files.all fun f => gtDir.has (drId f.stem)) then
      .error .systemExit
    else
      let detections ← tempDetections names.drFile (classDetectionsBy drId drDir.files) gt.gtClasses
      let sumAP ← sumAPLoop np overlap thres names.plotted gt detections 0 gt.store gt.gtClasses
      pyDiv sumAP nClasses

end

end W2Net.Map
