import W2Net.Utils.Map

/-!
# `W2Net.Utils.MapReport`: the counts in `output.txt`

The end of `eval_mAP` of `utils/map.py`: the number of detections of each class, and how
many of them are true and false positives. The detections are counted once more, from the
lines of the detection files, and the false positives are all that are not true positives.

`count_true_positives` has an entry for each class of the ground truth, which the loop over the
classes counts up, and 0 for the other classes of the detections.
-/

set_option autoImplicit false

namespace W2Net.Map

section
variable {B K : Type}

/-- `det_counter_per_class`. -/
def detCounterPerClass (drFiles : List (TxtFile (DrLine B K))) : Counter String :=
  drFiles.foldl (fun counter file => Counter.tally DrLine.className file.lines counter) []

/-- The class `r` of the loop: the entry is set to 0 and goes up with each true positive. -/
def countClass (counter : Counter String) (r : ClassResult B K) : Counter String :=
  r.marks.foldl
    (fun (counter : Counter String) mark =>
      if mark.tp = 1 then counter.incr r.className else counter)
    (counter.assign r.className 0)

/-- `count_true_positives` behind the loop over the classes. -/
def countTruePositives (results : List (ClassResult B K)) : Counter String :=
  results.foldl countClass []

/-- `# Finish counting true positives`. -/
def finishCounting (gtClasses drClasses : List String) (counter : Counter String) :
    Counter String :=
  drClasses.foldl
    (fun (counter : Counter String) className =>
      if className ∈ gtClasses then counter else counter.assign className 0) counter

/-- `d[k]`. -/
def getOrKeyError (counter : Counter String) (className : String) : PyM ℕ :=
  match counter.get? className with
  | none => .error .keyError
  | some n => .ok n

/-- The numbers in a line of the section about the detections. -/
structure DetectedLine where
  className : String
  nDet : ℕ
  tp : ℕ
  fp : ℤ
  deriving DecidableEq

/-- The numbers in the two last sections of `output.txt`. -/
structure OutputCounts where
  groundTruth : List (String × ℕ)
  detected : List DetectedLine
  deriving DecidableEq

/-- A line about the detections. -/
def detectedLine (detCounter truePositives : Counter String) (className : String) :
    PyM DetectedLine := do
  let nDet ← getOrKeyError detCounter className
  let tp ← getOrKeyError truePositives className
  .ok ⟨className, nDet, tp, nDet - tp⟩

/-- The two last sections of `output.txt`. -/
def writeCounts (gt : GroundTruth B) (results : List (ClassResult B K))
    (drFiles : List (TxtFile (DrLine B K))) : PyM OutputCounts := do
  let detCounter := detCounterPerClass drFiles
  let groundTruth ← (gt.gtCounterPerClass.keys.insertionSort (· ≤ ·)).mapM fun className => do
    let n ← getOrKeyError gt.gtCounterPerClass className
    .ok (className, n)
  let truePositives := finishCounting gt.gtClasses detCounter.keys (countTruePositives results)
  let detected ← (detCounter.keys.insertionSort (· ≤ ·)).mapM
    (detectedLine detCounter truePositives)
  .ok ⟨groundTruth, detected⟩

variable [Field K] [LinearOrder K]

/-- `eval_mAP` up to the end of `output.txt`. Without a class, the mean of the APs in front of
the two sections raises. -/
def evalCounts (overlap : B → B → PyM (K × K)) (thres : K)
    (gtFiles : List (TxtFile (GtLine B))) (drFiles : List (TxtFile (DrLine B K))) :
    PyM OutputCounts := do
  let gt ← loadGroundTruth gtFiles drFiles
  checkDetectionFiles gtFiles drFiles gt.gtClasses
  let out ← evalClasses overlap thres gt (classDetections drFiles) gt.store gt.gtClasses
  if gt.gtClasses.isEmpty then .error .zeroDivisionError
  else writeCounts gt out.1 drFiles

end

end W2Net.Map
